/-
  LivingObjects.Gc.PendingWrites — a collection in the middle of transactions.

  What is pending are the triples of the transaction logs, and a transaction reads a
  location of an object through its log: the last triple for it, or the heap when there is
  none.  A collection renames the objects of the triples and what they hold; the keys stay
  apart, since no two objects have one image, and so each location of a relocated object
  reads as the image of what it read before.
-/
import Mathlib
import LivingObjects.Gc.Retry

namespace LivingObjects.Gc

/-! ## §1. Reading through a log. -/

/-- `txn_log_read`: the triples from the last one back. -/
def txnLogRead (log : List LogTriple) (object fieldIndex : Nat) : Option Nat :=
  (log.reverse.find? fun e => e.object = object ∧ e.fieldIndex = fieldIndex).map LogTriple.value

/-- A field of an object, or a byte of one that holds bytes. -/
inductive Location where
  | field (index : Nat)
  | byte (index : Nat)

namespace Location

/-- The field index of its triples; that of a byte is marked. -/
def key : Location → Nat
  | field index => index
  | byte index => 2 ^ 63 ||| index

/-- It is a location of this object. -/
def Inside (mem : Nat → Nat) (obj : Nat) : Location → Prop
  | field index => mem (obj + 8) ≠ formatBytes ∧ index < mem (obj + 16)
  | byte index => mem (obj + 8) = formatBytes ∧ index < mem (obj + 16)

/-- What the heap holds there: `OBJ_FIELD`, or the byte as a SmallInteger. -/
def load (mem : Nat → Nat) (obj : Nat) : Location → Nat
  | field index => mem (obj + 8 * (index + 3))
  | byte index => 4 * (mem (obj + 8 * (index / 8 + 3)) / 256 ^ (index % 8) % 256) + 1

/-- What a transaction reads there: `txn_log_read`, then the heap. -/
def read (mem : Nat → Nat) (log : List LogTriple) (obj : Nat) (l : Location) : Nat :=
  (txnLogRead log obj l.key).getD (l.load mem obj)

end Location

/-- The last triple for a location is found as before, when renaming tells the targets of
the log from the object as well as they were told before. -/
theorem txnLogRead_map {f : Nat → Nat} {log : List LogTriple} {obj : Nat}
    (hapart : ∀ e ∈ log, f e.object = f obj → e.object = obj) (fieldIndex : Nat) :
    txnLogRead (log.map (LogTriple.map f)) (f obj) fieldIndex
      = (txnLogRead log obj fieldIndex).map f := by
  have hsame : ∀ e ∈ log.reverse,
      decide ((e.map f).object = f obj ∧ (e.map f).fieldIndex = fieldIndex)
        = decide (e.object = obj ∧ e.fieldIndex = fieldIndex) := by
    intro e he
    have hkey := hapart e (List.mem_reverse.mp he)
    refine decide_eq_decide.mpr (and_congr_left fun _ => ⟨hkey, fun h => ?_⟩)
    show f e.object = f obj
    rw [h]
  unfold txnLogRead
  rw [← List.map_reverse, List.find?_map]
  have hfind : log.reverse.find? ((fun e : LogTriple => decide (e.object = f obj ∧
      e.fieldIndex = fieldIndex)) ∘ LogTriple.map f)
      = log.reverse.find? fun e => e.object = obj ∧ e.fieldIndex = fieldIndex :=
    List.find?_congr hsame
  rw [hfind, Option.map_map, Option.map_map]
  rfl

/-! ## §2. After a collection. -/

section Collected

variable {mem : Nat → Nat} {fromStart fromEnd free toEnd : Nat} {roots copied roots' : List Nat}
variable {s' : Space}

theorem renamed_of_tag {word : Nat} (htag : word % 4 = 1) :
    renamed mem fromStart fromEnd free copied word = word := by
  refine if_neg fun hin => ?_
  simp only [inFromSpace, Bool.and_eq_true, beq_iff_eq] at hin
  omega

/-- The heap holds the images. -/
theorem Collected.load (h : Collected mem fromStart fromEnd free toEnd roots copied roots' s')
    {o : Nat} (ho : o ∈ copied) {l : Location} (hl : l.Inside mem o) :
    l.load s'.mem (imageOf mem free copied o)
      = renamed mem fromStart fromEnd free copied (l.load mem o) := by
  cases l with
  | field index =>
    have hi : index + 3 < totalWords mem o := by
      unfold totalWords
      rw [if_neg hl.1]
      exact Nat.add_lt_add_right hl.2 3
    exact (h.words o ho _ hi).trans (if_pos (Or.inr ⟨by omega, hl.1⟩))
  | byte index =>
    have hi : index / 8 + 3 < totalWords mem o := by
      have hsize := hl.2
      unfold totalWords
      rw [if_pos hl.1]
      omega
    have hslot : ¬IsSlot mem o (index / 8 + 3) := by
      rintro (hzero | hfield)
      · omega
      · exact hfield.2 hl.1
    have hword := (h.words o ho _ hi).trans (if_neg hslot)
    unfold Location.load
    dsimp only
    rw [hword]
    exact (renamed_of_tag (by omega)).symm

/-- What a collection leaves apart: a word that is no object of from-space and does not
point into the room that is filled has no image of another for its own. -/
theorem Collected.apart (h : Collected mem fromStart fromEnd free toEnd roots copied roots' s')
    {o word : Nat} (ho : o ∈ copied)
    (hword : inFromSpace fromStart fromEnd word = true → word ∈ copied)
    (hout : ¬(free ≤ word ∧ word < toEnd))
    (heq : renamed mem fromStart fromEnd free copied word = imageOf mem free copied o) :
    word = o := by
  unfold renamed at heq
  by_cases hin : inFromSpace fromStart fromEnd word = true
  · rw [if_pos hin] at heq
    exact h.injective word (hword hin) o ho heq
  · rw [if_neg hin] at heq
    have hbounds := @imageOf_bounds mem free o copied ho
    have hwords := three_le_totalWords mem o
    have htop := h.top
    have hfits := h.fits
    exact absurd ⟨by omega, by omega⟩ hout

end Collected

/-! ## §3. The logs. -/

namespace World

/-- A triple of a pending log has both its objects among the roots. -/
theorem mem_otherRoots {w : World} {log : List LogTriple} {e : LogTriple} (hlog : some log ∈ w.logs)
    (he : e ∈ log) : e.object ∈ w.otherRoots ∧ e.value ∈ w.otherRoots := by
  have hroots : ∀ r ∈ e.roots, r ∈ w.otherRoots := by
    intro r hr
    refine List.mem_append_left _ (List.mem_append_right _ ?_)
    exact List.mem_flatMap.mpr ⟨some log, hlog, List.mem_flatMap.mpr ⟨e, he, hr⟩⟩
  exact ⟨hroots _ List.mem_cons_self, hroots _ (List.mem_cons_of_mem _ List.mem_cons_self)⟩

/-- **Pending writes survive a collection.**  Handlers, `ensure:` frames and logs have what
they had, renamed; what the logs mention in from-space has been copied; and every location
of a relocated object reads, through any of the logs, as the image of what it read. -/
theorem pendingWrites_survive {w : World} {objs : Nat → Prop} {slots : List Nat}
    (hlayout : w.om.hasLayout = true)
    (hready : Ready w.heap w.om.fromStart w.om.fromEnd w.om.toFree w.om.toEnd objs
      (slots.map w.stack ++ w.otherRoots))
    (htargets : ∀ log, some log ∈ w.logs → ∀ e ∈ log,
      ¬(w.om.toFree ≤ e.object ∧ e.object < w.om.toEnd)) :
    ∃ (copied : List Nat) (f : Nat → Nat) (s' : Space) (w' : World), f = renamed w.heap w.om.fromStart w.om.fromEnd w.om.toFree copied ∧
      w.collectReported slots = some w' ∧ w'.heap = s'.mem ∧
      Collected w.heap w.om.fromStart w.om.fromEnd w.om.toFree w.om.toEnd
        (slots.map w.stack ++ w.otherRoots) copied
        ((slots.map w.stack ++ w.otherRoots).map f) s' ∧
      w'.handlers = w.handlers.map (HandlerRoots.map f) ∧
      w'.ensures = w.ensures.map (EnsureRoots.map f) ∧
      w'.logs = w.logs.map (Option.map (List.map (LogTriple.map f))) ∧
      (∀ log, some log ∈ w.logs → ∀ e ∈ log, ∀ word ∈ [e.object, e.value],
        inFromSpace w.om.fromStart w.om.fromEnd word = true → word ∈ copied) ∧
      ∀ (i : Nat) log, w.logs[i]? = some (some log) →
        ∃ log', w'.logs[i]? = some (some log') ∧
          ∀ o ∈ copied, ∀ l : Location, l.Inside w.heap o →
            l.read w'.heap log' (f o) = f (l.read w.heap log o) := by
  obtain ⟨copied, s', hrun, hcollected⟩ := collectReported_moved hlayout hready
  have hlive : ∀ r ∈ w.otherRoots, inFromSpace w.om.fromStart w.om.fromEnd r = true →
      r ∈ copied := fun r hr hin =>
    (hcollected.reachable r).mpr (.root (List.mem_append_right _ hr) hin)
  refine ⟨copied, _, s', _, rfl, hrun, rfl, hcollected, rfl, rfl, rfl, ?_, ?_⟩
  · intro log hlog e he word hword
    obtain ⟨hobject, hvalue⟩ := mem_otherRoots hlog he
    simp only [List.mem_cons, List.not_mem_nil, or_false] at hword
    rcases hword with rfl | rfl
    · exact hlive _ hobject
    · exact hlive _ hvalue
  · intro i log hi
    have hlog : some log ∈ w.logs := List.mem_of_getElem? hi
    refine ⟨_, by rw [show (w.moved _ _ _).logs = w.logs.map _ from rfl, List.getElem?_map, hi]; rfl,
      fun o ho l hl => ?_⟩
    have hin : inFromSpace w.om.fromStart w.om.fromEnd o = true := by
      have hobj := hready.obj ((hcollected.reachable o).mp ho)
      have hinside := hready.heap.inside o hobj
      have haligned := hready.heap.aligned o hobj
      have hwords := three_le_totalWords w.heap o
      exact inFromSpace_iff.mpr ⟨by omega, by omega, by omega⟩
    have himage : renamed w.heap w.om.fromStart w.om.fromEnd w.om.toFree copied o
        = imageOf w.heap w.om.toFree copied o := if_pos hin
    have hread := txnLogRead_map (f := renamed w.heap w.om.fromStart w.om.fromEnd w.om.toFree copied)
      (fun e (he : e ∈ log) heq => hcollected.apart ho
        (hlive _ (mem_otherRoots hlog he).1) (htargets log hlog e he) (heq.trans himage)) l.key
    have hload := hcollected.load ho hl
    unfold Location.read
    rw [hread]
    cases txnLogRead log o l.key with
    | some v => rfl
    | none =>
      rw [himage]
      exact hload

/-- A loop on the cyclic heap in two transactions, the inner one without a log of its own:
a field of the first object has been stored to twice and a byte of the second once. -/
def pendingWorld : World where
  stack _ := 64
  sp := 90
  fp := 95
  low := 0
  base := 100
  heap := cyclicHeap
  om :=
    { registered := true
      fromFree := 136
      fromEnd := 136
      toFree := 1024
      toEnd := 1096
      fromStart := 64
      toStart := 1024
      spaceSize := 72
      tenuredStart := 0
      tenuredEnd := 0 }
  handlers := [⟨104, 64, 3⟩]
  ensures := [⟨3, 64⟩]
  logs := [none, some [⟨64, 0, 104⟩, ⟨104, 2 ^ 63, 13⟩, ⟨64, 0, 64⟩]]
  classTable := 104
  ip := 0
  bytecodeBase := 0
  frames := []
  globals := ⟨0, 0, 0, 0⟩
  remembered := none

theorem pendingWorld_survives :
    ∃ (copied : List Nat) (f : Nat → Nat) (s' : Space) (w' : World),
      f = renamed cyclicHeap 64 136 1024 copied ∧
      pendingWorld.collectReported [93] = some w' ∧ w'.heap = s'.mem ∧
      Collected cyclicHeap 64 136 1024 1096
        ([93].map pendingWorld.stack ++ pendingWorld.otherRoots) copied
        (([93].map pendingWorld.stack ++ pendingWorld.otherRoots).map f) s' ∧
      w'.handlers = pendingWorld.handlers.map (HandlerRoots.map f) ∧
      w'.ensures = pendingWorld.ensures.map (EnsureRoots.map f) ∧
      w'.logs = pendingWorld.logs.map (Option.map (List.map (LogTriple.map f))) ∧
      (∀ log, some log ∈ pendingWorld.logs → ∀ e ∈ log, ∀ word ∈ [e.object, e.value],
        inFromSpace 64 136 word = true → word ∈ copied) ∧
      ∀ (i : Nat) log, pendingWorld.logs[i]? = some (some log) →
        ∃ log', w'.logs[i]? = some (some log') ∧
          ∀ o ∈ copied, ∀ l : Location, l.Inside cyclicHeap o →
            l.read w'.heap log' (f o) = f (l.read cyclicHeap log o) := by
  have hroots : ∀ r ∈ [93].map pendingWorld.stack ++ pendingWorld.otherRoots,
      inFromSpace 64 136 r = true → r ∈ [64, 104] := by
    decide
  have hready : Ready cyclicHeap 64 136 1024 1096 (· ∈ [64, 104])
      ([93].map pendingWorld.stack ++ pendingWorld.otherRoots) :=
    ready_of_objects [64, 104] cyclicHeap_wellFormed hroots rfl (Or.inl (by decide)) (by decide)
  refine pendingWrites_survive (w := pendingWorld) rfl hready fun log hlog e he => ?_
  have hsome : log = [⟨64, 0, 104⟩, ⟨104, 2 ^ 63, 13⟩, ⟨64, 0, 64⟩] := by
    rcases List.mem_cons.mp hlog with h | h
    · cases h
    · exact Option.some.inj (List.mem_singleton.mp h)
  subst hsome
  show ¬(1024 ≤ e.object ∧ e.object < 1096)
  simp only [List.mem_cons, List.not_mem_nil, or_false] at he
  rcases he with rfl | rfl | rfl
  · exact fun h => absurd h.1 (by decide)
  · exact fun h => absurd h.1 (by decide)
  · exact fun h => absurd h.1 (by decide)

end World

end LivingObjects.Gc
