/-
  LivingObjects.Gc.Invisible — what a collection leaves of the VM.

  `SameUpTo` compares the VM before and after `collect_and_retry_allocation`: every word
  that holds an object holds it under its new name, and every address inside bytecodes is
  the same place of the same bytecodes.  The roots do as they should.  The saved ips in
  frames, the locals of the C frames that wait and the globals of the VM are no roots and
  stay as they are, and so do the slots the walk of the stack misses and the tenured ones;
  the comparison holds exactly when none of them has anything in from-space.
-/
import Mathlib
import LivingObjects.Gc.Retry

namespace LivingObjects.Gc

open LivingObjects.Lib LivingObjects.Stack

/-! ## §1. The same VM up to renaming. -/

/-- Where the frames save the ip of their caller. -/
def codeSlots (p : Nat) : List Activation → List Nat
  | [] => []
  | a :: rest => (a.fpAt p + 1) :: codeSlots (p + a.size) rest

/-- The flags and the saved frame pointers. -/
def linkSlots (p : Nat) : List Activation → List Nat
  | [] => []
  | a :: rest => [a.fpAt p - 2, a.fpAt p] ++ linkSlots (p + a.size) rest

namespace World

variable (w : World)

def inFrom (word : Nat) : Bool := inFromSpace w.om.fromStart w.om.fromEnd word

/-- What becomes of an object when those of the list have been copied. -/
def rename (copied : List Nat) (word : Nat) : Nat :=
  renamed w.heap w.om.fromStart w.om.fromEnd w.om.toFree copied word

/-- The word denotes the same object. -/
def Moved (copied : List Nat) (word word' : Nat) : Prop :=
  word' = w.rename copied word ∧ (w.inFrom word = true → word ∈ copied)

/-- An address of from-space, not of an object alone. -/
def Within (address : Nat) : Prop := w.om.fromStart ≤ address ∧ address < w.om.fromEnd

/-- The address is the same place in the same bytecodes. -/
def MovedCode (copied : List Nat) (address address' : Nat) : Prop :=
  (w.Within address → ∃ o ∈ copied, o + 24 ≤ address ∧ address < o + 8 * totalWords w.heap o ∧
    address' = w.rename copied o + (address - o)) ∧
  (¬w.Within address → address' = address)

end World

/-- The frame waits for the same code with the same objects. -/
def CFrame.Moved (w : World) (copied : List Nat) : CFrame → CFrame → Prop
  | .loop ip base table, .loop ip' base' table' =>
    w.MovedCode copied ip ip' ∧ w.MovedCode copied base base' ∧ w.Moved copied table table'
  | .ensure ip base table block, .ensure ip' base' table' block' =>
    w.MovedCode copied ip ip' ∧ w.MovedCode copied base base' ∧ w.Moved copied table table' ∧
      w.Moved copied block block'
  | .ensured ip base table result, .ensured ip' base' table' result' =>
    w.MovedCode copied ip ip' ∧ w.MovedCode copied base base' ∧ w.Moved copied table table' ∧
      w.Moved copied result result'
  | .signaled ip base table cls payload, .signaled ip' base' table' cls' payload' =>
    w.MovedCode copied ip ip' ∧ w.MovedCode copied base base' ∧ w.Moved copied table table' ∧
      w.Moved copied cls cls' ∧ w.Moved copied payload payload'
  | .onDo ip base table, .onDo ip' base' table' =>
    w.MovedCode copied ip ip' ∧ w.MovedCode copied base base' ∧ w.Moved copied table table'
  | .transaction ip base table, .transaction ip' base' table' =>
    w.MovedCode copied ip ip' ∧ w.MovedCode copied base base' ∧ w.Moved copied table table'
  | _, _ => False

/-- A compiled method, its bytecodes and the ip in them. -/
structure RunsIn (w : World) (objs old : Nat → Prop) (method : Nat) : Prop where
  reference : isReference method = true
  held : objs method ∨ old method
  format : w.heap (method + 8) ≠ formatBytes
  size : 7 < totalWords w.heap method
  bytecodes : objs (bytecodesOf w.heap method) ∨ old (bytecodesOf w.heap method)
  base : w.bytecodeBase = bytecodesOf w.heap method + 24
  start : w.bytecodeBase ≤ w.ip
  ends : w.ip < bytecodesOf w.heap method
    + 8 * totalWords w.heap (bytecodesOf w.heap method)

/-- A state in which `collect_and_retry_allocation` can do its work: two spaces and old
objects apart from both, a stack of frames that is in neither, roots that are objects, and
ips that point into the bodies of objects. -/
structure Collectable (w : World) (objs old : Nat → Prop) (acts : List Activation)
    (reported : List Nat) : Prop where
  layout : w.om.hasLayout = true
  chain : Chain w.vm acts
  stackSlots : w.stackSlots = some reported
  ready : Ready w.heap w.om.fromStart w.om.fromEnd w.om.toFree w.om.toEnd objs
    (reported.map w.stack ++ w.otherRoots)
  oldFrom : ∀ o, old o → o + 8 * totalWords w.heap o ≤ w.om.fromStart ∨ w.om.fromEnd ≤ o
  oldTo : ∀ o, old o → o + 8 * totalWords w.heap o ≤ w.om.toFree ∨ w.om.toEnd ≤ o
  stackOut : ∀ a ∈ linkSlots w.sp acts, w.inFrom (w.stack a) = false
  savedIps : ∀ a ∈ codeSlots w.sp acts, w.Within (w.stack a) →
    ∃ o, objs o ∧ o + 24 ≤ w.stack a ∧ w.stack a < o + 8 * totalWords w.heap o
  running : ∃ a rest, acts = a :: rest ∧ RunsIn w objs old a.method

/-- Nothing in from-space is held outside the roots. -/
structure Rooted (w : World) (old : Nat → Prop) (acts : List Activation)
    (reported : List Nat) : Prop where
  slots : ∀ a ∈ slotAddresses w.sp acts, w.inFrom (w.stack a) = true → a ∈ reported
  savedIps : ∀ a ∈ codeSlots w.sp acts, ¬w.Within (w.stack a)
  frameCode : ∀ f ∈ w.frames, ∀ v ∈ f.code, ¬w.Within v
  frameObjects : ∀ f ∈ w.frames, ∀ v ∈ f.objects, w.inFrom v = false
  globals : ∀ v ∈ w.globals.objects, w.inFrom v = false
  outside : ∀ o, old o → ∀ i < totalWords w.heap o, IsSlot w.heap o i →
    w.inFrom (w.heap (o + 8 * i)) = false

/-! ## §3. Words that stay as they are. -/

section Moved

variable {w : World} {copied : List Nat}

theorem within_of_inFrom {word : Nat} (h : w.inFrom word = true) : w.Within word :=
  (inFromSpace_iff.mp h).2

theorem rename_of_out {word : Nat} (h : w.inFrom word = false) : w.rename copied word = word := by
  have h' : inFromSpace w.om.fromStart w.om.fromEnd word = false := h
  unfold World.rename renamed
  rw [h', if_neg Bool.false_ne_true]

theorem rename_of_inFrom {word : Nat} (h : w.inFrom word = true) :
    w.rename copied word = imageOf w.heap w.om.toFree copied word := if_pos h

end Moved

/-! ## §4. What the collection has done. -/

section Collection

variable {w : World} {objs old : Nat → Prop} {acts : List Activation} {reported : List Nat}
variable {copied : List Nat} {s' : Space}

/-- What `collect_and_retry_allocation` returns. -/
abbrev Ran (w : World) (reported copied : List Nat) (s' : Space) : Prop :=
  Collected w.heap w.om.fromStart w.om.fromEnd w.om.toFree w.om.toEnd
    (reported.map w.stack ++ w.otherRoots) copied
    ((reported.map w.stack ++ w.otherRoots).map (w.rename copied)) s'

theorem Ran.inFrom (hran : Ran w reported copied s') {o : Nat} (ho : o ∈ copied) :
    w.inFrom o = true := by
  cases (hran.reachable o).mp ho with
  | root _ hin => exact hin
  | slot _ href =>
    obtain ⟨_, _, _, _, hin⟩ := href
    exact hin

theorem Ran.room (hran : Ran w reported copied s') :
    w.om.toFree + bytesOf w.heap copied ≤ w.om.toEnd := hran.top ▸ hran.fits

/-- A root in from-space has been copied. -/
theorem Ran.root (hran : Ran w reported copied s') {word : Nat}
    (hroot : word ∈ reported.map w.stack ++ w.otherRoots) (hin : w.inFrom word = true) :
    word ∈ copied := (hran.reachable word).mpr (.root hroot hin)

theorem Ran.reportedSlot (hran : Ran w reported copied s') {a : Nat} (ha : a ∈ reported) :
    w.inFrom (w.stack a) = true → w.stack a ∈ copied :=
  hran.root (List.mem_append_left _ (List.mem_map_of_mem ha))

/-- The old objects stay where they are. -/
theorem Ran.oldWord (hran : Ran w reported copied s') (h : Collectable w objs old acts reported)
    {o i : Nat} (ho : old o) (hi : i < totalWords w.heap o) :
    s'.mem (o + 8 * i) = w.heap (o + 8 * i) := by
  have hfrom := h.oldFrom o ho
  have hto := h.oldTo o ho
  refine hran.same _ (by omega) fun hmem => ?_
  obtain ⟨hlo, hhi⟩ := within_of_inFrom (hran.inFrom hmem)
  omega

theorem Collectable.inFrom_obj (h : Collectable w objs old acts reported) {o : Nat} (ho : objs o) :
    w.inFrom o = true := by
  have hinside := h.ready.heap.inside o ho
  have haligned := h.ready.heap.aligned o ho
  have hwords := three_le_totalWords w.heap o
  exact inFromSpace_iff.mpr ⟨by omega, by omega, by omega⟩

theorem Collectable.out_old (h : Collectable w objs old acts reported) {o v : Nat} (ho : old o)
    (hlo : o ≤ v) (hhi : v < o + 8 * totalWords w.heap o) : ¬w.Within v := by
  rintro ⟨hstart, hend⟩
  have hfrom := h.oldFrom o ho
  omega

/-- The method of the running frame is a root. -/
theorem Collectable.method_reported (h : Collectable w objs old acts reported) {a : Activation}
    {rest : List Activation} (hacts : acts = a :: rest) (href : isReference a.method = true) :
    w.fp - 1 ∈ reported ∧ w.stack (w.fp - 1) = a.method := by
  subst hacts
  have hfp : w.fp = a.fpAt w.sp := h.chain.fp
  have hheld : Held w.stack w.sp (fpOf (w.sp + a.size) rest) a := h.chain.held.1
  have hmethod : w.stack (w.fp - 1) = a.method := hfp ▸ hheld.method
  refine ⟨?_, hmethod⟩
  have hslots := h.stackSlots
  rw [World.stackSlots_eq h.chain] at hslots
  obtain ⟨visits, hvisits, rfl⟩ := Option.map_eq_some_iff.mp hslots
  refine List.mem_filter.mpr ⟨?_, by rw [hmethod]; exact href⟩
  simp only [chainVisits, Option.bind_eq_bind, Option.bind_eq_some_iff] at hvisits
  obtain ⟨inner, hinner, outer, -, heq⟩ := hvisits
  obtain rfl := Option.some.inj heq
  obtain ⟨k, bound, -, -, rfl⟩ := frameVisits_some.mp hinner
  rw [hfp]
  simp

/-- The code of the running method has become what its name says. -/
theorem Ran.bytecodes (hran : Ran w reported copied s') (h : Collectable w objs old acts reported)
    (hrooted : Rooted w old acts reported) {a : Activation} {rest : List Activation}
    (hacts : acts = a :: rest) (hruns : RunsIn w objs old a.method) :
    bytecodesOf s'.mem (w.rename copied a.method)
        = w.rename copied (bytecodesOf w.heap a.method) ∧
      (w.inFrom (bytecodesOf w.heap a.method) = true → bytecodesOf w.heap a.method ∈ copied) := by
  have hslot : IsSlot w.heap a.method 7 := Or.inr ⟨by omega, hruns.format⟩
  obtain ⟨hreported, hmethod⟩ := h.method_reported hacts hruns.reference
  rcases hruns.held with hobj | hold
  · have hin := h.inFrom_obj hobj
    have hcopied := hran.reportedSlot hreported
    rw [hmethod] at hcopied
    have hword := hran.words _ (hcopied hin) 7 hruns.size
    rw [if_pos hslot, ← rename_of_inFrom hin] at hword
    exact ⟨hword, hran.closed _ (hcopied hin) 7 hruns.size hslot⟩
  · -- an old method is not copied, and its code is not in from-space
    have hout : w.inFrom a.method = false := by
      rw [← Bool.not_eq_true]
      intro hin
      have hwords := hruns.size
      exact h.out_old hold (Nat.le_refl _) (by omega) (within_of_inFrom hin)
    have hcode : w.inFrom (bytecodesOf w.heap a.method) = false :=
      hrooted.outside _ hold 7 hruns.size hslot
    rw [rename_of_out hout, rename_of_out hcode, hcode]
    exact ⟨hran.oldWord h hold hruns.size, fun hin => absurd hin Bool.false_ne_true⟩

end Collection

end LivingObjects.Gc
