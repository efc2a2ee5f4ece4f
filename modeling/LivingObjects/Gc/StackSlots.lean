/-
  LivingObjects.Gc.StackSlots — `gc_collect_stack_slots`.

  The routine walks the frames from `(sp, fp)` out and reports the address of every
  slot that holds a reference.  Its helper `.Lgcss_add_slot` loads the slot into x24,
  the register that holds the number of temporaries for the loop around it, so that
  after the first temporary the loop runs up to the value of the slot it has just
  looked at.  The arguments of a call lie between the callee's header and the slot
  where the walk of the caller starts, and no frame reports them.  Both are modelled as
  they are, and `Covered` says on which stacks the report is right all the same.

  Addresses are word addresses, here also in the buffer.
-/
import LivingObjects.Stack.Chain

namespace LivingObjects.Gc

open LivingObjects.Lib LivingObjects.Stack

/-! ## §1. The walk. -/

/-- The tests of `.Lgcss_add_slot`: not 0, and tag 00. -/
def isReference (word : Nat) : Bool := word != 0 && word % 4 == 0

/-- The count in x23 and the buffer of x21. -/
structure Slots where
  count : Nat
  buffer : Nat → Nat

/-- The signed comparison of a count with a word. -/
def reaches (word count : Nat) : Bool := decide (2 ^ 63 ≤ word ∨ word ≤ count)

/-- Where the operands end: x20 less 8 * (x24 + 4), as 64-bit addresses. -/
def operandEnd (fp bound : Nat) : Nat := (((fp : Int) - (bound + 4)) % 2 ^ 61).toNat

section Walk

variable (code : Nat → CompiledMethod) (mem : Nat → Nat) (low base : Nat)
variable (slotBuf : Bool) (maxSlots : Int)

/-- `.Lgcss_add_slot`. -/
def addSlot (address : Nat) (slots : Slots) : Slots :=
  if isReference (mem address) then
    { count := slots.count + 1
      buffer :=
        if slotBuf ∧ slots.count < maxSlots then
          Function.update slots.buffer slots.count address
        else slots.buffer }
  else slots

/-- `.Lgcss_temps` from an index on.  `bound` is x24: the number of temporaries at first,
then the word `.Lgcss_add_slot` has loaded.  A read below the stack faults. -/
def tempsLoop (fp : Nat) : Nat → Nat → Nat → Slots → Option (Nat × Slots)
  | 0, _, _, _ => none
  | fuel + 1, bound, index, slots =>
    if reaches bound index then some (bound, slots)
    else if fp < low + (5 + index) then none
    else
      let address := fp - (5 + index)
      tempsLoop fp fuel (mem address) (index + 1)
        (addSlot mem slotBuf maxSlots address slots)

/-- `.Lgcss_eval_loop`, with the number of words up to the end.  A read above the stack
faults. -/
def evalLoop : Nat → Nat → Slots → Option Slots
  | 0, _, slots => some slots
  | n + 1, sp, slots =>
    if base ≤ sp then none
    else evalLoop n (sp + 1) (addSlot mem slotBuf maxSlots sp slots)

/-- One round of `.Lgcss_frame_loop`. -/
def collectFrame (sp fp : Nat) (slots : Slots) : Option Slots := do
  let slots := addSlot mem slotBuf maxSlots (fp - 4) slots
  let slots := addSlot mem slotBuf maxSlots (fp - 1) slots
  let slots := addSlot mem slotBuf maxSlots (fp - 3) slots
  let (bound, slots) ←
    tempsLoop mem low slotBuf maxSlots fp (fp + 1) (code (frameMethod mem fp)).numTemps 0 slots
  evalLoop mem base slotBuf maxSlots (operandEnd fp bound - sp) sp slots

/-- `.Lgcss_frame_loop`; `fuel` bounds the number of frames. -/
def collectLoop : Nat → Nat → Nat → Slots → Option Slots
  | 0, _, _, _ => none
  | fuel + 1, sp, fp, slots =>
    if fp = 0 then some slots
    else do
      let slots ← collectFrame code mem low base slotBuf maxSlots sp fp slots
      collectLoop fuel (fp + (frameNumArgs mem fp + 2)) (frameSavedFp mem fp) slots

/-- `gc_collect_stack_slots`: `none` is a fault. -/
def collectStackSlots (sp fp : Nat) (buffer : Nat → Nat) : Option Slots :=
  collectLoop code mem low base slotBuf maxSlots (base - sp + 1) sp fp ⟨0, buffer⟩

end Walk

/-! ## §2. What is to be reported. -/

/-- The slots of the frames: operands, temporaries, receiver, context, method and
arguments, and for a call the receiver the caller has pushed. -/
def slotAddresses (p : Nat) : List Activation → List Nat
  | [] => []
  | a :: rest =>
    List.range' p (a.stack.length + a.temps.length)
      ++ [a.fpAt p - 4, a.fpAt p - 3, a.fpAt p - 1]
      ++ List.range' (a.fpAt p + 2) a.args.length
      ++ (if rest = [] then [] else [a.fpAt p + 2 + a.args.length])
      ++ slotAddresses (p + a.size) rest

/-- Those that hold a heap reference. -/
def referenceSlots (mem : Nat → Nat) (p : Nat) (acts : List Activation) : List Nat :=
  (slotAddresses p acts).filter fun a => isReference (mem a)

/-- The buffer after a report: its entries in order, as far as the capacity goes. -/
def filled (slotBuf : Bool) (maxSlots : Int) (buffer : Nat → Nat) (found : List Nat) : Nat → Nat :=
  fun i => if slotBuf ∧ (i : Int) < maxSlots then found[i]?.getD (buffer i) else buffer i

/-- Every reference slot is reported once and nothing else is, and the number returned is
that of the reference slots whatever the buffer. -/
def ReportsSlots (code : Nat → CompiledMethod) (s : Vm) (acts : List Activation) : Prop :=
  ∃ found : List Nat, found.Perm (referenceSlots s.mem s.sp acts) ∧
    ∀ slotBuf maxSlots buffer,
      collectStackSlots code s.mem s.limitLow s.base slotBuf maxSlots s.sp s.fp buffer
        = some ⟨found.length, filled slotBuf maxSlots buffer found⟩

/-! ## §3. The slots the walk visits. -/

section Visits

variable (code : Nat → CompiledMethod) (mem : Nat → Nat) (low base : Nat)

/-- How many temporaries the loop visits, and the word that ends it: none where the
method declares none, else up to the first one whose word, as a signed number, is at most
the number visited. -/
def tempsVisited (fp : Nat) : Option (Nat × Nat) :=
  let numTemps := (code (frameMethod mem fp)).numTemps
  if reaches numTemps 0 then some (0, numTemps)
  else
    ((List.range (fp - low - 4)).find? fun i => reaches (frameTemp mem fp i) (i + 1)).map
      fun i => (i + 1, frameTemp mem fp i)

/-- The slots one round visits, in order. -/
def frameVisits (sp fp : Nat) : Option (List Nat) := do
  let (visited, bound) ← tempsVisited code mem low fp
  if sp < operandEnd fp bound ∧ base < operandEnd fp bound then none
  else
    return [fp - 4, fp - 1, fp - 3] ++ (List.range visited).map (fun i => fp - (5 + i))
      ++ List.range' sp (operandEnd fp bound - sp)

/-- The slots the walk visits in a chain whose innermost frame begins at `p` and whose
walk begins at `sp`. -/
def chainVisits : Nat → Nat → List Activation → Option (List Nat)
  | _, _, [] => some []
  | sp, p, a :: rest => do
    let visits ← frameVisits code mem low base sp (a.fpAt p)
    let outer ← chainVisits (a.fpAt p + (a.args.length % 256 + 2)) (p + a.size) rest
    return visits ++ outer

variable (slotBuf : Bool) (maxSlots : Int)

/-- The slots of a list added in turn. -/
def addSlots (addresses : List Nat) (slots : Slots) : Slots :=
  addresses.foldl (fun slots a => addSlot mem slotBuf maxSlots a slots) slots

theorem addSlots_append (as bs : List Nat) (slots : Slots) :
    addSlots mem slotBuf maxSlots (as ++ bs) slots
      = addSlots mem slotBuf maxSlots bs (addSlots mem slotBuf maxSlots as slots) :=
  List.foldl_append

theorem filled_nil (buffer : Nat → Nat) : filled slotBuf maxSlots buffer [] = buffer :=
  funext fun _ => ite_self _

/-- A buffer that is large enough shows the entries. -/
theorem eq_of_filled {buffer : Nat → Nat} {found found' : List Nat}
    (hlength : found'.length = found.length)
    (h : filled true found.length buffer found' = filled true found.length buffer found) :
    found' = found := by
  refine List.ext_getElem hlength fun i hi' hi => ?_
  have hat := congrFun h i
  have hroom : (true = true) ∧ (i : Int) < found.length := ⟨rfl, Int.ofNat_lt.mpr hi⟩
  unfold filled at hat
  rw [if_pos hroom, if_pos hroom, List.getElem?_eq_getElem hi', List.getElem?_eq_getElem hi] at hat
  exact hat

/-- One more entry. -/
theorem filled_concat (buffer : Nat → Nat) (found : List Nat) (a : Nat) :
    filled slotBuf maxSlots buffer (found ++ [a])
      = if slotBuf ∧ found.length < maxSlots then
          Function.update (filled slotBuf maxSlots buffer found) found.length a
        else filled slotBuf maxSlots buffer found := by
  funext i
  by_cases hi : i = found.length
  · subst hi
    split <;> rename_i hroom <;> simp [filled, hroom]
  · have hold : (found ++ [a])[i]? = found[i]? := by
      rcases Nat.lt_or_gt_of_ne hi with hlt | hgt
      · exact List.getElem?_append_left hlt
      · rw [List.getElem?_eq_none (by rw [List.length_append]; exact hgt), List.getElem?_eq_none (by omega)]
    have hsame : filled slotBuf maxSlots buffer (found ++ [a]) i
        = filled slotBuf maxSlots buffer found i := by
      unfold filled
      rw [hold]
    rw [hsame]
    split
    · exact (Function.update_of_ne hi _ _).symm
    · rfl

/-- Slots added in turn: those with a reference are reported, in order. -/
theorem addSlots_eq (addresses : List Nat) (buffer : Nat → Nat) (found : List Nat) :
    addSlots mem slotBuf maxSlots addresses
        ⟨found.length, filled slotBuf maxSlots buffer found⟩
      = ⟨(found ++ addresses.filter fun a => isReference (mem a)).length,
          filled slotBuf maxSlots buffer
            (found ++ addresses.filter fun a => isReference (mem a))⟩ := by
  induction addresses generalizing found with
  | nil => rw [List.filter_nil, List.append_nil]; rfl
  | cons a as ih =>
    show addSlots mem slotBuf maxSlots as (addSlot mem slotBuf maxSlots a _) = _
    unfold addSlot
    by_cases href : isReference (mem a)
    · rw [if_pos href, ← filled_concat,
        List.filter_cons_of_pos (p := fun a => isReference (mem a)) href,
        List.append_cons found a (as.filter fun a => isReference (mem a)), ← ih (found ++ [a]),
        List.length_append]
      rfl
    · rw [if_neg href, List.filter_cons_of_neg (p := fun a => isReference (mem a)) href]
      exact ih found

theorem evalLoop_eq (n sp : Nat) (slots : Slots) (hsp : sp ≤ base) :
    evalLoop mem base slotBuf maxSlots n sp slots
      = if base < sp + n then none
        else some (addSlots mem slotBuf maxSlots (List.range' sp n) slots) := by
  induction n generalizing sp slots with
  | zero => rw [if_neg (by omega)]; rfl
  | succ n ih =>
    rw [evalLoop]
    by_cases hbase : base ≤ sp
    · rw [if_pos hbase, if_pos (by omega)]
    · rw [if_neg hbase, ih (sp + 1) _ (by omega), List.range'_succ]
      exact if_congr (by omega) rfl rfl

/-- The loop over the temporaries from an index on: the induction is on the number of
words between that temporary and the end of the stack. -/
theorem tempsLoop_eq (fp m index fuel bound : Nat) (slots : Slots)
    (hm : index + m = fp - low - 4) (hfuel : m + 2 ≤ fuel)
    (hgo : reaches bound index = false) :
    tempsLoop mem low slotBuf maxSlots fp fuel bound index slots
      = ((List.range' index m).find? fun i => reaches (frameTemp mem fp i) (i + 1)).map fun i =>
          (frameTemp mem fp i, addSlots mem slotBuf maxSlots
            ((List.range' index (i + 1 - index)).map fun i => fp - (5 + i)) slots) := by
  induction m generalizing index fuel bound slots with
  | zero =>
    obtain ⟨fuel, rfl⟩ : ∃ f, fuel = f + 1 := ⟨fuel - 1, by omega⟩
    rw [tempsLoop, if_neg (by rw [hgo]; exact Bool.false_ne_true), if_pos (by omega)]
    rfl
  | succ m ih =>
    obtain ⟨fuel, rfl⟩ : ∃ f, fuel = f + 2 := ⟨fuel - 2, by omega⟩
    rw [tempsLoop, if_neg (by rw [hgo]; exact Bool.false_ne_true), if_neg (by omega),
      List.range'_succ, List.find?_cons]
    show tempsLoop mem low slotBuf maxSlots fp (fuel + 1) (frameTemp mem fp index) (index + 1) _ = _
    cases hword : reaches (frameTemp mem fp index) (index + 1) with
    | true =>
      rw [tempsLoop, if_pos hword]
      simp only [Option.map_some, Nat.add_sub_cancel_left]
      rfl
    | false =>
      rw [ih (index + 1) (fuel + 1) _ _ (by omega) (by omega) hword]
      refine Option.map_congr fun i hi => ?_
      have hle : index + 1 ≤ i := (List.mem_range'_1.mp (List.mem_of_find?_eq_some hi)).1
      rw [show i + 1 - index = i + 1 - (index + 1) + 1 by omega, List.range'_succ]
      rfl

theorem evalLoop_visited (sp e : Nat) (visited : List Nat) (slots : Slots) (hsp : sp ≤ base) :
    evalLoop mem base slotBuf maxSlots (e - sp) sp (addSlots mem slotBuf maxSlots visited slots)
      = (if sp < e ∧ base < e then none else some (visited ++ List.range' sp (e - sp))).map
          fun visits => addSlots mem slotBuf maxSlots visits slots := by
  rw [evalLoop_eq mem base slotBuf maxSlots _ sp _ hsp]
  by_cases hfault : sp < e ∧ base < e
  · rw [if_pos hfault, if_pos (by omega)]
    rfl
  · rw [if_neg hfault, if_neg (by omega), Option.map_some, addSlots_append]

theorem collectFrame_eq (sp fp : Nat) (slots : Slots) (hsp : sp ≤ base) (hfp : 0 < fp) :
    collectFrame code mem low base slotBuf maxSlots sp fp slots
      = (frameVisits code mem low base sp fp).map fun visits =>
          addSlots mem slotBuf maxSlots visits slots := by
  have hheader : ∀ slots, addSlot mem slotBuf maxSlots (fp - 3) (addSlot mem slotBuf maxSlots (fp - 1)
      (addSlot mem slotBuf maxSlots (fp - 4) slots))
      = addSlots mem slotBuf maxSlots [fp - 4, fp - 1, fp - 3] slots := fun _ => rfl
  unfold collectFrame frameVisits tempsVisited
  simp only [hheader, Option.bind_eq_bind]
  cases hnone : reaches (code (frameMethod mem fp)).numTemps 0 with
  | true =>
    rw [tempsLoop, if_pos hnone, if_pos rfl, Option.bind_some, Option.bind_some,
      evalLoop_visited mem base slotBuf maxSlots sp _ _ slots hsp]
    rfl
  | false =>
    have hfuel : fp - low - 4 + 2 ≤ fp + 1 := by omega
    rw [tempsLoop_eq mem low slotBuf maxSlots fp (fp - low - 4) 0 _ _ _ (Nat.zero_add _) hfuel
      hnone, List.range_eq_range', if_neg Bool.false_ne_true]
    cases hfind : (List.range' 0 (fp - low - 4)).find?
        fun i => reaches (frameTemp mem fp i) (i + 1) with
    | none => rfl
    | some i =>
      rw [Option.map_some, Option.map_some, Option.bind_some, Option.bind_some, ← addSlots_append,
        evalLoop_visited mem base slotBuf maxSlots sp _ _ slots hsp, List.range_eq_range']
      rfl

/-- **The walk visits the frames of the chain.** -/
theorem collectLoop_eq {acts : List Activation} {p sp fuel : Nat} {slots : Slots}
    (hheld : ChainAt mem p acts) (hsp : sp ≤ p) (hbase : p + chainSize acts ≤ base)
    (hfuel : acts.length < fuel) :
    collectLoop code mem low base slotBuf maxSlots fuel sp (fpOf p acts) slots
      = (chainVisits code mem low base sp p acts).map fun visits =>
          addSlots mem slotBuf maxSlots visits slots := by
  induction acts generalizing p sp fuel slots with
  | nil =>
    obtain ⟨fuel, rfl⟩ : ∃ f, fuel = f + 1 := ⟨fuel - 1, by omega⟩
    rfl
  | cons a rest ih =>
    obtain ⟨fuel, rfl⟩ : ∃ f, fuel = f + 1 := ⟨fuel - 1, by omega⟩
    have hfp := four_le_fpAt p a
    have hlt := fpAt_lt p a
    have hmod := Nat.mod_le a.args.length 256
    rw [chainSize_cons] at hbase
    rw [List.length_cons] at hfuel
    have hargs : frameNumArgs mem (a.fpAt p) = a.args.length % 256 := by
      unfold frameNumArgs frameFlags
      rw [hheld.1.flags, flags_numArgs]
    have hcaller : frameSavedFp mem (a.fpAt p) = fpOf (p + a.size) rest := by
      unfold frameSavedFp
      rw [hheld.1.callerFp, Nat.mul_div_cancel_left _ (by omega)]
    rw [collectLoop, fpOf_cons, if_neg (by omega), hargs, hcaller,
      collectFrame_eq code mem low base slotBuf maxSlots sp _ slots (by omega) (by omega),
      chainVisits]
    simp only [Option.bind_eq_bind]
    cases frameVisits code mem low base sp (a.fpAt p) with
    | none => rfl
    | some visits =>
      rw [Option.map_some, Option.bind_some, Option.bind_some,
        ih hheld.2 (by omega) (by omega) (by omega)]
      cases chainVisits code mem low base (a.fpAt p + (a.args.length % 256 + 2)) (p + a.size)
          rest with
      | none => rfl
      | some outer => exact congrArg some (addSlots_append mem slotBuf maxSlots _ _ slots).symm

end Visits

theorem length_le_chainSize (acts : List Activation) : acts.length ≤ chainSize acts := by
  induction acts with
  | nil => exact Nat.le_refl 0
  | cons a rest ih =>
    rw [List.length_cons, chainSize_cons]
    have hsize : 7 ≤ a.size := Nat.le_add_left 7 _
    omega

/-- What the routine returns for a chain. -/
theorem collectStackSlots_eq {code : Nat → CompiledMethod} {s : Vm} {acts : List Activation}
    (h : Chain s acts) (slotBuf : Bool) (maxSlots : Int) (buffer : Nat → Nat) :
    collectStackSlots code s.mem s.limitLow s.base slotBuf maxSlots s.sp s.fp buffer
      = (chainVisits code s.mem s.limitLow s.base s.sp s.sp acts).map fun visits =>
          ⟨(visits.filter fun a => isReference (s.mem a)).length,
            filled slotBuf maxSlots buffer (visits.filter fun a => isReference (s.mem a))⟩ := by
  have hlength := length_le_chainSize acts
  have hbase := h.base
  unfold collectStackSlots
  rw [h.fp, collectLoop_eq code s.mem s.limitLow s.base slotBuf maxSlots h.held (Nat.le_refl _)
    (by omega) (by omega)]
  refine Option.map_congr fun visits _ => ?_
  have hslots := addSlots_eq s.mem slotBuf maxSlots visits buffer []
  rw [List.nil_append, filled_nil] at hslots
  exact hslots

/-- The report is right exactly when the references visited are the reference slots. -/
theorem reportsSlots_iff_perm {code : Nat → CompiledMethod} {s : Vm} {acts : List Activation}
    (h : Chain s acts) :
    ReportsSlots code s acts ↔
      ∃ visits, chainVisits code s.mem s.limitLow s.base s.sp s.sp acts = some visits ∧
        (visits.filter fun a => isReference (s.mem a)).Perm (referenceSlots s.mem s.sp acts) := by
  constructor
  · rintro ⟨found, hperm, hreport⟩
    have hat := hreport true found.length (fun _ => 0)
    rw [collectStackSlots_eq h] at hat
    obtain ⟨visits, hvisits, heq⟩ := Option.map_eq_some_iff.mp hat
    injection heq with hlength hbuffer
    exact ⟨visits, hvisits, eq_of_filled hlength hbuffer ▸ hperm⟩
  · rintro ⟨visits, hvisits, hperm⟩
    refine ⟨_, hperm, fun slotBuf maxSlots buffer => ?_⟩
    rw [collectStackSlots_eq h, hvisits]
    rfl

/-! ## §4. The stacks on which the report is right. -/

/-- How often an address counts in a range of slots: once or not at all. -/
def within (lo hi a : Nat) : Nat := if lo ≤ a ∧ a < hi then 1 else 0

section Covered

variable (code : Nat → CompiledMethod) (mem : Nat → Nat) (low base : Nat)

/-- `first` is the lowest of the operands of the frame, the arguments of the call it waits
for among them, and `sp` is where the routine begins.  Every reference from there to the
temporaries lies once in the temporaries the loop visits and the operands after them,
and no other does. -/
def FrameCovered (first sp fp : Nat) : Prop :=
  ∃ visited bound, tempsVisited code mem low fp = some (visited, bound) ∧
    (sp < operandEnd fp bound → operandEnd fp bound ≤ base) ∧
    ∀ a, isReference (mem a) = true →
      within (fp - 4 - visited) (fp - 4) a + within sp (operandEnd fp bound) a
        = within first (fp - 4) a

/-- Every frame is covered, and no argument of the outermost one is a reference. -/
def Covered : Nat → Nat → Nat → List Activation → Prop
  | first, _, p, [] => ∀ a, isReference (mem a) = true → within first (p - 1) a = 0
  | first, sp, p, a :: rest =>
    FrameCovered code mem low base first sp (a.fpAt p) ∧
      Covered (a.fpAt p + 2) (a.fpAt p + (a.args.length % 256 + 2)) (p + a.size) rest

end Covered

theorem within_eq_zero (lo : Nat) {hi a : Nat} (h : a < lo ∨ hi ≤ a) : within lo hi a = 0 :=
  if_neg (by omega)

theorem within_append {lo mid hi : Nat} (hlo : lo ≤ mid) (hhi : mid ≤ hi) (a : Nat) :
    within lo mid a + within mid hi a = within lo hi a := by
  unfold within
  split <;> split <;> split <;> omega

theorem count_range'_eq (lo n a : Nat) : (List.range' lo n).count a = within lo (lo + n) a :=
  List.count_range_1'

/-- The temporaries lie one below the other. -/
theorem count_temps {m k : Nat} (hk : k ≤ m) (a : Nat) :
    ((List.range k).map fun i => m + 4 - (5 + i)).count a = within (m - k) m a := by
  have hreverse : (List.range k).map (fun i => m + 4 - (5 + i)) = (List.range' (m - k) k).reverse := by
    refine List.ext_getElem (by simp) fun i hi _ => ?_
    rw [List.length_map, List.length_range] at hi
    simp only [List.getElem_map, List.getElem_range, List.getElem_reverse, List.length_range',
      List.getElem_range']
    omega
  rw [hreverse, List.count_reverse, count_range'_eq, Nat.sub_add_cancel hk]

theorem tempsVisited_le {code : Nat → CompiledMethod} {mem : Nat → Nat} {low fp k bound : Nat}
    (h : tempsVisited code mem low fp = some (k, bound)) : k ≤ fp - 4 := by
  unfold tempsVisited at h
  dsimp only at h
  split at h
  · obtain rfl := (Prod.mk.inj (Option.some.inj h)).1
    exact Nat.zero_le _
  · obtain ⟨i, hi, hpair⟩ := Option.map_eq_some_iff.mp h
    obtain rfl := (Prod.mk.inj hpair).1
    have hlt := List.mem_range.mp (List.mem_of_find?_eq_some hi)
    omega

/-- What one round visits, when it does not run off the stack. -/
theorem frameVisits_some {code : Nat → CompiledMethod} {mem : Nat → Nat}
    {low base sp fp : Nat} {visits : List Nat} :
    frameVisits code mem low base sp fp = some visits ↔
      ∃ k bound, tempsVisited code mem low fp = some (k, bound) ∧
        (sp < operandEnd fp bound → operandEnd fp bound ≤ base) ∧
        visits = [fp - 4, fp - 1, fp - 3] ++ (List.range k).map (fun i => fp - (5 + i))
          ++ List.range' sp (operandEnd fp bound - sp) := by
  unfold frameVisits
  cases tempsVisited code mem low fp with
  | none => simp
  | some pair =>
    obtain ⟨k, bound⟩ := pair
    simp only [Option.bind_eq_bind, Option.bind_some, Option.some.injEq, Prod.mk.injEq]
    constructor
    · intro h
      split at h
      · cases h
      · exact ⟨k, bound, ⟨rfl, rfl⟩, by omega, (Option.some.inj h).symm⟩
    · rintro ⟨k', bound', ⟨rfl, rfl⟩, hends, rfl⟩
      rw [if_neg (by omega)]
      rfl

/-- How often one round and those after it visit a slot. -/
theorem count_frame {sp fp k e : Nat} (hk : k ≤ fp - 4) (hfp : 4 ≤ fp) (outer : List Nat)
    (a : Nat) :
    ([fp - 4, fp - 1, fp - 3] ++ (List.range k).map (fun i => fp - (5 + i))
        ++ List.range' sp (e - sp) ++ outer).count a
      = [fp - 4, fp - 1, fp - 3].count a + (within (fp - 4 - k) (fp - 4) a + within sp e a)
        + outer.count a := by
  obtain ⟨m, rfl⟩ : ∃ m, fp = m + 4 := ⟨fp - 4, by omega⟩
  have hoperands : within sp (sp + (e - sp)) a = within sp e a := by
    unfold within
    exact if_congr (by omega) rfl rfl
  rw [Nat.add_sub_cancel] at hk ⊢
  rw [List.count_append, List.count_append, List.count_append, count_temps hk, count_range'_eq,
    hoperands, ← Nat.add_assoc (List.count a _)]

/-- Below the place where the walk of the outer frames begins, a slot nearer to it is
visited at least as often. -/
theorem chainVisits_below {code : Nat → CompiledMethod} {mem : Nat → Nat} {low base sp p : Nat}
    {acts : List Activation} {visits : List Nat}
    (h : chainVisits code mem low base sp p acts = some visits) (hsp : sp ≤ p) {a b : Nat}
    (hab : a ≤ b) (hb : b < sp) : visits.count a ≤ visits.count b := by
  induction acts generalizing sp p visits with
  | nil =>
    obtain rfl := Option.some.inj h
    exact Nat.le_refl _
  | cons act rest ih =>
    have hfp := le_fpAt p act
    have hlt := fpAt_lt p act
    have hmod := Nat.mod_le act.args.length 256
    simp only [chainVisits, Option.bind_eq_bind, Option.bind_eq_some_iff] at h
    obtain ⟨inner, hinner, outer, houter, heq⟩ := h
    obtain rfl := Option.some.inj heq
    obtain ⟨k, bound, hvisited, -, rfl⟩ := frameVisits_some.mp hinner
    have hrest := ih houter (by omega) (by omega)
    have hheader : ∀ c ≤ b, [act.fpAt p - 4, act.fpAt p - 1, act.fpAt p - 3].count c = 0 := by
      intro c hc
      refine List.count_eq_zero_of_not_mem fun hmem => ?_
      simp only [List.mem_cons, List.not_mem_nil, or_false] at hmem
      omega
    have htemps : within (act.fpAt p - 4 - k) (act.fpAt p - 4) a
        ≤ within (act.fpAt p - 4 - k) (act.fpAt p - 4) b := by
      unfold within
      split <;> split <;> omega
    have hk := tempsVisited_le hvisited
    rw [count_frame hk (by omega) outer a, count_frame hk (by omega) outer b, hheader a hab, hheader b (Nat.le_refl b),
      @within_eq_zero sp _ a (by omega), @within_eq_zero sp _ b (by omega)]
    omega

/-- The slots of a chain lie above its start. -/
theorem le_of_mem_slotAddresses {p a : Nat} {acts : List Activation}
    (h : a ∈ slotAddresses p acts) : p ≤ a := by
  induction acts generalizing p with
  | nil => cases h
  | cons act rest ih =>
    have hfp := le_fpAt p act
    have hlt := fpAt_lt p act
    simp only [slotAddresses, List.mem_append, List.mem_range'_1, List.mem_cons,
      List.not_mem_nil, or_false] at h
    rcases h with (((h | h) | h) | h) | h
    · exact h.1
    · omega
    · omega
    · split at h
      · cases h
      · rw [List.mem_singleton] at h
        omega
    · have hrest := ih h
      omega

theorem count_slotAddresses_below {p a : Nat} {acts : List Activation} (ha : a < p) :
    (slotAddresses p acts).count a = 0 :=
  List.count_eq_zero_of_not_mem fun h => absurd (le_of_mem_slotAddresses h) (by omega)

/-- The slots from `first` on, when the frames begin at `p`: between the two lie what was
pushed for a call, the last word the receiver, which is a slot of the caller. -/
def owed (first p : Nat) (acts : List Activation) (a : Nat) : Nat :=
  within first (if acts = [] then p - 1 else p) a + (slotAddresses p acts).count a

theorem owed_cons {first p : Nat} (act : Activation) (rest : List Activation) (hfirst : first ≤ p)
    (a : Nat) :
    owed first p (act :: rest) a
      = [act.fpAt p - 4, act.fpAt p - 1, act.fpAt p - 3].count a
        + within first (act.fpAt p - 4) a + owed (act.fpAt p + 2) (p + act.size) rest a := by
  have hlt := fpAt_lt p act
  have hown : p + (act.stack.length + act.temps.length) = act.fpAt p - 4 := by
    unfold Activation.fpAt
    omega
  have hheader : [act.fpAt p - 4, act.fpAt p - 3, act.fpAt p - 1].count a
      = [act.fpAt p - 4, act.fpAt p - 1, act.fpAt p - 3].count a :=
    ((List.Perm.swap _ _ _).cons _).count_eq a
  have hfront := within_append hfirst (by omega : p ≤ act.fpAt p - 4) a
  unfold owed
  rw [if_neg (List.cons_ne_nil act rest)]
  simp only [slotAddresses, List.count_append, count_range'_eq, hown, hheader]
  by_cases hrest : rest = []
  · rw [if_pos hrest, if_pos hrest, show p + act.size - 1 = act.fpAt p + 2 + act.args.length by omega,
      List.count_nil]
    omega
  · rw [if_neg hrest, if_neg hrest, show [act.fpAt p + 2 + act.args.length]
      = List.range' (act.fpAt p + 2 + act.args.length) 1 from rfl, count_range'_eq]
    have hargs := within_append (by omega : act.fpAt p + 2 ≤ act.fpAt p + 2 + act.args.length)
      (by omega : act.fpAt p + 2 + act.args.length ≤ p + act.size) a
    rw [show act.fpAt p + 2 + act.args.length + 1 = p + act.size by omega]
    omega

/-- When the outer frames and this one together visit each reference as often as it is a
slot, this frame does by itself: its method is a reference that is no operand, so
that neither the walk of an outer frame gets below it nor this one's above. -/
theorem frame_once {code : Nat → CompiledMethod} {mem : Nat → Nat} {low base first sp p k e : Nat}
    {act : Activation} {rest : List Activation} {outer : List Nat}
    (hsp : sp ≤ p) (hmethod : isReference (mem (act.fpAt p - 1)) = true)
    (houter : chainVisits code mem low base (act.fpAt p + (act.args.length % 256 + 2))
      (p + act.size) rest = some outer)
    (hcount : ∀ a, isReference (mem a) = true →
      within (act.fpAt p - 4 - k) (act.fpAt p - 4) a + within sp e a + outer.count a
        = within first (act.fpAt p - 4) a + owed (act.fpAt p + 2) (p + act.size) rest a) :
    ∀ a, isReference (mem a) = true →
      within (act.fpAt p - 4 - k) (act.fpAt p - 4) a + within sp e a
        = within first (act.fpAt p - 4) a := by
  have hfp := le_fpAt p act
  have hlt := fpAt_lt p act
  have hmod := Nat.mod_le act.args.length 256
  have howed : ∀ a ≤ act.fpAt p - 1, owed (act.fpAt p + 2) (p + act.size) rest a = 0 := by
    intro a ha
    unfold owed
    rw [within_eq_zero _ (Or.inl (by omega)), count_slotAddresses_below (by omega)]
  have hat := hcount _ hmethod
  rw [howed _ (Nat.le_refl _), within_eq_zero first (Or.inr (by omega))] at hat
  have hends : ¬(sp ≤ act.fpAt p - 1 ∧ act.fpAt p - 1 < e) := by
    intro hin
    have hone : within sp e (act.fpAt p - 1) = 1 := if_pos hin
    omega
  intro a href
  rcases Nat.lt_or_ge a (act.fpAt p) with ha | ha
  · have hle : a ≤ act.fpAt p - 1 := by omega
    have hbelow := chainVisits_below houter (by omega) hle (by omega)
    have hsum := hcount a href
    rw [howed a hle] at hsum
    omega
  · rw [within_eq_zero (act.fpAt p - 4 - k) (Or.inr (by omega)),
      within_eq_zero sp (Or.inr (by omega)), within_eq_zero first (Or.inr (by omega))]

/-- **Which stacks are walked rightly**, a frame at a time. -/
theorem chainVisits_iff {code : Nat → CompiledMethod} {mem : Nat → Nat} {low base : Nat}
    {acts : List Activation} {first sp p : Nat} (hheld : ChainAt mem p acts) (hfirst : first ≤ sp)
    (hsp : sp ≤ p) (hmethods : ∀ a ∈ acts, isReference a.method = true) :
    (∃ visits, chainVisits code mem low base sp p acts = some visits ∧
        ∀ a, isReference (mem a) = true → visits.count a = owed first p acts a)
      ↔ Covered code mem low base first sp p acts := by
  induction acts generalizing first sp p with
  | nil =>
    constructor
    · rintro ⟨visits, hvisits, hcount⟩ a href
      obtain rfl := Option.some.inj hvisits
      exact (hcount a href).symm
    · intro hcovered
      exact ⟨[], rfl, fun a href => (hcovered a href).symm⟩
  | cons act rest ih =>
    have hfp := le_fpAt p act
    have hlt := fpAt_lt p act
    have hmod := Nat.mod_le act.args.length 256
    have hmethod : isReference (mem (act.fpAt p - 1)) = true := by
      rw [hheld.1.method]
      exact hmethods act List.mem_cons_self
    have hstart : act.fpAt p + 2 ≤ act.fpAt p + (act.args.length % 256 + 2) := by omega
    have hnext := ih hheld.2 hstart (by omega) fun a ha => hmethods a (List.mem_cons_of_mem act ha)
    constructor
    · rintro ⟨visits, hvisits, hcount⟩
      simp only [chainVisits, Option.bind_eq_bind, Option.bind_eq_some_iff] at hvisits
      obtain ⟨inner, hinner, outer, houter, heq⟩ := hvisits
      obtain rfl := Option.some.inj heq
      obtain ⟨k, bound, hvisited, hends, rfl⟩ := frameVisits_some.mp hinner
      have hsum : ∀ a, isReference (mem a) = true →
          within (act.fpAt p - 4 - k) (act.fpAt p - 4) a
            + within sp (operandEnd (act.fpAt p) bound) a + outer.count a
          = within first (act.fpAt p - 4) a + owed (act.fpAt p + 2) (p + act.size) rest a := by
        intro a href
        have hat := hcount a href
        rw [owed_cons act rest (by omega), count_frame (tempsVisited_le hvisited) (by omega)] at hat
        omega
      have honce := frame_once hsp hmethod houter hsum
      refine ⟨⟨k, bound, hvisited, hends, honce⟩, hnext.mp ⟨outer, houter, fun a href => ?_⟩⟩
      have hat := hsum a href
      have hthis := honce a href
      omega
    · rintro ⟨⟨k, bound, hvisited, hends, honce⟩, hrest⟩
      obtain ⟨outer, houter, hcount⟩ := hnext.mpr hrest
      have hframe := frameVisits_some.mpr ⟨k, bound, hvisited, hends, rfl⟩
      refine ⟨_, by rw [chainVisits, hframe, Option.bind_eq_bind, Option.bind_some, houter]; rfl,
        fun a href => ?_⟩
      rw [owed_cons act rest (by omega), count_frame (tempsVisited_le hvisited) (by omega), hcount a href, honce a href]

/-- **The stack slots are reported rightly exactly on covered stacks.** -/
theorem reportsSlots_iff {code : Nat → CompiledMethod} {s : Vm} {acts : List Activation}
    (h : Chain s acts) (hmethods : ∀ a ∈ acts, isReference a.method = true) :
    ReportsSlots code s acts ↔
      Covered code s.mem s.limitLow s.base s.sp s.sp s.sp acts := by
  rw [reportsSlots_iff_perm h,
    ← chainVisits_iff h.held (Nat.le_refl _) (Nat.le_refl _) hmethods]
  refine exists_congr fun visits => and_congr_right fun _ => ?_
  have howed : ∀ a, owed s.sp s.sp acts a = (slotAddresses s.sp acts).count a := by
    intro a
    unfold owed
    rw [within_eq_zero _ (by split <;> omega), Nat.zero_add]
  rw [List.perm_iff_count]
  refine forall_congr' fun a => ?_
  unfold referenceSlots
  by_cases href : isReference (s.mem a) = true
  · rw [List.count_filter (p := fun a => isReference (s.mem a)) href,
      List.count_filter (p := fun a => isReference (s.mem a)) href, howed]
    exact ⟨fun h _ => h, fun h => h href⟩
  · have hnone : ∀ L : List Nat, (L.filter fun a => isReference (s.mem a)).count a = 0 := fun L =>
      List.count_eq_zero_of_not_mem fun hmem => href (List.mem_filter.mp hmem).2
    rw [hnone, hnone]
    exact ⟨fun _ h => absurd h href, fun _ => rfl⟩

/-- A stack of 100 words with a receiver and arguments on it. -/
def pushed (words : List Nat) : Vm :=
  pushAll words { mem := fun _ => 0, sp := 100, fp := 0, ip := 0,
                  heap := ⟨0, fun _ => none, fun _ => none⟩, entryFp := 0, limitLow := 0, base := 100 }

/-- A method sent with a reference as its argument. -/
def withArgument : Vm := (activateMethod 0 4096 1 0 (pushed [64, 128])).getD (pushed [])

/-- A method that has stored a reference into its only temporary. -/
def withTemp : Vm :=
  let s := (activateMethod 0 4096 0 1 (pushed [64])).getD (pushed [])
  { s with mem := frameStoreTemp s.fp 0 128 s.mem }

/-- The argument of `withArgument` is not reported, and the temporary of `withTemp` twice. -/
theorem argument_missed_temp_twice :
    (∃ acts, Chain withArgument acts ∧
        ¬ReportsSlots (fun _ => ⟨0, 0, 0⟩) withArgument acts) ∧
      ∃ acts, Chain withTemp acts ∧ ¬ReportsSlots (fun _ => ⟨1, 0, 0⟩) withTemp acts := by
  have hwrong : ∀ {code : Nat → CompiledMethod} {s : Vm} {acts : List Activation} {n : Nat},
      (collectStackSlots code s.mem s.limitLow s.base false 0 s.sp s.fp (fun _ => 0)).map
        Slots.count = some n →
      (referenceSlots s.mem s.sp acts).length ≠ n → ¬ReportsSlots code s acts := by
    rintro code s acts n hcount hlength ⟨found, hperm, hreport⟩
    rw [hreport] at hcount
    exact hlength (hperm.length_eq.symm.trans (Option.some.inj hcount))
  have hargument : Pending (pushed [64, 128]) [128] 64 [] :=
    ⟨⟨rfl, rfl, trivial⟩, rfl, trivial, rfl⟩
  have htemp : Pending (pushed [64]) [] 64 [] := ⟨⟨rfl, trivial⟩, rfl, trivial, rfl⟩
  have hsent : activateMethod 0 4096 1 0 (pushed [64, 128]) = some withArgument := rfl
  have hsent' : activateMethod 0 4096 0 1 (pushed [64])
      = some ((activateMethod 0 4096 0 1 (pushed [64])).getD (pushed [])) := rfl
  refine ⟨⟨_, (hargument.activateMethod hsent).1, ?_⟩,
    ⟨_, (htemp.activateMethod hsent').1.storeTemp 128 Nat.one_pos, ?_⟩⟩
  · exact hwrong (n := 2) (by decide +kernel) (by decide +kernel)
  · exact hwrong (n := 4) (by decide +kernel) (by decide +kernel)

/-! ## §5. Stacks that are covered. -/

/-- No argument is a reference, and the loop over the temporaries ends where it should: the
method has none, or the first is 0 or the tagged 0. -/
structure Plain (code : Nat → CompiledMethod) (a : Activation) : Prop where
  args : ∀ v ∈ a.args, isReference v = false
  temps : (code a.method).numTemps = 0 ∨
    0 < (code a.method).numTemps ∧ (code a.method).numTemps < 2 ^ 63 ∧
      ∃ v rest, a.temps = v :: rest ∧ v ≤ 1

theorem operandEnd_of_le (fp bound : Nat) (hbound : bound + 4 ≤ fp) (hfp : fp ≤ 2 ^ 61) :
    operandEnd fp bound = fp - 4 - bound := by
  unfold operandEnd
  rw [Int.emod_eq_of_lt (by omega) (by omega)]
  omega

theorem isReference_zero : isReference 0 = false := rfl

/-- A frame whose loop over the temporaries ends where it should. -/
theorem Plain.frameCovered {code : Nat → CompiledMethod} {mem : Nat → Nat}
    {low base first sp p callerFp : Nat} {a : Activation} (h : Plain code a)
    (hheld : Held mem p callerFp a) (hlow : low ≤ p) (hfirst : first ≤ sp) (hsp : sp ≤ p)
    (hfp : a.fpAt p ≤ base) (hbase : base ≤ 2 ^ 61)
    (hargs : ∀ b, first ≤ b → b < sp → isReference (mem b) = false) :
    FrameCovered code mem low base first sp (a.fpAt p) := by
  have hle := le_fpAt p a
  have hmethod : frameMethod mem (a.fpAt p) = a.method := hheld.method
  have hfront : ∀ b, isReference (mem b) = true →
      within sp (a.fpAt p - 4) b = within first (a.fpAt p - 4) b := by
    intro b href
    have hzero : within first sp b = 0 := by
      refine if_neg fun hin => ?_
      rw [hargs b hin.1 hin.2] at href
      exact Bool.false_ne_true href
    rw [← within_append hfirst (by omega : sp ≤ a.fpAt p - 4), hzero, Nat.zero_add]
  rcases h.temps with hnone | ⟨hsome, hsmall, v, rest, htemps, hv⟩
  · have hend := operandEnd_of_le (a.fpAt p) 0 (by omega) (by omega)
    refine ⟨0, 0, by simp [tempsVisited, hmethod, hnone, reaches], by omega, fun b href => ?_⟩
    rw [hend, within_eq_zero _ (by omega), Nat.zero_add]
    exact hfront b href
  · have hroom : p + 5 ≤ a.fpAt p := by
      simp only [Activation.fpAt, htemps, List.length_cons]
      omega
    have hend := operandEnd_of_le (a.fpAt p) v (by omega) (by omega)
    have htemp : frameTemp mem (a.fpAt p) 0 = v := by
      rw [hheld.temp (by rw [htemps]; exact Nat.succ_pos _)]
      simp only [htemps, List.getElem_cons_zero]
    refine ⟨1, v, ?_, by omega, fun b href => ?_⟩
    · have hgo : reaches (code a.method).numTemps 0 = false := decide_eq_false (by omega)
      have hstop : reaches v 1 = true := decide_eq_true (Or.inr hv)
      obtain ⟨n, hn⟩ : ∃ n, a.fpAt p - low - 4 = n + 1 := ⟨a.fpAt p - low - 5, by omega⟩
      unfold tempsVisited
      dsimp only
      rw [hmethod, hgo, if_neg Bool.false_ne_true, hn, List.range_succ_eq_map, List.find?_cons,
        htemp, hstop, Option.map_some, htemp]
    · rw [← hfront b href, hend]
      -- the first temporary is visited a second time when it is 0, and 0 is no reference
      have hfirstTemp : b = a.fpAt p - 5 → v = 1 := by
        rintro rfl
        have hword : mem (a.fpAt p - 5) = v := htemp
        rw [hword] at href
        rcases Nat.le_one_iff_eq_zero_or_eq_one.mp hv with rfl | rfl
        · cases href
        · rfl
      unfold within
      split <;> split <;> split <;> omega

/-- **A stack without references among the arguments, whose methods have no temporaries or
begin with a 0, is reported rightly.** -/
theorem covered_of_plain {code : Nat → CompiledMethod} {mem : Nat → Nat} {low base : Nat}
    {acts : List Activation} {first sp p : Nat} (hheld : ChainAt mem p acts) (hlow : low ≤ p)
    (hfirst : first ≤ sp) (hsp : sp ≤ p) (hbase : p + chainSize acts ≤ base)
    (hsmall : base ≤ 2 ^ 61) (hplain : ∀ a ∈ acts, Plain code a) (hedge : sp = first ∨ sp < p)
    (hargs : ∀ b, first ≤ b → b + 1 < p → isReference (mem b) = false) :
    Covered code mem low base first sp p acts := by
  induction acts generalizing first sp p with
  | nil =>
    intro b href
    refine if_neg fun hin => ?_
    rw [hargs b hin.1 (by omega)] at href
    exact Bool.false_ne_true href
  | cons a rest ih =>
    have hle := le_fpAt p a
    have hlt := fpAt_lt p a
    have hmod := Nat.mod_le a.args.length 256
    rw [chainSize_cons] at hbase
    have hthis := hplain a List.mem_cons_self
    refine ⟨hthis.frameCovered hheld.1 hlow hfirst hsp (by omega) hsmall
      fun b hlo hhi => hargs b hlo (by omega), ?_⟩
    refine ih hheld.2 (by omega) (by omega) (by omega) (by omega)
      (fun b hb => hplain b (List.mem_cons_of_mem a hb)) (Or.inr (by omega)) fun b hlo hhi => ?_
    obtain ⟨i, rfl⟩ : ∃ i, b = a.fpAt p + 2 + i := ⟨b - (a.fpAt p + 2), by omega⟩
    have hi : i < a.args.length := by omega
    rw [hheld.1.args.get hi]
    exact hthis.args _ (List.getElem_mem hi)

/-- A method with one temporary, an operand below a send, and the method it has called. -/
def nestedSend : Vm :=
  let outer := (activateMethod 0 4096 0 1 (pushed [64])).getD (pushed [])
  (activateMethod 9 4096 0 1 ((outer.push 256).push 512)).getD (pushed [])

theorem nestedSend_reportsSlots :
    ReportsSlots (fun _ => ⟨1, 0, 0⟩) nestedSend
      [.fresh 9 4096 512 [] 1, { Activation.fresh 0 4096 64 [] 1 with stack := [256] }] := by
  have hbase : Pending (pushed [64]) [] 64 [] := ⟨⟨rfl, trivial⟩, rfl, trivial, rfl⟩
  have houter : activateMethod 0 4096 0 1 (pushed [64])
      = some ((activateMethod 0 4096 0 1 (pushed [64])).getD (pushed [])) := rfl
  have hpushed := ((hbase.activateMethod houter).1.push (by decide) 256).push (by decide) 512
  have hinner : activateMethod 9 4096 0 1
      ((((activateMethod 0 4096 0 1 (pushed [64])).getD (pushed [])).push 256).push 512)
      = some nestedSend := rfl
  have hpending : Pending _ [] 512 _ := hpushed.pending rfl
  have hchain := (hpending.activateMethod hinner).1
  have hplain : ∀ savedIp receiver stack, Plain (fun _ => ⟨1, 0, 0⟩)
      { Activation.fresh savedIp 4096 receiver [] 1 with stack := stack } := by
    intro savedIp receiver stack
    refine ⟨fun v hv => absurd hv (List.not_mem_nil), Or.inr ⟨Nat.one_pos, ?_, 0, [], rfl, ?_⟩⟩
    · decide
    · decide
  refine (reportsSlots_iff hchain ?_).mpr ?_
  · intro a ha
    simp only [List.mem_cons, List.not_mem_nil, or_false] at ha
    rcases ha with rfl | rfl <;> rfl
  · refine covered_of_plain hchain.held (Nat.zero_le _) (Nat.le_refl _) (Nat.le_refl _) ?_ ?_ ?_
      (Or.inl rfl) fun b hlo hhi => absurd hhi (by omega)
    · exact Nat.le_of_eq hchain.base.symm
    · decide +kernel
    · intro a ha
      simp only [List.mem_cons, List.not_mem_nil, or_false] at ha
      rcases ha with rfl | rfl
      · exact hplain 9 512 []
      · exact hplain 0 64 [256]

end LivingObjects.Gc
