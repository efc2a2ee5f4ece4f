/-
  LivingObjects.Stack.Chain — the activations a stack holds.

  An `Activation` is what one frame stands for: its operands, temporaries and header,
  and the arguments and the receiver that its caller pushed.  `ChainAt mem p acts`
  says that from address `p` up the memory holds the frames of `acts`, the innermost
  first and each linked to the next, and the operations of `frame.c` take such a stack
  to such a stack: a push or a store changes the first activation, a send or a block
  call puts a new one before it.
-/
import LivingObjects.Lib.Segment
import LivingObjects.Stack.Frame

namespace LivingObjects.Stack

open LivingObjects.Lib

/-! ## §1. Activations. -/

/-- What a frame holds. -/
structure Activation where
  savedIp : Nat
  method : Nat
  receiver : Nat
  /-- As they lie in memory, the last argument first. -/
  args : List Nat
  /-- In the order of their indices: copied values, then the method's own. -/
  temps : List Nat
  /-- The operands, the top first. -/
  stack : List Nat
  closure : Option Nat
  context : Option Nat

namespace Activation

/-- The word at `FRAME_FLAGS`. -/
def flags (a : Activation) : Nat :=
  a.args.length <<< 8 |||
    ((if a.closure.isSome then 1 <<< 16 else 0) |||
      (if a.context.isSome then 1 else if a.closure.isSome then 2 else 0))

/-- The word at `FRAME_CONTEXT`. -/
def contextWord (a : Activation) : Nat := (a.context.or a.closure).getD 0

/-- The number of words from the top of its operands to the receiver slot. -/
def size (a : Activation) : Nat := a.stack.length + a.temps.length + a.args.length + 7

/-- Its frame pointer, when its operands begin at `p`. -/
def fpAt (p : Nat) (a : Activation) : Nat := p + (a.stack.length + a.temps.length + 4)

end Activation

/-- The frame pointer of the innermost activation. -/
def fpOf (p : Nat) : List Activation → Nat
  | [] => 0
  | a :: _ => a.fpAt p

def chainSize (acts : List Activation) : Nat := (acts.map Activation.size).sum

/-- From `p` up, the memory holds the frame and what was pushed for it. -/
structure Held (mem : Nat → Nat) (p callerFp : Nat) (a : Activation) : Prop where
  stack : Holds mem p a.stack
  temps : Holds mem (p + a.stack.length) a.temps.reverse
  receiver : mem (a.fpAt p - 4) = a.receiver
  context : mem (a.fpAt p - 3) = a.contextWord
  flags : mem (a.fpAt p - 2) = a.flags
  method : mem (a.fpAt p - 1) = a.method
  callerFp : mem (a.fpAt p) = 8 * callerFp
  savedIp : mem (a.fpAt p + 1) = a.savedIp
  args : Holds mem (a.fpAt p + 2) a.args
  slot : mem (a.fpAt p + 2 + a.args.length) = a.receiver

/-- From `p` up, the memory holds the linked frames. -/
def ChainAt (mem : Nat → Nat) : Nat → List Activation → Prop
  | _, [] => True
  | p, a :: rest => Held mem p (fpOf (p + a.size) rest) a ∧ ChainAt mem (p + a.size) rest

/-- The stack of a running loop. -/
structure Chain (s : Vm) (acts : List Activation) : Prop where
  fp : s.fp = fpOf s.sp acts
  held : ChainAt s.mem s.sp acts
  base : s.base = s.sp + chainSize acts

@[simp] theorem fpOf_cons (p : Nat) (a : Activation) (rest : List Activation) :
    fpOf p (a :: rest) = a.fpAt p := rfl

@[simp] theorem chainSize_cons (a : Activation) (rest : List Activation) :
    chainSize (a :: rest) = a.size + chainSize rest := List.sum_cons

theorem four_le_fpAt (p : Nat) (a : Activation) : 4 ≤ a.fpAt p := by
  unfold Activation.fpAt
  omega

theorem le_fpAt (p : Nat) (a : Activation) : p + 4 ≤ a.fpAt p := by
  unfold Activation.fpAt
  omega

theorem fpAt_lt (p : Nat) (a : Activation) :
    a.fpAt p + 3 + a.args.length = p + a.size := by
  unfold Activation.fpAt Activation.size
  omega

/-- Only the words of the frame matter. -/
theorem Held.congr {mem mem' : Nat → Nat} {p callerFp : Nat} {a : Activation}
    (h : Held mem p callerFp a) (hsame : ∀ b, p ≤ b → b < p + a.size → mem' b = mem b) :
    Held mem' p callerFp a := by
  have hfp : a.fpAt p = p + (a.stack.length + a.temps.length + 4) := rfl
  have hsize : a.size = a.stack.length + a.temps.length + a.args.length + 7 := rfl
  have hword : ∀ b, p ≤ b → b < p + a.size → ∀ v, mem b = v → mem' b = v :=
    fun b hlo hhi v hv => (hsame b hlo hhi).trans hv
  refine ⟨h.stack.congr fun b hlo hhi => hsame b hlo (by omega),
    h.temps.congr fun b hlo hhi => ?_, hword _ (by omega) (by omega) _ h.receiver,
    hword _ (by omega) (by omega) _ h.context, hword _ (by omega) (by omega) _ h.flags,
    hword _ (by omega) (by omega) _ h.method, hword _ (by omega) (by omega) _ h.callerFp,
    hword _ (by omega) (by omega) _ h.savedIp,
    h.args.congr fun b hlo hhi => hsame b (by omega) (by omega),
    hword _ (by omega) (by omega) _ h.slot⟩
  rw [List.length_reverse] at hhi
  exact hsame b (by omega) (by omega)

theorem ChainAt.congr {mem mem' : Nat → Nat} {p : Nat} {acts : List Activation}
    (h : ChainAt mem p acts)
    (hsame : ∀ b, p ≤ b → b < p + chainSize acts → mem' b = mem b) : ChainAt mem' p acts := by
  induction acts generalizing p with
  | nil => trivial
  | cons a rest ih =>
    rw [chainSize_cons] at hsame
    refine ⟨h.1.congr fun b hlo hhi => hsame b hlo (by omega), ih h.2 fun b hlo hhi => ?_⟩
    exact hsame b (by omega) (by omega)

/-- A store below the stack. -/
theorem ChainAt.update_below {mem : Nat → Nat} {p b : Nat} {acts : List Activation}
    (h : ChainAt mem p acts) (v : Nat) (hb : b < p) : ChainAt (Function.update mem b v) p acts :=
  h.congr fun c hlo _ => Function.update_of_ne (by omega) v mem

/-! ## §2. Reading a frame. -/

/-- A temporary, counted from the header down. -/
theorem Held.temp {mem : Nat → Nat} {p callerFp i : Nat} {a : Activation}
    (h : Held mem p callerFp a) (hi : i < a.temps.length) :
    frameTemp mem (a.fpAt p) i = a.temps[i] := by
  have hat := h.temps.get (i := a.temps.length - 1 - i) (by rw [List.length_reverse]; omega)
  rw [List.getElem_reverse] at hat
  unfold frameTemp Activation.fpAt
  rw [show p + (a.stack.length + a.temps.length + 4) - (5 + i)
    = p + a.stack.length + (a.temps.length - 1 - i) by omega, hat]
  exact getElem_congr_idx (by omega)

theorem chainSize_append (acts acts' : List Activation) :
    chainSize (acts ++ acts') = chainSize acts + chainSize acts' := by
  unfold chainSize
  rw [List.map_append, List.sum_append]

/-- A frame further out. -/
theorem ChainAt.drop {mem : Nat → Nat} {p : Nat} {acts acts' : List Activation}
    (h : ChainAt mem p (acts ++ acts')) : ChainAt mem (p + chainSize acts) acts' := by
  induction acts generalizing p with
  | nil => exact h
  | cons a rest ih =>
    have hrest := ih h.2
    rw [Nat.add_assoc] at hrest
    exact hrest

/-! ## §3. The flags. -/

theorem and_low_eq_zero (n r : Nat) (hr : r < 2 ^ 8) : n <<< 8 &&& r = 0 := by
  refine Nat.eq_of_testBit_eq fun i => ?_
  rw [Nat.testBit_and, Nat.testBit_shiftLeft, Nat.zero_testBit]
  by_cases hi : 8 ≤ i
  · have hzero : r.testBit i = false :=
      Nat.testBit_lt_two_pow (Nat.lt_of_lt_of_le hr (Nat.pow_le_pow_right (by omega) hi))
    rw [hzero, Bool.and_false]
  · rw [decide_eq_false hi, Bool.false_and, Bool.false_and]

theorem clear_low (n r : Nat) : (n <<< 8 ||| r) ^^^ (r &&& 2) = n <<< 8 ||| (r ^^^ (r &&& 2)) := by
  refine Nat.eq_of_testBit_eq fun i => ?_
  simp only [Nat.testBit_xor, Nat.testBit_or, Nat.testBit_and, Nat.testBit_shiftLeft]
  -- bit 1 is below the shifted bits, and 2 has no other
  by_cases hi : i = 1
  · subst hi
    rfl
  · have htwo : Nat.testBit 2 i = false := by
      rw [show (2 : Nat) = 2 ^ 1 from rfl, Nat.testBit_two_pow]
      exact decide_eq_false (Ne.symm hi)
    rw [htwo, Bool.and_false, Bool.xor_false, Bool.xor_false]

section Flags

variable (a : Activation)

/-- The argument count of a frame is an 8-bit field. -/
theorem flags_numArgs : (a.flags >>> 8) &&& 0xFF = a.args.length % 256 := by
  have hmod : ∀ n : Nat, n &&& 0xFF = n % 2 ^ 8 := fun n => Nat.and_two_pow_sub_one_eq_mod n 8
  unfold Activation.flags
  rw [hmod, Nat.shiftRight_or_distrib, Nat.shiftLeft_shiftRight, Nat.or_mod_two_pow]
  cases a.closure.isSome <;> cases a.context.isSome <;> simp

theorem flags_hasContext : (a.flags &&& 1 != 0) = a.context.isSome := by
  unfold Activation.flags
  rw [Nat.and_or_distrib_right, and_low_eq_zero _ 1 (by omega)]
  cases a.closure.isSome <;> cases a.context.isSome <;> rfl

theorem flags_hasBlockClosure :
    (a.flags &&& 2 != 0) = (a.closure.isSome && a.context.isNone) := by
  unfold Activation.flags
  rw [Nat.and_or_distrib_right, and_low_eq_zero _ 2 (by omega)]
  rw [Nat.zero_or, ← Option.not_isSome]
  cases a.closure.isSome <;> cases a.context.isSome <;> rfl

/-- `mark_block_frame` on the flags of a new frame. -/
theorem flags_markBlock (hclosure : a.closure = none) (hcontext : a.context = none) (block : Nat) :
    a.flags ||| (1 <<< 16 ||| 2) = { a with closure := some block }.flags := by
  unfold Activation.flags
  rw [hclosure, hcontext, Nat.or_assoc]
  exact congrArg (a.args.length <<< 8 ||| ·) (by simp)

/-- What `ensure_frame_context_with_sp` does to the flags. -/
theorem flags_setContext (context : Nat) :
    (a.flags ^^^ (a.flags &&& 2)) ||| 1 = { a with context := some context }.flags := by
  unfold Activation.flags
  rw [Nat.and_or_distrib_right, and_low_eq_zero _ 2 (by omega), Nat.zero_or, clear_low, Nat.or_assoc]
  refine congrArg (a.args.length <<< 8 ||| ·) ?_
  cases a.closure.isSome <;> cases a.context.isSome <;> simp

end Flags

/-! ## §4. Changing the innermost frame. -/

theorem Held.push {mem : Nat → Nat} {p callerFp : Nat} {a : Activation}
    (h : Held mem (p + 1) callerFp a) (v : Nat) :
    Held (Function.update mem p v) p callerFp { a with stack := v :: a.stack } := by
  have hfp : ({ a with stack := v :: a.stack } : Activation).fpAt p = a.fpAt (p + 1) := by
    simp only [Activation.fpAt, List.length_cons]
    omega
  have h' : Held (Function.update mem p v) (p + 1) callerFp a :=
    h.congr fun b hlo _ => Function.update_of_ne (by omega) v mem
  refine ⟨h.stack.push v, ?_, ?_, ?_, ?_, ?_, ?_, ?_, ?_, ?_⟩
  · show Holds _ (p + (a.stack.length + 1)) a.temps.reverse
    rw [show p + (a.stack.length + 1) = p + 1 + a.stack.length by omega]
    exact h'.temps
  all_goals rw [hfp]
  exacts [h'.receiver, h'.context, h'.flags, h'.method, h'.callerFp, h'.savedIp, h'.args, h'.slot]

/-- `push`. -/
theorem Chain.push {s : Vm} {a : Activation} {rest : List Activation}
    (h : Chain s (a :: rest)) (hsp : 0 < s.sp) (v : Nat) :
    Chain (s.push v) ({ a with stack := v :: a.stack } :: rest) := by
  have hsize : s.sp - 1 + ({ a with stack := v :: a.stack } : Activation).size
      = s.sp + a.size := by
    simp only [Activation.size, List.length_cons]
    omega
  obtain ⟨p, hp⟩ : ∃ p, s.sp = p + 1 := ⟨s.sp - 1, by omega⟩
  have hheld := h.held
  refine ⟨h.fp.trans ?_, ⟨?_, ?_⟩, ?_⟩
  · simp only [Vm.push, fpOf_cons, Activation.fpAt, List.length_cons]
    omega
  · show Held (Function.update s.mem (s.sp - 1) v) (s.sp - 1) (fpOf (s.sp - 1 + _) rest) _
    rw [hsize]
    rw [hp] at hheld ⊢
    exact hheld.1.push v
  · show ChainAt (Function.update s.mem (s.sp - 1) v) (s.sp - 1 + _) rest
    rw [hsize]
    exact hheld.2.update_below v (by omega)
  · show s.base = s.sp - 1 + chainSize _
    rw [h.base, chainSize_cons, chainSize_cons, ← Nat.add_assoc, ← Nat.add_assoc, hsize]

/-- `pop`, as often as there are values in front. -/
theorem Chain.pop {s : Vm} {a : Activation} {rest : List Activation} {vs below : List Nat}
    (h : Chain s (a :: rest)) (hstack : a.stack = vs ++ below) :
    Chain { s with sp := s.sp + vs.length } ({ a with stack := below } :: rest) := by
  have hfp : ({ a with stack := below } : Activation).fpAt (s.sp + vs.length) = a.fpAt s.sp := by
    simp only [Activation.fpAt, hstack, List.length_append]
    omega
  have hsize : s.sp + vs.length + ({ a with stack := below } : Activation).size
      = s.sp + a.size := by
    simp only [Activation.size, hstack, List.length_append]
    omega
  obtain ⟨hheld, hrest⟩ := h.held
  refine ⟨h.fp.trans hfp.symm, ⟨⟨?_, ?_, ?_, ?_, ?_, ?_, ?_, ?_, ?_, ?_⟩, ?_⟩, ?_⟩
  · have hwords := hheld.stack
    rw [hstack, holds_append] at hwords
    exact hwords.2
  · have htemps := hheld.temps
    rw [hstack, List.length_append, ← Nat.add_assoc] at htemps
    exact htemps
  all_goals try rw [hfp]
  · exact hheld.receiver
  · exact hheld.context
  · exact hheld.flags
  · exact hheld.method
  · show s.mem (a.fpAt s.sp) = 8 * fpOf (s.sp + vs.length + _) rest
    rw [hsize]
    exact hheld.callerFp
  · exact hheld.savedIp
  · exact hheld.args
  · exact hheld.slot
  · show ChainAt s.mem (s.sp + vs.length + _) rest
    rw [hsize]
    exact hrest
  · show s.base = s.sp + vs.length + chainSize _
    rw [h.base, chainSize_cons, chainSize_cons, ← Nat.add_assoc, ← Nat.add_assoc, hsize]

/-- A store into a temporary. -/
theorem Held.setTemp {mem : Nat → Nat} {p callerFp i : Nat} {a : Activation}
    (h : Held mem p callerFp a) (v : Nat) (hi : i < a.temps.length) :
    Held (Function.update mem (a.fpAt p - (5 + i)) v) p callerFp
      { a with temps := a.temps.set i v } := by
  have hat : a.fpAt p = p + (a.stack.length + a.temps.length + 4) := rfl
  have hfp : ({ a with temps := a.temps.set i v } : Activation).fpAt p = a.fpAt p := by
    simp only [Activation.fpAt, List.length_set]
  have hother : ∀ b, a.fpAt p - 4 ≤ b →
      Function.update mem (a.fpAt p - (5 + i)) v b = mem b :=
    fun b hb => Function.update_of_ne (by omega) v mem
  refine ⟨h.stack.update_out v (by omega), ?_, ?_, ?_, ?_, ?_, ?_, ?_, ?_, ?_⟩
  · rw [show a.fpAt p - (5 + i) = p + a.stack.length + (a.temps.length - 1 - i) by omega]
    exact h.temps.update_reverse v hi
  all_goals rw [hfp]
  · exact (hother _ (by omega)).trans h.receiver
  · exact (hother _ (by omega)).trans h.context
  · exact (hother _ (by omega)).trans h.flags
  · exact (hother _ (by omega)).trans h.method
  · exact (hother _ (by omega)).trans h.callerFp
  · exact (hother _ (by omega)).trans h.savedIp
  · exact h.args.update_out v (by omega)
  · exact (hother _ (by omega)).trans h.slot

/-- `frame_store_temp` on the running frame. -/
theorem Chain.storeTemp {s : Vm} {a : Activation} {rest : List Activation} {i : Nat}
    (h : Chain s (a :: rest)) (v : Nat) (hi : i < a.temps.length) :
    Chain { s with mem := frameStoreTemp s.fp i v s.mem }
      ({ a with temps := a.temps.set i v } :: rest) := by
  have hsize : ({ a with temps := a.temps.set i v } : Activation).size = a.size := by
    simp only [Activation.size, List.length_set]
  have hlt := fpAt_lt s.sp a
  have hfp : s.fp = a.fpAt s.sp := h.fp
  refine ⟨?_, ⟨?_, ?_⟩, ?_⟩
  · simp only [fpOf_cons, Activation.fpAt, List.length_set]
    exact h.fp
  · rw [hsize, hfp]
    exact h.held.1.setTemp v hi
  · rw [hsize]
    refine h.held.2.congr fun b hlo _ => ?_
    have hlo' : s.sp + a.size ≤ b := hlo
    have hne : b ≠ s.fp - (5 + i) := by omega
    exact Function.update_of_ne hne _ _
  · show s.base = s.sp + chainSize _
    rw [h.base, chainSize_cons, chainSize_cons, hsize]

/-- `populate_block_copied_values`, and what else stores a run of temporaries. -/
theorem Held.storeTemps {mem : Nat → Nat} {p callerFp fp : Nat} {a : Activation}
    (h : Held mem p callerFp a) (hfp : fp = a.fpAt p) {pre mid post vs : List Nat}
    (htemps : a.temps = pre ++ mid ++ post) (hlength : mid.length = vs.length) :
    Held (storeTemps fp pre.length vs mem) p callerFp { a with temps := pre ++ vs ++ post } := by
  induction vs generalizing mem a pre mid with
  | nil =>
    rw [List.eq_nil_of_length_eq_zero hlength] at htemps
    rw [← htemps]
    exact h
  | cons v vs ih =>
    cases mid with
    | nil => exact absurd hlength.symm (Nat.succ_ne_zero _)
    | cons m mid =>
      have hin : pre.length < a.temps.length := by
        rw [htemps]
        simp
      have hnext : a.temps.set pre.length v = (pre ++ [v]) ++ mid ++ post := by
        rw [htemps]
        simp
      have hsame : fp = ({ a with temps := a.temps.set pre.length v } : Activation).fpAt p := by
        rw [hfp]
        simp only [Activation.fpAt, List.length_set]
      have hrest := ih (hfp ▸ h.setTemp v hin) hsame hnext (Nat.succ.inj hlength)
      rw [List.length_append, List.append_assoc pre [v] vs] at hrest
      exact hrest

theorem storeTemps_above {mem : Nat → Nat} {fp b : Nat} (hb : fp ≤ b) (hfp : 0 < fp)
    (index : Nat) (vs : List Nat) : storeTemps fp index vs mem b = mem b := by
  induction vs generalizing mem index with
  | nil => rfl
  | cons v vs ih =>
    exact (ih (index + 1)).trans (Function.update_of_ne (by omega) v mem)

/-- A change of the two words that say what closure and what context the frame has. -/
theorem Held.setHeader {mem mem' : Nat → Nat} {p callerFp : Nat} {a : Activation}
    (h : Held mem p callerFp a) (closure context : Option Nat)
    (hcontext : mem' (a.fpAt p - 3)
      = ({ a with closure := closure, context := context } : Activation).contextWord)
    (hflags : mem' (a.fpAt p - 2)
      = ({ a with closure := closure, context := context } : Activation).flags)
    (hother : ∀ b, b ≠ a.fpAt p - 3 → b ≠ a.fpAt p - 2 → mem' b = mem b) :
    Held mem' p callerFp { a with closure := closure, context := context } := by
  have hat : a.fpAt p = p + (a.stack.length + a.temps.length + 4) := rfl
  have hword : ∀ b v, mem b = v → b ≠ a.fpAt p - 3 → b ≠ a.fpAt p - 2 → mem' b = v :=
    fun b v hv hthree htwo => (hother b hthree htwo).trans hv
  refine ⟨h.stack.congr fun b _ hhi => hother b (by omega) (by omega),
    h.temps.congr fun b _ hhi => ?_, hword _ _ h.receiver ?_ ?_, hcontext, hflags,
    hword _ _ h.method ?_ ?_, hword _ _ h.callerFp ?_ ?_, hword _ _ h.savedIp ?_ ?_,
    h.args.congr fun b hlo _ => ?_, hword _ _ h.slot ?_ ?_⟩
  · rw [List.length_reverse] at hhi
    exact hother b (by omega) (by omega)
  case refine_10 =>
    have hlo' : a.fpAt p + 2 ≤ b := hlo
    exact hother b (by omega) (by omega)
  all_goals
    show _ ≠ a.fpAt p - _
    simp only [Activation.fpAt]
    omega

/-- `mark_block_frame` on a new frame. -/
theorem Held.markBlock {mem : Nat → Nat} {p callerFp : Nat} {a : Activation}
    (h : Held mem p callerFp a) (hclosure : a.closure = none) (hcontext : a.context = none)
    (block : Nat) :
    Held (markBlockFrame (a.fpAt p) block mem) p callerFp { a with closure := some block } := by
  have hfp := le_fpAt p a
  have hother : ∀ b, b ≠ a.fpAt p - 3 → b ≠ a.fpAt p - 2 →
      markBlockFrame (a.fpAt p) block mem b = mem b := fun b hthree htwo =>
    (Function.update_of_ne hthree _ _).trans (Function.update_of_ne htwo _ _)
  have hheader := h.setHeader (some block) none ?_ ?_ hother
  · rw [← hcontext] at hheader
    exact hheader
  · exact Function.update_self _ _ _
  · refine (Function.update_of_ne (by omega) _ _).trans ((Function.update_self _ _ _).trans ?_)
    show mem (a.fpAt p - 2) ||| (1 <<< 16 ||| 2) = _
    rw [h.flags, flags_markBlock a hclosure hcontext block, hcontext]

/-! ## §5. New frames. -/

/-- The words of a frame that has no operands yet. -/
theorem held_of_words {mem : Nat → Nat} {p callerFp : Nat} {a : Activation}
    (hstack : a.stack = [])
    (h : Holds mem p (a.temps.reverse ++ (a.receiver :: a.contextWord :: a.flags :: a.method
      :: 8 * callerFp :: a.savedIp :: (a.args ++ [a.receiver])))) : Held mem p callerFp a := by
  have hat : a.fpAt p = p + (a.temps.length + 4) := by
    simp only [Activation.fpAt, hstack, List.length_nil]
    omega
  simp only [holds_append, List.length_reverse, holds_cons, Nat.add_assoc] at h
  obtain ⟨htemps, hreceiver, hcontext, hflags, hmethod, hcaller, hip, hargs, hslot, -⟩ := h
  have hword : ∀ k b, p + (a.temps.length + k) = b → ∀ v, mem (p + (a.temps.length + k)) = v →
      mem b = v := fun k b hb v hv => hb ▸ hv
  refine ⟨by rw [hstack]; trivial, by rw [hstack]; exact htemps,
    hword 0 _ (by omega) _ hreceiver, hword 1 _ (by omega) _ hcontext,
    hword 2 _ (by omega) _ hflags, hword 3 _ (by omega) _ hmethod, hword 4 _ (by omega) _ hcaller,
    hword 5 _ (by omega) _ hip, ?_, hword (6 + a.args.length) _
      (by omega) _ ?_⟩
  · rw [show a.fpAt p + 2 = p + (a.temps.length + 6) by omega]
    exact hargs
  · rw [show a.temps.length + (6 + a.args.length)
      = a.temps.length + (1 + (1 + (1 + (1 + (1 + (1 + a.args.length)))))) by omega]
    exact hslot

@[simp] theorem push_mem (v : Nat) (s : Vm) :
    (s.push v).mem = Function.update s.mem (s.sp - 1) v := rfl

@[simp] theorem push_sp (v : Nat) (s : Vm) : (s.push v).sp = s.sp - 1 := rfl

/-- Values pushed lie in front, the last one first. -/
theorem pushAll_holds {vs L : List Nat} {s : Vm} (h : Holds s.mem s.sp L)
    (hsp : vs.length ≤ s.sp) : Holds (pushAll vs s).mem (pushAll vs s).sp (vs.reverse ++ L) := by
  induction vs generalizing s L with
  | nil => exact h
  | cons v vs ih =>
    rw [List.length_cons] at hsp
    have hpush : Holds (s.push v).mem (s.push v).sp (v :: L) := by
      obtain ⟨p, hp⟩ : ∃ p, s.sp = p + 1 := ⟨s.sp - 1, by omega⟩
      show Holds (Function.update s.mem (s.sp - 1) v) (s.sp - 1) (v :: L)
      rw [hp] at h ⊢
      exact h.push v
    have hrest := ih hpush (by show vs.length ≤ s.sp - 1; omega)
    rw [List.reverse_cons, List.append_assoc]
    exact hrest

theorem pushAll_sp (vs : List Nat) (s : Vm) : (pushAll vs s).sp = s.sp - vs.length := by
  induction vs generalizing s with
  | nil => rfl
  | cons v vs ih =>
    rw [pushAll, ih]
    show s.sp - 1 - vs.length = s.sp - (vs.length + 1)
    omega

/-- Nothing but the stack pointer and the words below it change. -/
theorem pushAll_mem {vs : List Nat} {s : Vm} {b : Nat} (hb : s.sp ≤ b) (hsp : vs.length ≤ s.sp) :
    (pushAll vs s).mem b = s.mem b := by
  induction vs generalizing s with
  | nil => rfl
  | cons v vs ih =>
    rw [List.length_cons] at hsp
    have hrest := ih (s := s.push v) (by show s.sp - 1 ≤ b; omega)
      (by show vs.length ≤ s.sp - 1; omega)
    rw [push_mem, Function.update_of_ne (by omega)] at hrest
    exact hrest

theorem pushAll_rest (vs : List Nat) (s : Vm) :
    pushAll vs s = { s with sp := (pushAll vs s).sp, mem := (pushAll vs s).mem } := by
  induction vs generalizing s with
  | nil => rfl
  | cons v vs ih =>
    rw [pushAll, ih (s.push v)]
    rfl

/-- What is on the stack when a receiver and its arguments have been pushed. -/
structure Pending (s : Vm) (args : List Nat) (receiver : Nat) (acts : List Activation) : Prop where
  words : Holds s.mem s.sp (args ++ [receiver])
  fp : s.fp = fpOf (s.sp + (args.length + 1)) acts
  held : ChainAt s.mem (s.sp + (args.length + 1)) acts
  base : s.base = s.sp + (args.length + 1) + chainSize acts

/-- The arguments and the receiver are the topmost operands of the caller. -/
theorem Chain.pending {s : Vm} {a : Activation} {rest : List Activation} {args below : List Nat}
    {receiver : Nat} (h : Chain s (a :: rest)) (hstack : a.stack = args ++ receiver :: below) :
    Pending s args receiver ({ a with stack := below } :: rest) := by
  have hsplit : a.stack = (args ++ [receiver]) ++ below := by
    rw [hstack, List.append_assoc]
    rfl
  have hwords := h.held.1.stack
  have hpop := h.pop hsplit
  rw [List.length_append] at hpop
  rw [hsplit, holds_append] at hwords
  exact ⟨hwords.1, hpop.fp, hpop.held, hpop.base⟩

theorem pushAll_append (vs ws : List Nat) (s : Vm) :
    pushAll (vs ++ ws) s = pushAll ws (pushAll vs s) := by
  induction vs generalizing s with
  | nil => rfl
  | cons v vs ih => exact ih (s.push v)

/-- What `activate_method` pushes. -/
theorem activateMethod_some {s s' : Vm} {savedIp method numArgs numTemps : Nat}
    (h : activateMethod savedIp method numArgs numTemps s = some s') :
    s.limitLow + (numTemps + 6) ≤ s.sp ∧
      s' = { pushAll ([savedIp, 8 * s.fp, method, numArgs <<< 8, 0, s.mem (s.sp + numArgs)]
        ++ List.replicate numTemps 0) s with fp := s.sp - 2 } := by
  unfold activateMethod at h
  split at h
  · cases h
  · rename_i hroom
    refine ⟨Nat.le_of_not_lt hroom, (Option.some.inj h).symm.trans ?_⟩
    rw [pushAll_append]
    rfl

/-- A new activation. -/
def Activation.fresh (savedIp method receiver : Nat) (args : List Nat) (numTemps : Nat) :
    Activation :=
  { savedIp := savedIp
    method := method
    receiver := receiver
    args := args
    temps := List.replicate numTemps 0
    stack := []
    closure := none
    context := none }

theorem fresh_flags (savedIp method receiver : Nat) (args : List Nat) (numTemps : Nat) :
    (Activation.fresh savedIp method receiver args numTemps).flags = args.length <<< 8 := by
  simp [Activation.flags, Activation.fresh]

theorem fresh_size (savedIp method receiver : Nat) (args : List Nat) (numTemps : Nat) :
    (Activation.fresh savedIp method receiver args numTemps).size
      = numTemps + args.length + 7 := by
  simp [Activation.size, Activation.fresh]

/-- The words `activate_method` lays down, whatever chain they are linked to. -/
theorem activateMethod_held {s s' : Vm} {args : List Nat} {receiver savedIp method numTemps : Nat}
    (hwords : Holds s.mem s.sp (args ++ [receiver]))
    (hact : activateMethod savedIp method args.length numTemps s = some s') :
    Held s'.mem s'.sp s.fp (.fresh savedIp method receiver args numTemps)
      ∧ s'.sp + (numTemps + 6) = s.sp ∧ s'.fp = s'.sp + (numTemps + 4)
      ∧ (∀ b, s.sp ≤ b → s'.mem b = s.mem b)
      ∧ s' = { s with sp := s'.sp, fp := s'.fp, mem := s'.mem } := by
  obtain ⟨hroom, hs'⟩ := activateMethod_some hact
  have hreceiver : s.mem (s.sp + args.length) = receiver :=
    (hwords.get (i := args.length) (by simp)).trans (by simp)
  rw [hreceiver] at hs'
  generalize hvs : [savedIp, 8 * s.fp, method, args.length <<< 8, 0, receiver]
    ++ List.replicate numTemps 0 = vs at hs'
  have hlength : vs.length = numTemps + 6 := by
    rw [← hvs, List.length_append, List.length_replicate]
    exact Nat.add_comm 6 numTemps
  have hsp : s'.sp = s.sp - (numTemps + 6) := by
    rw [hs', ← hlength]
    exact pushAll_sp _ s
  have hfp : s'.fp = s.sp - 2 := by rw [hs']
  have hholds : Holds s'.mem s'.sp (vs.reverse ++ (args ++ [receiver])) := by
    rw [hs']
    exact pushAll_holds hwords (by omega)
  refine ⟨held_of_words rfl ?_, by omega, by omega, fun b hb => ?_, ?_⟩
  · rw [fresh_flags]
    rw [← hvs, List.reverse_append, List.append_assoc] at hholds
    exact hholds
  · rw [hs']
    exact pushAll_mem hb (by omega)
  · rw [hs', pushAll_rest]

/-- **`activate_method` makes a frame.** -/
theorem Pending.activateMethod {s s' : Vm} {args : List Nat}
    {receiver savedIp method numTemps : Nat} {acts : List Activation}
    (h : Pending s args receiver acts)
    (hact : activateMethod savedIp method args.length numTemps s = some s') :
    Chain s' (.fresh savedIp method receiver args numTemps :: acts)
      ∧ s' = { s with sp := s'.sp, fp := s'.fp, mem := s'.mem } := by
  obtain ⟨hheld, hsp, hfp, habove, hrest⟩ := activateMethod_held h.words hact
  have hbase : s'.base = s.base := by rw [hrest]
  have hnext : s'.sp + (Activation.fresh savedIp method receiver args numTemps).size
      = s.sp + (args.length + 1) := by
    rw [fresh_size]
    omega
  refine ⟨⟨?_, ⟨?_, ?_⟩, ?_⟩, hrest⟩
  · rw [hfp]
    simp only [fpOf_cons, Activation.fpAt, Activation.fresh, List.length_replicate, List.length_nil]
    omega
  · rw [hnext, ← h.fp]
    exact hheld
  · rw [hnext]
    exact h.held.congr fun b hlo _ => habove b (by omega)
  · rw [hbase, h.base, chainSize_cons, ← Nat.add_assoc s'.sp, hnext]

/-- The receiver slot is overwritten before a block is activated. -/
theorem Pending.setReceiver {s : Vm} {args : List Nat} {receiver : Nat} {acts : List Activation}
    (h : Pending s args receiver acts) (v : Nat) :
    Pending { s with mem := Function.update s.mem (s.sp + args.length) v } args v acts := by
  have hset := h.words.update_set (i := args.length) v (by simp)
  rw [List.set_append_right _ _ (Nat.le_refl _), Nat.sub_self] at hset
  exact ⟨hset, h.fp, h.held.update_below v (by omega), h.base⟩

/-- The activation of a block. -/
def Activation.freshBlock (savedIp block : Nat) (blk : BlockClosure) (args : List Nat)
    (numTemps : Nat) : Activation :=
  { savedIp := savedIp
    method := blk.method
    receiver := blk.homeReceiver
    args := args
    temps := blk.copied ++ List.replicate numTemps 0
    stack := []
    closure := some block
    context := none }

/-- A new frame becomes the frame of a block. -/
theorem Held.freshBlock {mem : Nat → Nat} {p callerFp fp savedIp block numTemps : Nat}
    {blk : BlockClosure} {args : List Nat}
    (h : Held mem p callerFp (.fresh savedIp blk.method blk.homeReceiver args
      (numTemps + blk.copied.length)))
    (hfp : fp = (Activation.fresh savedIp blk.method blk.homeReceiver args
      (numTemps + blk.copied.length)).fpAt p) :
    Held (markBlockFrame fp block (Stack.storeTemps fp 0 blk.copied mem)) p callerFp
      (.freshBlock savedIp block blk args numTemps) := by
  have htemps : List.replicate (numTemps + blk.copied.length) 0
      = [] ++ List.replicate blk.copied.length 0 ++ List.replicate numTemps 0 := by
    rw [List.nil_append, List.replicate_append_replicate, Nat.add_comm]
  have hstored := h.storeTemps hfp htemps List.length_replicate
  have hsame : fp = ({ Activation.fresh savedIp blk.method blk.homeReceiver args
      (numTemps + blk.copied.length) with
      temps := [] ++ blk.copied ++ List.replicate numTemps 0 } : Activation).fpAt p := by
    rw [hfp]
    simp [Activation.fpAt, Activation.fresh, Nat.add_comm]
  have hmarked := hstored.markBlock rfl rfl block
  rw [← hsame] at hmarked
  exact hmarked

/-- **`activate_block_call` makes a frame** whose temporaries begin with the copied values. -/
theorem Chain.activateBlockCall {code : Nat → CompiledMethod} {s s' : Vm} {args below : List Nat}
    {block : Nat} {blk : BlockClosure} {a : Activation} {rest : List Activation}
    (h : Chain s (a :: rest)) (hstack : a.stack = args ++ block :: below)
    (hblk : s.heap.block block = some blk)
    (hact : activateBlockCall code args.length s = some s') :
    Chain s' (.freshBlock s.ip block blk args (code blk.method).numTemps
        :: { a with stack := below } :: rest)
      ∧ s' = { s with sp := s'.sp, fp := s'.fp, mem := s'.mem
                      ip := (code blk.method).bytecodes } := by
  have hpending := h.pending hstack
  have hblock : s.mem (s.sp + args.length) = block :=
    (hpending.words.get (i := args.length) (by simp)).trans (by simp)
  simp only [Stack.activateBlockCall, hblock, hblk, Option.bind_eq_bind, Option.bind_some,
    Option.bind_eq_some_iff] at hact
  obtain ⟨s₁, hact, hs'⟩ := hact
  obtain ⟨hchain, hrest⟩ := (hpending.setReceiver blk.homeReceiver).activateMethod hact
  obtain rfl := Option.some.inj hs'
  have hfp := hchain.fp
  obtain ⟨hheld, hcallers⟩ := hchain.held
  have habove : ∀ b, s₁.fp ≤ b →
      markBlockFrame s₁.fp block (storeTemps s₁.fp 0 blk.copied s₁.mem) b = s₁.mem b := by
    intro b hb
    have hpos : 4 ≤ s₁.fp := hfp ▸ four_le_fpAt _ _
    refine (Function.update_of_ne (by omega) _ _).trans ?_
    exact (Function.update_of_ne (by omega) _ _).trans (storeTemps_above hb (by omega) 0 _)
  have hsize : (Activation.freshBlock s.ip block blk args (code blk.method).numTemps).size
      = (Activation.fresh s.ip blk.method blk.homeReceiver args
          ((code blk.method).numTemps + blk.copied.length)).size := by
    simp [Activation.size, Activation.freshBlock, Activation.fresh, Nat.add_comm]
  refine ⟨⟨?_, ⟨?_, ?_⟩, ?_⟩, ?_⟩
  · show s₁.fp = _
    rw [hfp]
    simp [Activation.fpAt, Activation.freshBlock, Activation.fresh, Nat.add_comm]
  · rw [hsize]
    exact hheld.freshBlock hfp
  · rw [hsize]
    refine hcallers.congr fun b hlo _ => habove b ?_
    rw [hfp, fpOf_cons]
    have hlt := fpAt_lt s₁.sp (Activation.fresh s.ip blk.method blk.homeReceiver args
      ((code blk.method).numTemps + blk.copied.length))
    have hlo' : s₁.sp + _ ≤ b := hlo
    omega
  · show s₁.base = s₁.sp + chainSize _
    rw [hchain.base]
    simp only [chainSize_cons, hsize]
  · rw [hrest]

end LivingObjects.Stack
