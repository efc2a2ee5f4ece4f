/-
  LivingObjects.Stack.Refinement — the word stack as a stack of activations.

  The operations of `frame.c` address everything by offsets from the stack pointer and
  the frame pointer, and the operands a caller pushes become the arguments of the callee.
  The abstract stack is a list of activations with their own operands, temporaries and
  arguments; an operation is defined on it where it is well nested.
  `frames_refine_activations`: a run of the words follows the run of the activations.
-/
import LivingObjects.Stack.RoundTrip

namespace LivingObjects.Stack

open LivingObjects.Lib

/-! ## §1. The operations on the words. -/

/-- `frame_return`; `none` is the trap of `activate_context`. -/
def frameReturn (value : Nat) (s : Vm) : Option Vm :=
  let newSp := s.fp + 2 + frameNumArgs s.mem s.fp
  let callerFp := frameSavedFp s.mem s.fp
  let mem := Function.update s.mem newSp value
  if callerFp ≠ 0 then
    some { s with mem := mem, fp := callerFp, ip := frameSavedIp mem s.fp, sp := newSp }
  else
    let sender :=
      if frameHasContext mem s.fp then
        ((s.heap.context (frameContext mem s.fp)).map Context.sender).getD taggedNil
      else taggedNil
    if isObjectValue sender ∧ sender ≠ 0 then do
      let ctx ← s.heap.context sender
      let s ← activateContext 0 sender { s with mem := mem, sp := newSp, fp := 0, ip := 0 }
      return { s.push value with ip := ctx.ip }
    else some { s with mem := mem, fp := 0, ip := 0, sp := newSp }

/-- The operations of a run. -/
inductive FrameOp where
  | push (value : Nat)
  | pop
  | storeTemp (index value : Nat)
  | activate (savedIp method numArgs numTemps : Nat)
  | ret (value : Nat)
deriving DecidableEq, Repr

/-- An operation on the words; `none` when the stack overflows.  `activate_method` traps then,
and a push has no word left. -/
def FrameOp.run (op : FrameOp) (s : Vm) : Option Vm :=
  match op with
  | .push value => if s.limitLow < s.sp then some (s.push value) else none
  | .pop => some { s with sp := s.sp + 1 }
  | .storeTemp index value => some { s with mem := frameStoreTemp s.fp index value s.mem }
  | .activate savedIp method numArgs numTemps => activateMethod savedIp method numArgs numTemps s
  | .ret value => frameReturn value s

def runFrames : List FrameOp → Vm → Option Vm
  | [], s => some s
  | op :: ops, s => (op.run s).bind (runFrames ops)

/-! ## §2. The operations on the activations. -/

/-- The same operation on activations, the innermost first; `none` when it is not well
nested: it takes an operand or stores a temporary that is not there, passes more than 255
arguments, or has no caller. -/
def FrameOp.apply (op : FrameOp) (acts : List Activation) : Option (List Activation) :=
  match op, acts with
  | .push value, a :: rest => some ({ a with stack := value :: a.stack } :: rest)
  | .pop, a :: rest =>
    match a.stack with
    | [] => none
    | _ :: below => some ({ a with stack := below } :: rest)
  | .storeTemp index value, a :: rest =>
    if index < a.temps.length then some ({ a with temps := a.temps.set index value } :: rest)
    else none
  | .activate savedIp method numArgs numTemps, a :: rest =>
    match a.stack.drop numArgs with
    | [] => none
    | receiver :: below =>
      if numArgs ≤ 255 then
        some (.fresh savedIp method receiver (a.stack.take numArgs) numTemps
          :: { a with stack := below } :: rest)
      else none
  | .ret value, _ :: caller :: rest => some ({ caller with stack := value :: caller.stack } :: rest)
  | _, _ => none

def applyAll : List FrameOp → List Activation → Option (List Activation)
  | [], acts => some acts
  | op :: ops, acts => (op.apply acts).bind (applyAll ops)

/-! ## §3. The refinement. -/

/-- The words hold the activations, each with at most 255 arguments. -/
structure Refines (s : Vm) (acts : List Activation) : Prop where
  chain : Chain s acts
  small : ∀ a ∈ acts, a.args.length ≤ 255

theorem Held.numArgs {mem : Nat → Nat} {p callerFp : Nat} {a : Activation}
    (h : Held mem p callerFp a) (hsmall : a.args.length ≤ 255) :
    frameNumArgs mem (a.fpAt p) = a.args.length := by
  unfold frameNumArgs frameFlags
  rw [h.flags, flags_numArgs]
  exact Nat.mod_eq_of_lt (by omega)

/-- What `frame_return` leaves of the words, when there is a caller. -/
structure Returned (s : Vm) (value : Nat) (s' : Vm) : Prop where
  /-- The receiver slot of the callee. -/
  sp : s'.sp = s.fp + 2 + frameNumArgs s.mem s.fp
  fp : s'.fp = frameSavedFp s.mem s.fp
  ip : s'.ip = frameSavedIp s.mem s.fp
  value : s'.mem s'.sp = value
  other : ∀ b, b ≠ s'.sp → s'.mem b = s.mem b

/-- **`frame_return`**: the value stands where the receiver and the arguments of the callee
began, on top of the caller's operands. -/
theorem Refines.frameReturn {s : Vm} {a caller : Activation} {rest : List Activation}
    (h : Refines s (a :: caller :: rest)) (value : Nat) :
    ∃ s', frameReturn value s = some s' ∧ Returned s value s' ∧
      Refines s' ({ caller with stack := value :: caller.stack } :: rest) := by
  obtain ⟨⟨hfp, ⟨hheld, hcallers⟩, hbase⟩, hsmall⟩ := h
  have hfp' : s.fp = a.fpAt s.sp := hfp
  have hlt := fpAt_lt s.sp a
  have hle := le_fpAt s.sp a
  have hcount : frameNumArgs s.mem s.fp = a.args.length := by
    rw [hfp']
    exact hheld.numArgs (hsmall a List.mem_cons_self)
  have hcaller : frameSavedFp s.mem s.fp = caller.fpAt (s.sp + a.size) := by
    rw [hfp']
    exact hheld.savedFp
  have hpos := four_le_fpAt (s.sp + a.size) caller
  have hslot : s.fp + 2 + a.args.length + 1 = s.sp + a.size := by omega
  have hip : frameSavedIp (Function.update s.mem (s.fp + 2 + a.args.length) value) s.fp
      = frameSavedIp s.mem s.fp := Function.update_of_ne (by omega) _ _
  refine ⟨{ s with
      mem := Function.update s.mem (s.fp + 2 + a.args.length) value
      sp := s.fp + 2 + a.args.length
      fp := caller.fpAt (s.sp + a.size)
      ip := frameSavedIp s.mem s.fp }, ?_, ?_, ?_⟩
  · unfold Stack.frameReturn
    simp only [hcount, hcaller, hip]
    rw [if_pos (by omega)]
  · refine ⟨?_, hcaller.symm, rfl, Function.update_self _ _ _, fun b hb =>
      Function.update_of_ne hb _ _⟩
    rw [hcount]
  · -- the caller as it waited, and one push
    have hwaiting : Chain { s with
        sp := s.sp + a.size
        fp := caller.fpAt (s.sp + a.size)
        ip := frameSavedIp s.mem s.fp } (caller :: rest) := by
      refine ⟨rfl, hcallers, ?_⟩
      show s.base = s.sp + a.size + chainSize (caller :: rest)
      rw [hbase, chainSize_cons, Nat.add_assoc]
    have hpushed := hwaiting.push (by show 0 < s.sp + a.size; omega) value
    have hsp : s.sp + a.size - 1 = s.fp + 2 + a.args.length := by omega
    refine ⟨?_, fun b hb => ?_⟩
    · unfold Vm.push at hpushed
      simp only [hsp] at hpushed
      exact hpushed
    · rcases List.mem_cons.mp hb with rfl | hb
      · exact hsmall caller (by simp)
      · exact hsmall b (by simp [hb])

/-- **One operation** on the words follows the same operation on the activations. -/
theorem Refines.step {op : FrameOp} {s s' : Vm} {acts acts' : List Activation}
    (h : Refines s acts) (happly : op.apply acts = some acts') (hrun : op.run s = some s') :
    Refines s' acts' := by
  obtain ⟨hchain, hsmall⟩ := h
  cases acts with
  | nil => cases op <;> cases happly
  | cons a rest =>
    have ha := hsmall a List.mem_cons_self
    have hrest : ∀ b ∈ rest, b.args.length ≤ 255 := fun b hb =>
      hsmall b (List.mem_cons_of_mem a hb)
    cases op with
    | push value =>
      unfold FrameOp.run at hrun
      simp only at hrun
      split at hrun
      · next hroom =>
        cases hrun
        cases happly
        refine ⟨hchain.push (by omega) value, fun b hb => ?_⟩
        rcases List.mem_cons.mp hb with rfl | hb
        · exact ha
        · exact hrest b hb
      · cases hrun
    | pop =>
      cases hrun
      cases hstack : a.stack with
      | nil =>
        simp only [FrameOp.apply, hstack] at happly
        cases happly
      | cons v below =>
        simp only [FrameOp.apply, hstack] at happly
        cases happly
        have hsplit : a.stack = [v] ++ below := hstack
        refine ⟨hchain.pop hsplit, fun b hb => ?_⟩
        rcases List.mem_cons.mp hb with rfl | hb
        · exact ha
        · exact hrest b hb
    | storeTemp index value =>
      cases hrun
      simp only [FrameOp.apply] at happly
      split at happly
      · next hindex =>
        cases happly
        refine ⟨hchain.storeTemp value hindex, fun b hb => ?_⟩
        rcases List.mem_cons.mp hb with rfl | hb
        · exact ha
        · exact hrest b hb
      · cases happly
    | activate savedIp method numArgs numTemps =>
      simp only [FrameOp.apply] at happly
      split at happly
      · cases happly
      next receiver below hdrop =>
      split at happly
      · next hargs =>
        cases happly
        -- the caller's topmost operands are what the callee is called with
        have hstack : a.stack = a.stack.take numArgs ++ receiver :: below := by
          rw [← hdrop, List.take_append_drop]
        have hlength : (a.stack.take numArgs).length = numArgs := by
          have hpos : 0 < (a.stack.drop numArgs).length := by
            rw [hdrop]
            exact Nat.succ_pos _
          rw [List.length_drop] at hpos
          rw [List.length_take]
          omega
        have hact : activateMethod savedIp method (a.stack.take numArgs).length numTemps s
            = some s' := by
          rw [hlength]
          exact hrun
        refine ⟨((hchain.pending hstack).activateMethod hact).1, fun b hb => ?_⟩
        rcases List.mem_cons.mp hb with rfl | hb
        · show (a.stack.take numArgs).length ≤ 255
          omega
        · rcases List.mem_cons.mp hb with rfl | hb
          · exact ha
          · exact hrest b hb
      · cases happly
    | ret value =>
      cases rest with
      | nil => cases happly
      | cons caller rest =>
        obtain ⟨t, ht, -, hrefines⟩ := Refines.frameReturn ⟨hchain, hsmall⟩ value
        cases happly
        obtain rfl := Option.some.inj (ht.symm.trans hrun)
        exact hrefines

/-- **A run**, by induction on the operations. -/
theorem Refines.run {ops : List FrameOp} {s s' : Vm} {acts acts' : List Activation}
    (h : Refines s acts) (happly : applyAll ops acts = some acts')
    (hrun : runFrames ops s = some s') : Refines s' acts' := by
  induction ops generalizing s acts with
  | nil =>
    cases happly
    cases hrun
    exact h
  | cons op ops ih =>
    obtain ⟨acts₁, hfirst, hrest⟩ := Option.bind_eq_some_iff.mp happly
    obtain ⟨s₁, hrun₁, hrunRest⟩ := Option.bind_eq_some_iff.mp hrun
    exact ih (h.step hfirst hrun₁) hrest hrunRest

/-! ## §4. Reading the live frames. -/

/-- From the stack pointer and the frame pointer up, following the saved frame pointers, the
accessors of `frame.c` read what the activations hold. -/
def ReadsBack (mem : Nat → Nat) : Nat → Nat → List Activation → Prop
  | _, fp, [] => fp = 0
  | sp, fp, a :: rest =>
    frameReceiver mem fp = a.receiver ∧ frameMethod mem fp = a.method ∧
      frameSavedIp mem fp = a.savedIp ∧ frameNumArgs mem fp = a.args.length ∧
      (∀ i (hi : i < a.args.reverse.length), frameArg mem fp i = a.args.reverse[i]) ∧
      (∀ i (hi : i < a.temps.length), frameTemp mem fp i = a.temps[i]) ∧
      (∀ i (hi : i < a.stack.length), mem (sp + i) = a.stack[i]) ∧
      ReadsBack mem (fp + 3 + frameNumArgs mem fp) (frameSavedFp mem fp) rest

theorem readsBack_of_chainAt {mem : Nat → Nat} {p : Nat} {acts : List Activation}
    (h : ChainAt mem p acts) (hsmall : ∀ a ∈ acts, a.args.length ≤ 255) :
    ReadsBack mem p (fpOf p acts) acts := by
  induction acts generalizing p with
  | nil => rfl
  | cons a rest ih =>
    obtain ⟨hheld, hcallers⟩ := h
    have ha := hsmall a List.mem_cons_self
    have hcount := hheld.numArgs ha
    have hnext : a.fpAt p + 3 + a.args.length = p + a.size := fpAt_lt p a
    refine ⟨hheld.receiver, hheld.method, hheld.savedIp, hcount,
      fun i hi => hheld.arg (by omega) hi, fun i hi => hheld.temp hi,
      fun i hi => hheld.stack.get hi, ?_⟩
    rw [fpOf_cons, hcount, hnext, hheld.savedFp]
    exact ih hcallers fun b hb => hsmall b (List.mem_cons_of_mem a hb)

/-- **Frames implement an activation stack.**  From any stack that holds activations, every
well-nested run of pushes, pops, activations, stores of temporaries and returns that does
not overflow ends with the words that hold the activations of the abstract run: each live
frame reads back, and a return puts the value in the place of the callee's receiver and
arguments, goes back to the caller's frame pointer and saved ip, and changes no other
word. -/
theorem frames_refine_activations {ops : List FrameOp} {s s' : Vm} {acts acts' : List Activation}
    (h : Refines s acts) (happly : applyAll ops acts = some acts')
    (hrun : runFrames ops s = some s') :
    Refines s' acts' ∧ ReadsBack s'.mem s'.sp s'.fp acts' ∧
      ∀ a caller rest value, acts' = a :: caller :: rest →
        ∃ t, frameReturn value s' = some t ∧ Returned s' value t ∧
          Refines t ({ caller with stack := value :: caller.stack } :: rest) ∧
          ReadsBack t.mem t.sp t.fp ({ caller with stack := value :: caller.stack } :: rest) := by
  have hrefines := h.run happly hrun
  have hreads : ∀ {t : Vm} {bs}, Refines t bs → ReadsBack t.mem t.sp t.fp bs := by
    intro t bs ht
    rw [ht.chain.fp]
    exact readsBack_of_chainAt ht.chain.held ht.small
  refine ⟨hrefines, hreads hrefines, ?_⟩
  rintro a caller rest value rfl
  obtain ⟨t, hreturn, hreturned, ht⟩ := hrefines.frameReturn value
  exact ⟨t, hreturn, hreturned, ht, hreads ht⟩

/-- A send with one argument to the receiver 5, and what its method does. -/
def sendAndStore : List FrameOp :=
  [.push 5, .push 6, .activate 3 8 1 2, .storeTemp 1 7, .push 9, .push 11, .pop]

/-- The activations it leaves: the callee with an operand, the caller with none. -/
def calleeAndCaller : List Activation :=
  [{ Activation.fresh 3 8 5 [6] 2 with temps := [0, 7], stack := [9] }, .fresh 0 8 21 [] 1]

theorem send_refines :
    ∃ s', runFrames sendAndStore oneFrame = some s' ∧ Refines s' calleeAndCaller ∧
      ∃ t, frameReturn 9 s' = some t ∧
        Refines t [{ Activation.fresh 0 8 21 [] 1 with stack := [9] }] := by
  have hstart : Refines oneFrame [.fresh 0 8 21 [] 1] :=
    ⟨oneFrame_chain, by decide⟩
  have happly : applyAll sendAndStore [.fresh 0 8 21 [] 1] = some calleeAndCaller :=
    rfl
  have hsome : (runFrames sendAndStore oneFrame).isSome = true := by decide +kernel
  obtain ⟨s', hrun⟩ := Option.isSome_iff_exists.mp hsome
  obtain ⟨hrefines, -, hreturns⟩ := frames_refine_activations hstart happly hrun
  obtain ⟨t, hreturn, -, ht, -⟩ := hreturns _ _ _ 9 rfl
  exact ⟨s', hrun, hrefines, t, hreturn, ht⟩

end LivingObjects.Stack
