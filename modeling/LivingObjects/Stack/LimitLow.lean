/-
  LivingObjects.Stack.LimitLow — stores below `smalltalk_stack_limit_low`.

  The interpreter with the addresses it stores to.  `activate_method` and
  `activate_context` look at the limit before they store; `push` does not, and neither do
  the callers of a block or a message from C, which push its receiver and arguments
  first.  `stores_above_limit` gives the conditions on the single steps under which a run
  stores nothing below the limit, and `push_below_limit` is a push without them.

  Addresses are byte addresses, so that NULL and the frame pointer 0xCAFE of a start
  outside the interpreter are values as any other.
-/
import Mathlib

namespace LivingObjects.Stack.LimitLow

/-! ## §1. The stack and its stores. -/

/-- A C function that waits for the loop it has started: its `saved_sp` and `saved_fp`, and
whether it leaves the result in the word below `saved_sp`. -/
structure Call where
  sp : Nat
  fp : Nat
  answers : Bool

/-- The stack of the interpreter.  `calls` are the waiting C functions, the innermost first,
and `stores` the addresses of the stores, the last first. -/
structure VmStack where
  mem : Nat → Nat
  sp : Nat
  fp : Nat
  limitLow : Nat
  calls : List Call
  stores : List Nat

namespace VmStack

def store (address value : Nat) (s : VmStack) : VmStack :=
  { s with mem := Function.update s.mem address value, stores := address :: s.stores }

/-- `push`. -/
def push (value : Nat) (s : VmStack) : VmStack := { s.store (s.sp - 8) value with sp := s.sp - 8 }

def pushAll : List Nat → VmStack → VmStack
  | [], s => s
  | v :: vs, s => pushAll vs (s.push v)

/-- Several values stored at falling addresses, from one address on. -/
def storeDown (address : Nat) : List Nat → VmStack → VmStack
  | [], s => s
  | v :: vs, s => storeDown (address - 8) vs (s.store address v)

/-- Several values stored at rising addresses. -/
def storeUp (address : Nat) : List Nat → VmStack → VmStack
  | [], s => s
  | v :: vs, s => storeUp (address + 8) vs (s.store address v)

end VmStack

/-- `frame_num_args`. -/
def frameNumArgs (mem : Nat → Nat) (fp : Nat) : Nat := (mem (fp - 16) >>> 8) &&& 0xFF

/-- `frame_has_context`. -/
def frameHasContext (mem : Nat → Nat) (fp : Nat) : Bool := mem (fp - 16) &&& 1 != 0

/-- `sp - words` on 64-bit pointers to words. -/
def below (sp words : Nat) : Nat := (sp + (2 ^ 64 - 8 * words % 2 ^ 64)) % 2 ^ 64

/-! ## §2. The routines; an error is the state in which `SIGTRAP` is raised. -/

/-- `activate_method`. -/
def activateMethod (savedIp method numArgs numTemps : Nat) (s : VmStack) :
    Except VmStack VmStack :=
  if below s.sp (numTemps + 6) < s.limitLow then .error s
  else
    let receiver := s.mem (s.sp + 8 * numArgs)
    .ok { s.pushAll ([savedIp, s.fp, method, numArgs <<< 8, 0, receiver]
      ++ List.replicate numTemps 0) with fp := s.sp - 16 }

/-- What `activate_context` reads of a context, its counts decoded. -/
structure SenderContext where
  oop : Nat
  receiver : Nat
  method : Nat
  flags : Nat
  numArgs : Nat
  numTemps : Nat
  stackSize : Nat
  vars : Nat → Nat

/-- The header and the temporaries of the frame, from the context. -/
def restoreFrame (ctx : SenderContext) (s : VmStack) : VmStack :=
  let flags := s.mem (s.fp - 16) ||| (1 ||| (ctx.flags &&& (0xFF <<< 16)))
  let s := (s.store (s.fp - 16) flags).store (s.fp - 16) (flags ^^^ (flags &&& 2))
  let s := s.store (s.fp - 24) ctx.oop
  s.storeDown (s.fp - 40) ((List.range ctx.numTemps).map fun i => ctx.vars (ctx.numArgs + i))

/-- The operands of the context, where it has any. -/
def restoreOperands (ctx : SenderContext) (s : VmStack) : Except VmStack VmStack :=
  if ctx.stackSize ≠ 0 then
    let newSp := below s.sp ctx.stackSize
    if newSp < s.limitLow then .error s
    else
      let operands := (List.range ctx.stackSize).map fun i =>
        ctx.vars (ctx.numArgs + ctx.numTemps + i)
      .ok { s.storeUp newSp operands with sp := newSp }
  else .ok s

/-- `activate_context`. -/
def activateContext (savedIp : Nat) (ctx : SenderContext) (s : VmStack) :
    Except VmStack VmStack :=
  if below s.sp (ctx.numArgs + 1 + ctx.stackSize) < s.limitLow then .error s
  else do
    let s := s.pushAll (ctx.receiver :: (List.range ctx.numArgs).map ctx.vars)
    let s ← activateMethod savedIp ctx.method ctx.numArgs ctx.numTemps s
    restoreOperands ctx (restoreFrame ctx s)

/-- `frame_return`; `sender` is the sender of the frame's context, where that is an
object. -/
def frameReturn (value : Nat) (sender : Option SenderContext) (s : VmStack) :
    Except VmStack VmStack :=
  let newSp := s.fp + 16 + 8 * frameNumArgs s.mem s.fp
  let callerFp := s.mem s.fp
  let hasContext := frameHasContext s.mem s.fp
  let s := s.store newSp value
  if callerFp ≠ 0 then .ok { s with fp := callerFp, sp := newSp }
  else
    match if hasContext then sender else none with
    | some ctx => do
      let s ← activateContext 0 ctx { s with sp := newSp, fp := 0 }
      return s.push value
    | none => .ok { s with fp := 0, sp := newSp }

/-- What is read of a block closure and its compiled method. -/
structure Block where
  oop : Nat
  homeReceiver : Nat
  method : Nat
  methodTemps : Nat
  copied : List Nat

/-- `populate_block_copied_values` and `mark_block_frame`. -/
def markBlockFrame (block : Block) (s : VmStack) : VmStack :=
  let s := s.storeDown (s.fp - 40) block.copied
  let s := s.store (s.fp - 16) (s.mem (s.fp - 16) ||| (1 <<< 16 ||| 2))
  s.store (s.fp - 24) block.oop

/-- `activate_block_call`. -/
def activateBlockCall (savedIp : Nat) (block : Block) (argCount : Nat) (s : VmStack) :
    Except VmStack VmStack := do
  let s := if argCount = 0 then ({ s with sp := s.sp + 8 } : VmStack).push block.homeReceiver
    else s.store (s.sp + 8 * argCount) block.homeReceiver
  let s ← activateMethod savedIp block.method argCount (block.methodTemps + block.copied.length) s
  return markBlockFrame block s

/-- `invoke_block_closure`; its caller keeps `keep` words on the stack less. -/
def invokeBlockClosure (savedIp : Nat) (block : Block) (args : List Nat) (keep : Nat)
    (answers : Bool) (s : VmStack) : Except VmStack VmStack :=
  let call : Call := { sp := s.sp + 8 * keep, fp := s.fp, answers }
  activateBlockCall savedIp block args.length
    { s.pushAll (block.oop :: args) with calls := call :: s.calls }

/-- `invoke_message_with_one_arg`. -/
def invokeMessage (receiver arg method numArgs numTemps : Nat) (s : VmStack) :
    Except VmStack VmStack :=
  let call : Call := { sp := s.sp, fp := s.fp, answers := false }
  activateMethod 0 method numArgs numTemps
    { s.pushAll [receiver, arg] with calls := call :: s.calls }

/-- The loop has returned to the innermost C function. -/
def leave (value : Nat) (s : VmStack) : Except VmStack VmStack :=
  match s.calls with
  | [] => .error s
  | c :: rest =>
    let s := { s with sp := c.sp, fp := c.fp, calls := rest }
    .ok (if c.answers then s.push value else s)

/-- `longjmp` to a C function further out. -/
def jumpOut (count : Nat) (s : VmStack) : Except VmStack VmStack :=
  match s.calls.drop count with
  | [] => .error s
  | c :: rest => .ok { s with sp := c.sp, fp := c.fp, calls := rest }

/-- The frame the `home_fp` loop has reached after some rounds. -/
def homeFp (mem : Nat → Nat) (fp : Nat) : Nat → Nat
  | 0 => fp
  | n + 1 => mem (homeFp mem fp n)

/-- `BC_RETURN_NON_LOCAL` where the home context belongs to a frame of the stack. -/
def returnNonLocal (rounds value : Nat) (s : VmStack) : Except VmStack VmStack :=
  let home := homeFp s.mem s.fp rounds
  let newSp := home + 16 + 8 * frameNumArgs s.mem home
  let callerFp := s.mem home
  .ok { s.store newSp value with sp := newSp, fp := callerFp }

/-- `resume_sender_context`. -/
def resumeSenderContext (value : Nat) (sender : SenderContext) (s : VmStack) :
    Except VmStack VmStack := do
  let s ← activateContext 0 sender { s with fp := 0 }
  return s.push value

/-- `BC_RETURN_NON_LOCAL` where there is nowhere to return to. -/
def cannotReturn (savedIp closure method numTemps value : Nat) (s : VmStack) :
    Except VmStack VmStack :=
  let sp := s.sp - 8
  activateMethod savedIp method 1 numTemps
    { (s.store sp value).store (sp + 8) closure with sp := sp }

/-- `ensure_frame_context_with_sp`: the frames from `fp` on get their contexts, the
outermost first, up to one that has a context or gets none. -/
def ensureContexts : List Nat → Nat → VmStack → VmStack
  | [], _, s => s
  | context :: contexts, fp, s =>
    if fp = 0 ∨ fp = 0xCAFE ∨ frameHasContext s.mem fp then s
    else
      let s := ensureContexts contexts (s.mem fp) s
      let s := s.store (fp - 24) context
      let flags := s.mem (fp - 16)
      let s := s.store (fp - 16) (flags ^^^ (flags &&& 2))
      s.store (fp - 16) (s.mem (fp - 16) ||| 1)

/-- The collector's new words go back into the slots. -/
def writeSlots (slots : List (Nat × Nat)) (s : VmStack) : VmStack :=
  slots.foldl (fun s slot => s.store slot.1 slot.2) s

/-! ## §3. Steps and runs. -/

/-- What a bytecode or a primitive does to the stack, with what it has read from the heap. -/
inductive Effect where
  /-- The push bytecodes and `BC_DUPLICATE`. -/
  | push (value : Nat)
  /-- `BC_POP`, the conditional jumps, `BC_STORE_INST_VAR`, `PRIM_PERFORM`, `on:do:`. -/
  | pop (count : Nat)
  /-- `BC_STORE_TEMP`. -/
  | storeTemp (index : Nat)
  /-- `replace_receiver` and its relatives: the result of a primitive. -/
  | replaceReceiver (argCount value : Nat)
  /-- `BC_SEND_MESSAGE`. -/
  | send (savedIp method argCount numTemps : Nat)
  /-- The `value` primitives. -/
  | callBlock (savedIp : Nat) (block : Block) (argCount : Nat)
  /-- `ensure:`, `on:do:`, the handlers and the transactions. -/
  | invokeBlock (savedIp : Nat) (block : Block) (args : List Nat) (keep : Nat) (answers : Bool)
  /-- `class_matches_exception`. -/
  | invokeMessage (receiver arg method numArgs numTemps : Nat)
  | leave (value : Nat)
  | jumpOut (count : Nat)
  /-- `BC_RETURN_STACK_TOP`. -/
  | returnTop (sender : Option SenderContext)
  | returnNonLocal (rounds : Nat)
  | resumeSender (sender : SenderContext)
  | cannotReturn (savedIp closure method numTemps : Nat)
  | ensureContexts (contexts : List Nat)
  | collect (slots : List (Nat × Nat))

/-- A step; an error is the state in which the VM stops. -/
def Effect.run (e : Effect) (s : VmStack) : Except VmStack VmStack :=
  match e with
  | .push value => .ok (s.push value)
  | .pop count => .ok { s with sp := s.sp + 8 * count }
  | .storeTemp index =>
    .ok { s.store (s.fp - (40 + 8 * index)) (s.mem s.sp) with sp := s.sp + 8 }
  | .replaceReceiver argCount value =>
    .ok { s.store (s.sp + 8 * argCount) value with sp := s.sp + 8 * argCount }
  | .send savedIp method argCount numTemps => activateMethod savedIp method argCount numTemps s
  | .callBlock savedIp block argCount => activateBlockCall savedIp block argCount s
  | .invokeBlock savedIp block args keep answers =>
    invokeBlockClosure savedIp block args keep answers s
  | .invokeMessage receiver arg method numArgs numTemps =>
    LimitLow.invokeMessage receiver arg method numArgs numTemps s
  | .leave value => LimitLow.leave value s
  | .jumpOut count => LimitLow.jumpOut count s
  | .returnTop sender => frameReturn (s.mem s.sp) sender s
  | .returnNonLocal rounds => LimitLow.returnNonLocal rounds (s.mem s.sp) s
  | .resumeSender sender => resumeSenderContext (s.mem s.sp) sender s
  | .cannotReturn savedIp closure method numTemps =>
    LimitLow.cannotReturn savedIp closure method numTemps (s.mem s.sp) s
  | .ensureContexts contexts => .ok (LimitLow.ensureContexts contexts s.fp s)
  | .collect slots => .ok (writeSlots slots s)

/-- Step after step, up to the end or to the one that stops the VM. -/
def runEffects : List Effect → VmStack → Except VmStack VmStack
  | [], s => .ok s
  | e :: es, s => (e.run s).bind (runEffects es)

/-- The state at the end, stopped or not. -/
def final : Except VmStack VmStack → VmStack
  | .ok s => s
  | .error s => s

/-! ## §4. The conditions on a step. -/

/-- NULL, and the frame pointer of a start outside the interpreter. -/
def Bottom (fp : Nat) : Prop := fp = 0 ∨ fp = 0xCAFE

/-- The frame belongs to the loop that runs, not to one that waits. -/
def InLoop (s : VmStack) (fp : Nat) : Prop := ¬ Bottom fp ∧ ∀ c ∈ s.calls.head?, fp < c.sp

/-- The running frame has so many operands and temporaries. -/
def HasWords (s : VmStack) (count : Nat) : Prop :=
  InLoop s s.fp ∧ s.sp + 8 * count + 32 ≤ s.fp

/-- There is room for so many words. -/
def Room (s : VmStack) (count : Nat) : Prop := s.limitLow + 8 * count ≤ s.sp

/-- So many words are no more bytes than there are addresses below `sp`. -/
def NoWrap (s : VmStack) (words : Nat) : Prop := 8 * words ≤ s.sp ∧ s.sp < 2 ^ 64

/-- The words of a context on the stack, its frame among them. -/
def SenderContext.words (ctx : SenderContext) : Nat :=
  ctx.numArgs + ctx.numTemps + ctx.stackSize + 7

/-- A frame of the running loop or of one that waits. -/
def LiveFrame (s : VmStack) (f : Nat) : Prop :=
  ∃ fp ∈ s.fp :: s.calls.map Call.fp, ∃ i, f = homeFp s.mem fp i

/-- A context that is laid out on the stack leaves a word for the value returned to it. -/
def ResumeRoom (ctx : SenderContext) (s : VmStack) : Prop :=
  NoWrap s ctx.words ∧ (Room s ctx.words → Room s (ctx.words + 1))

/-- **The condition on a step**, in the state before it. -/
def Effect.Fits (e : Effect) (s : VmStack) : Prop :=
  match e with
  | .push _ => Room s 1
  | .pop count => HasWords s count
  | .storeTemp index => HasWords s (index + 2)
  | .replaceReceiver argCount _ => HasWords s (argCount + 1)
  | .send _ _ argCount numTemps => HasWords s (argCount + 1) ∧ NoWrap s (numTemps + 6)
  | .callBlock _ block argCount =>
    HasWords s (argCount + 1) ∧ NoWrap s (block.methodTemps + block.copied.length + 6)
  | .invokeBlock _ block args keep _ =>
    HasWords s keep ∧ Room s (args.length + 1) ∧
      NoWrap s (args.length + 1 + (block.methodTemps + block.copied.length + 6))
  | .invokeMessage _ _ _ numArgs numTemps =>
    HasWords s 0 ∧ Room s 2 ∧ numArgs ≤ 1 ∧ NoWrap s (numTemps + 8)
  | .leave _ => True
  | .jumpOut _ => True
  | .returnTop sender => InLoop s s.fp ∧ ∀ ctx ∈ sender, ResumeRoom ctx
      { s with sp := s.fp + 16 + 8 * frameNumArgs s.mem s.fp }
  | .returnNonLocal rounds => ∀ i ≤ rounds, InLoop s (homeFp s.mem s.fp i)
  | .resumeSender sender => ResumeRoom sender s
  | .cannotReturn _ _ _ numTemps => HasWords s 1 ∧ Room s 1 ∧ NoWrap s (numTemps + 7)
  | .ensureContexts _ => True
  | .collect slots => ∀ slot ∈ slots, s.sp ≤ slot.1 ∧
      ∀ f, LiveFrame s f → slot.1 ≠ f ∧ slot.1 ≠ f - 16

/-- Every step meets its condition in the state it finds. -/
def AllFit : List Effect → VmStack → Prop
  | [], _ => True
  | e :: es, s => e.Fits s ∧ ∀ s', e.run s = .ok s' → AllFit es s'

/-! ## §5. The frames that are returned to. -/

/-- From `sp` and `fp` up: the frames of the running loop, and the waiting C functions, each
with the frames of the loop it belongs to. -/
inductive Live (mem : Nat → Nat) (limit : Nat) :
    Nat → Nat → List Nat → List (Call × List Nat) → Prop
  | bottom {sp fp : Nat} (hfp : Bottom fp) : Live mem limit sp fp [] []
  | entered {sp fp : Nat} {c : Call} {frames : List Nat} {outer : List (Call × List Nat)}
      (hsp : sp ≤ c.sp) (hfp : fp = c.fp ∨ Bottom fp) (hroom : limit + 8 ≤ c.sp)
      (hrunning : frames ≠ []) (hrest : Live mem limit c.sp c.fp frames outer) :
      Live mem limit sp fp [] ((c, frames) :: outer)
  | frame {sp f : Nat} {frames : List Nat} {outer : List (Call × List Nat)}
      (hsp : sp + 32 ≤ f)
      (hrest : Live mem limit (f + 24 + 8 * frameNumArgs mem f) (mem f) frames outer) :
      Live mem limit sp f (f :: frames) outer

/-- The walk from the caller is the walk from the frame, one round on. -/
theorem homeFp_succ (mem : Nat → Nat) (f i : Nat) : homeFp mem (mem f) i = homeFp mem f (i + 1) := by
  induction i with
  | zero => rfl
  | succ i ih => exact congrArg mem ih

/-- All the frames, the innermost first. -/
def allFrames (frames : List Nat) (outer : List (Call × List Nat)) : List Nat :=
  frames ++ outer.flatMap Prod.snd

namespace Live

variable {mem mem' : Nat → Nat} {limit sp fp : Nat} {frames : List Nat}
variable {outer : List (Call × List Nat)}

/-- The stack pointer may lie lower. -/
theorem lower {sp' : Nat} (h : Live mem limit sp fp frames outer) (hsp : sp' ≤ sp) :
    Live mem limit sp' fp frames outer := by
  cases h with
  | bottom hfp => exact .bottom hfp
  | entered hle hfp hroom hrunning hrest => exact .entered (by omega) hfp hroom hrunning hrest
  | frame hle hrest => exact .frame (by omega) hrest

theorem above (h : Live mem limit sp fp frames outer) :
    ∀ f ∈ allFrames frames outer, sp + 32 ≤ f := by
  induction h with
  | bottom hfp => intro f hf; cases hf
  | @entered sp fp c frames outer hle hfp hroom hrunning hrest ih =>
    intro f hf
    have hlater := ih f hf
    omega
  | @frame sp f frames outer hle hrest ih =>
    intro g hg
    rcases List.mem_cons.mp hg with rfl | hg
    · exact hle
    · have hlater := ih g hg
      omega

/-- Their headers and their arguments lie between them. -/
theorem apart (h : Live mem limit sp fp frames outer) :
    (allFrames frames outer).Pairwise fun f g => f + 56 ≤ g := by
  induction h with
  | bottom hfp => exact List.Pairwise.nil
  | entered hle hfp hroom hrunning hrest ih => exact ih
  | @frame sp f frames outer hle hrest ih =>
    refine List.Pairwise.cons (fun g hg => ?_) ih
    have hlater := hrest.above g hg
    omega

theorem disjoint (h : Live mem limit sp fp frames outer) {f g : Nat}
    (hf : f ∈ allFrames frames outer) (hg : g ∈ allFrames frames outer) :
    f = g ∨ f + 56 ≤ g ∨ g + 56 ≤ f := by
  have hapart := h.apart
  generalize allFrames frames outer = all at hf hg hapart
  induction all with
  | nil => cases hf
  | cons x xs ih =>
    rw [List.pairwise_cons] at hapart
    rcases List.mem_cons.mp hf with rfl | hf' <;> rcases List.mem_cons.mp hg with rfl | hg'
    · exact Or.inl rfl
    · exact Or.inr (Or.inl (hapart.1 g hg'))
    · exact Or.inr (Or.inr (hapart.1 f hf'))
    · exact ih hf' hg' hapart.2

/-- Stores that leave the saved frame pointers and the argument counts alone. -/
theorem congr (h : Live mem limit sp fp frames outer)
    (hsame : ∀ f ∈ allFrames frames outer,
      mem' f = mem f ∧ frameNumArgs mem' f = frameNumArgs mem f) :
    Live mem' limit sp fp frames outer := by
  induction h with
  | bottom hfp => exact .bottom hfp
  | entered hle hfp hroom hrunning hrest ih => exact .entered hle hfp hroom hrunning (ih hsame)
  | @frame sp f frames outer hle hrest ih =>
    obtain ⟨hsaved, hcount⟩ := hsame f List.mem_cons_self
    refine .frame hle ?_
    rw [hsaved, hcount]
    exact ih fun g hg => hsame g (List.mem_cons_of_mem f hg)

/-- Stores below the stack pointer. -/
theorem congr_above (h : Live mem limit sp fp frames outer)
    (hsame : ∀ a, sp ≤ a → mem' a = mem a) : Live mem' limit sp fp frames outer := by
  refine h.congr fun f hf => ?_
  have hle := h.above f hf
  refine ⟨hsame f (by omega), ?_⟩
  unfold frameNumArgs
  rw [hsame (f - 16) (by omega)]

/-- A store that hits neither a saved frame pointer nor flags. -/
theorem congr_store (h : Live mem limit sp fp frames outer) {a v : Nat}
    (ha : ∀ f ∈ allFrames frames outer, a ≠ f ∧ a ≠ f - 16) :
    Live (Function.update mem a v) limit sp fp frames outer := by
  refine h.congr fun f hf => ?_
  obtain ⟨hfirst, hflags⟩ := ha f hf
  refine ⟨Function.update_of_ne (Ne.symm hfirst) v mem, ?_⟩
  unfold frameNumArgs
  rw [Function.update_of_ne (Ne.symm hflags) v mem]

/-- The running frame is the first of the loop. -/
theorem running (h : Live mem limit sp fp frames outer) (hbottom : ¬ Bottom fp)
    (hcall : ∀ c ∈ (outer.map Prod.fst).head?, fp < c.sp) :
    ∃ rest, frames = fp :: rest ∧ sp + 32 ≤ fp ∧
      Live mem limit (fp + 24 + 8 * frameNumArgs mem fp) (mem fp) rest outer := by
  cases h with
  | bottom hfp => exact absurd hfp hbottom
  | @entered _ _ c fs outer hle hfp hroom hrunning hrest =>
    rcases hfp with rfl | hfp
    · have hlt : c.fp < c.sp := hcall c rfl
      cases hrest with
      | bottom _ => exact absurd rfl hrunning
      | entered _ _ _ _ _ => exact absurd rfl hrunning
      | frame hle' _ => omega
    · exact absurd hfp hbottom
  | frame hle hrest => exact ⟨_, rfl, hle, hrest⟩

theorem first_le (h : Live mem limit sp fp (fp :: frames) outer) :
    ∀ f ∈ allFrames (fp :: frames) outer, fp ≤ f := by
  intro f hf
  have hapart := h.apart
  rw [allFrames, List.cons_append, List.pairwise_cons] at hapart
  rcases List.mem_cons.mp hf with rfl | hf
  · exact Nat.le_refl f
  · have hlater := hapart.1 f hf
    omega

/-- New flags of a frame, with the same argument count. -/
theorem setFlags (h : Live mem limit sp fp frames outer) {f flags : Nat}
    (hf : f ∈ allFrames frames outer) (hflags : (flags >>> 8) &&& 0xFF = frameNumArgs mem f) :
    Live (Function.update mem (f - 16) flags) limit sp fp frames outer := by
  refine h.congr fun g hg => ?_
  have hfle := h.above f hf
  have hgle := h.above g hg
  have hfg := h.disjoint hf hg
  refine ⟨Function.update_of_ne (by omega) flags mem, ?_⟩
  unfold frameNumArgs
  by_cases hsame : g = f
  · rw [hsame, Function.update_self]
    exact hflags
  · rw [Function.update_of_ne (by omega) flags mem]

/-- The frames of the loop may be given up. -/
theorem abandon {fp' : Nat} (h : Live mem limit sp fp frames outer) (hfp : Bottom fp') :
    Live mem limit sp fp' [] outer := by
  induction h with
  | bottom _ => exact .bottom hfp
  | entered hle _ hroom hrunning hrest _ => exact .entered hle (Or.inr hfp) hroom hrunning hrest
  | frame hle hrest ih => exact ih.lower (by omega)

/-- No frame starts at NULL. -/
theorem of_null (h : Live mem limit sp 0 frames outer) : frames = [] := by
  cases h with
  | bottom _ => rfl
  | entered _ _ _ _ _ => rfl
  | frame hle _ => omega

/-- The walk for the home frame, within the loop. -/
theorem walk (h : Live mem limit sp fp frames outer) {rounds : Nat}
    (hin : ∀ i ≤ rounds, ¬ Bottom (homeFp mem fp i) ∧
      ∀ c ∈ (outer.map Prod.fst).head?, homeFp mem fp i < c.sp) :
    ∃ sp' rest, sp ≤ sp' ∧ Live mem limit sp' (homeFp mem fp rounds) rest outer := by
  induction rounds with
  | zero => exact ⟨sp, frames, Nat.le_refl sp, h⟩
  | succ n ih =>
    obtain ⟨sp', rest, hle, hlive⟩ := ih fun i hi => hin i (Nat.le_succ_of_le hi)
    obtain ⟨hbottom, hcall⟩ := hin n (Nat.le_succ n)
    obtain ⟨rest', -, hheader, hnext⟩ := hlive.running hbottom hcall
    exact ⟨_, rest', by omega, hnext⟩

/-- A waiting C function, with what is below it. -/
theorem waiting {c : Call} {fs : List Nat} {rest : List (Call × List Nat)} {count : Nat}
    (h : Live mem limit sp fp frames outer) (hdrop : outer.drop count = (c, fs) :: rest) :
    limit + 8 ≤ c.sp ∧ Live mem limit c.sp c.fp fs rest := by
  induction h generalizing count with
  | bottom _ =>
    rw [List.drop_nil] at hdrop
    cases hdrop
  | entered _ _ hroom _ hrest ih =>
    cases count with
    | zero =>
      cases hdrop
      exact ⟨hroom, hrest⟩
    | succ count => exact ih hdrop
  | frame _ _ ih => exact ih hdrop

/-- A saved frame pointer is that of a frame, or there is none. -/
theorem next (h : Live mem limit sp fp frames outer) :
    (Bottom fp ∨ fp ∈ allFrames frames outer) ∧
      ∀ f ∈ allFrames frames outer, Bottom (mem f) ∨ mem f ∈ allFrames frames outer := by
  induction h with
  | bottom hfp => exact ⟨Or.inl hfp, fun f hf => by cases hf⟩
  | entered hle hfp hroom hrunning hrest ih =>
    refine ⟨?_, ih.2⟩
    rcases hfp with rfl | hfp
    · exact ih.1
    · exact Or.inl hfp
  | @frame sp f frames outer hle hrest ih =>
    refine ⟨Or.inr List.mem_cons_self, fun g hg => ?_⟩
    rcases List.mem_cons.mp hg with rfl | hg
    · exact ih.1.imp_right (List.mem_cons_of_mem g)
    · exact (ih.2 g hg).imp_right (List.mem_cons_of_mem f)

/-- They are what the walks along the saved frame pointers find. -/
theorem walked (h : Live mem limit sp fp frames outer) :
    ∀ f ∈ allFrames frames outer,
      ∃ g ∈ fp :: outer.map (fun c => c.1.fp), ∃ i, f = homeFp mem g i := by
  induction h with
  | bottom hfp => intro f hf; cases hf
  | entered hle hfp hroom hrunning hrest ih =>
    intro f hf
    obtain ⟨g, hg, hwalk⟩ := ih f hf
    exact ⟨g, List.mem_cons_of_mem _ hg, hwalk⟩
  | @frame sp f frames outer hle hrest ih =>
    intro x hx
    rcases List.mem_cons.mp hx with rfl | hx
    · exact ⟨x, List.mem_cons_self, 0, rfl⟩
    · obtain ⟨g, hg, i, rfl⟩ := ih x hx
      rcases List.mem_cons.mp hg with rfl | hg
      · exact ⟨f, List.mem_cons_self, i + 1, homeFp_succ mem f i⟩
      · exact ⟨g, List.mem_cons_of_mem f hg, i, rfl⟩

end Live

/-! ## §6. The invariant. -/

variable {limit : Nat}

/-- The limit is as it was, and nothing has been stored below it. -/
def Above (limit : Nat) (s : VmStack) : Prop := s.limitLow = limit ∧ ∀ a ∈ s.stores, limit ≤ a

/-- **The invariant**: the stack pointer stands at the limit or above, and the frames that
are returned to lie above it. -/
structure Sound (limit : Nat) (s : VmStack) : Prop where
  room : s.limitLow ≤ s.sp
  above : Above limit s
  live : ∃ frames outer, s.calls = outer.map Prod.fst ∧
    Live s.mem s.limitLow s.sp s.fp frames outer

/-- How a routine ends: in one state, or with a trap in another. -/
def Ends (r : Except VmStack VmStack) (Q R : VmStack → Prop) : Prop :=
  match r with
  | .ok s => Q s
  | .error s => R s

theorem Ends.bind {r : Except VmStack VmStack} {f : VmStack → Except VmStack VmStack}
    {Q Q' R : VmStack → Prop} (h : Ends r Q R) (hf : ∀ s, Q s → Ends (f s) Q' R) :
    Ends (r.bind f) Q' R := by
  cases r with
  | ok s => exact hf s h
  | error s => exact h

theorem Ends.imp {r : Except VmStack VmStack} {Q Q' R R' : VmStack → Prop} (h : Ends r Q R)
    (hQ : ∀ s, Q s → Q' s) (hR : ∀ s, R s → R' s) : Ends r Q' R' := by
  cases r with
  | ok s => exact hQ s h
  | error s => exact hR s h

/-! ## §7. Stores. -/

/-- One stack is the other with stores from an address up to another, below which none
is. -/
structure Stored (lo hi : Nat) (s s' : VmStack) : Prop where
  mem : ∀ a, a < lo ∨ hi ≤ a → s'.mem a = s.mem a
  stores : ∀ a ∈ s'.stores, a ∈ s.stores ∨ lo ≤ a
  limitLow : s'.limitLow = s.limitLow
  calls : s'.calls = s.calls

namespace Stored

variable {lo hi : Nat} {s s' s'' : VmStack}

theorem refl (lo hi : Nat) (s : VmStack) : Stored lo hi s s :=
  ⟨fun _ _ => rfl, fun _ ha => Or.inl ha, rfl, rfl⟩

theorem trans (h : Stored lo hi s s') (h' : Stored lo hi s' s'') : Stored lo hi s s'' := by
  refine ⟨fun a ha => (h'.mem a ha).trans (h.mem a ha), fun a ha => ?_,
    h'.limitLow.trans h.limitLow, h'.calls.trans h.calls⟩
  rcases h'.stores a ha with ha | ha
  · exact h.stores a ha
  · exact Or.inr ha

theorem widen {lo' hi' : Nat} (h : Stored lo hi s s') (hlo : lo' ≤ lo) (hhi : hi ≤ hi') :
    Stored lo' hi' s s' := by
  refine ⟨fun a ha => h.mem a (by omega), fun a ha => ?_, h.limitLow, h.calls⟩
  rcases h.stores a ha with ha | ha
  · exact Or.inl ha
  · exact Or.inr (by omega)

theorem above (h : Stored lo hi s s') (hs : Above limit s) (hlo : s.limitLow ≤ lo) : Above limit s' := by
  refine ⟨h.limitLow.trans hs.1, fun a ha => ?_⟩
  rw [hs.1] at hlo
  rcases h.stores a ha with ha | ha
  · exact hs.2 a ha
  · omega

theorem store {a : Nat} (v : Nat) (hlo : lo ≤ a) (hhi : a < hi) :
    Stored lo hi s (s.store a v) := by
  refine ⟨fun b hb => ?_, fun b hb => ?_, rfl, rfl⟩
  · have hne : b ≠ a := by omega
    exact Function.update_of_ne hne v s.mem
  rcases List.mem_cons.mp hb with rfl | hb
  · exact Or.inr hlo
  · exact Or.inl hb

end Stored

theorem storeDown_stored {a lo hi : Nat} {vs : List Nat} {s : VmStack} (ha : a < hi)
    (hlo : lo + 8 * vs.length ≤ a + 8) : Stored lo hi s (s.storeDown a vs) := by
  induction vs generalizing a s with
  | nil => exact Stored.refl lo hi s
  | cons v vs ih =>
    rw [List.length_cons] at hlo
    have hfirst : Stored lo hi s (s.store a v) := Stored.store v (by omega) ha
    cases vs with
    | nil => exact hfirst
    | cons w ws =>
      rw [List.length_cons] at hlo ih
      exact hfirst.trans (ih (by omega) (by omega))

theorem storeUp_stored {a lo hi : Nat} {vs : List Nat} {s : VmStack} (ha : lo ≤ a)
    (hhi : a + 8 * vs.length ≤ hi) : Stored lo hi s (s.storeUp a vs) := by
  induction vs generalizing a s with
  | nil => exact Stored.refl lo hi s
  | cons v vs ih =>
    rw [List.length_cons] at hhi
    have hfirst : Stored lo hi s (s.store a v) := Stored.store v ha (by omega)
    exact hfirst.trans (ih (by omega) (by omega))

@[simp] theorem storeDown_sp (a : Nat) (vs : List Nat) (s : VmStack) :
    (s.storeDown a vs).sp = s.sp ∧ (s.storeDown a vs).fp = s.fp := by
  induction vs generalizing a s with
  | nil => exact ⟨rfl, rfl⟩
  | cons v vs ih => exact ih (a - 8) (s.store a v)

@[simp] theorem storeUp_fp (a : Nat) (vs : List Nat) (s : VmStack) :
    (s.storeUp a vs).fp = s.fp := by
  induction vs generalizing a s with
  | nil => rfl
  | cons v vs ih => exact ih (a + 8) (s.store a v)

/-- Pushes. -/
theorem pushAll_stored {vs : List Nat} {s : VmStack} (hsp : 8 * vs.length ≤ s.sp) :
    Stored (s.sp - 8 * vs.length) s.sp s (s.pushAll vs) ∧
      (s.pushAll vs).sp = s.sp - 8 * vs.length ∧ (s.pushAll vs).fp = s.fp := by
  induction vs generalizing s with
  | nil => exact ⟨Stored.refl _ _ s, rfl, rfl⟩
  | cons v vs ih =>
    rw [List.length_cons] at hsp
    have hpush : (s.push v).sp = s.sp - 8 := rfl
    obtain ⟨hrest, hsp', hfp⟩ := @ih (s.push v) (by omega)
    have hfirst : Stored (s.sp - 8 * (vs.length + 1)) s.sp s (s.push v) := by
      have hstore : Stored (s.sp - 8 * (vs.length + 1)) s.sp s (s.store (s.sp - 8) v) :=
        Stored.store v (by omega) (by omega)
      exact ⟨hstore.mem, hstore.stores, rfl, rfl⟩
    refine ⟨hfirst.trans (hrest.widen ?_ ?_), ?_, hfp⟩
    · rw [hpush]
      omega
    · rw [hpush]
      omega
    · show (VmStack.pushAll vs (s.push v)).sp = _
      rw [hsp', hpush, List.length_cons]
      omega

theorem pushAll_get {vs : List Nat} {s : VmStack} (hsp : 8 * vs.length ≤ s.sp) {i : Nat}
    (hi : i < vs.length) : (s.pushAll vs).mem (s.sp - 8 * (i + 1)) = vs[i] := by
  induction vs generalizing s i with
  | nil => cases hi
  | cons v vs ih =>
    rw [List.length_cons] at hsp hi
    have hpush : (s.push v).sp = s.sp - 8 := rfl
    cases i with
    | zero =>
      have hlater := (@pushAll_stored vs (s.push v) (by omega)).1.mem (s.sp - 8)
        (Or.inr (Nat.le_refl _))
      show (VmStack.pushAll vs (s.push v)).mem (s.sp - 8) = v
      rw [hlater]
      exact Function.update_self _ _ _
    | succ i =>
      have hget := @ih (s.push v) (by omega) i (by omega)
      rw [hpush, Nat.sub_sub, show 8 + 8 * (i + 1) = 8 * (i + 1 + 1) by omega] at hget
      exact hget

/-! ## §8. Activations. -/

theorem below_eq {sp words : Nat} (hle : 8 * words ≤ sp) (hsp : sp < 2 ^ 64) :
    below sp words = sp - 8 * words := by
  unfold below
  omega

/-- A frame has been laid out below the stack pointer, with some arguments above it. -/
structure Entered (s s' : VmStack) (numArgs words : Nat) : Prop where
  stored : Stored s'.sp s.sp s s'
  sp : s'.sp + 8 * words = s.sp
  fp : s'.fp + 16 = s.sp
  header : s'.sp + 32 ≤ s'.fp
  room : s.limitLow ≤ s'.sp
  savedFp : s'.mem s'.fp = s.fp
  numArgs : frameNumArgs s'.mem s'.fp = numArgs % 256

theorem and_0xFF (n : Nat) : n &&& 0xFF = n % 256 := Nat.and_two_pow_sub_one_eq_mod n 8

/-- **`activate_method`** looks before it stores. -/
theorem activateMethod_ends {savedIp method numArgs numTemps : Nat} {s : VmStack}
    (hwrap : NoWrap s (numTemps + 6)) :
    Ends (activateMethod savedIp method numArgs numTemps s)
      (fun s' => Entered s s' numArgs (numTemps + 6)) (fun s' => s' = s) := by
  obtain ⟨hle, hsp⟩ := hwrap
  have hbelow := below_eq hle hsp
  unfold activateMethod
  rw [hbelow]
  split
  · exact rfl
  · next hroom =>
    dsimp only
    generalize hwords : [savedIp, s.fp, method, numArgs <<< 8, 0, s.mem (s.sp + 8 * numArgs)]
      ++ List.replicate numTemps 0 = words
    have hlength : words.length = numTemps + 6 := by
      rw [← hwords, List.length_append, List.length_replicate]
      exact Nat.add_comm 6 numTemps
    obtain ⟨hstored, hsp', -⟩ := @pushAll_stored words s (by omega)
    rw [hlength] at hstored hsp'
    have hfp : (s.pushAll words).mem (s.sp - 16) = s.fp := by
      have hget := @pushAll_get words s (by omega) 1 (by omega)
      rw [hget]
      subst hwords
      rfl
    have hflags : (s.pushAll words).mem (s.sp - 32) = numArgs <<< 8 := by
      have hget := @pushAll_get words s (by omega) 3 (by omega)
      rw [hget]
      subst hwords
      rfl
    show Entered s { s.pushAll words with fp := s.sp - 16 } numArgs (numTemps + 6)
    refine ⟨?_, ?_, ?_, ?_, ?_, hfp, ?_⟩
    · show Stored (s.pushAll words).sp s.sp s _
      rw [hsp']
      exact ⟨hstored.mem, hstored.stores, hstored.limitLow, hstored.calls⟩
    · show (s.pushAll words).sp + _ = _
      omega
    · show s.sp - 16 + 16 = s.sp
      omega
    · show (s.pushAll words).sp + 32 ≤ s.sp - 16
      omega
    · show s.limitLow ≤ (s.pushAll words).sp
      omega
    · show ((s.pushAll words).mem (s.sp - 16 - 16) >>> 8) &&& 0xFF = _
      rw [Nat.sub_sub, hflags, Nat.shiftLeft_shiftRight, and_0xFF]

/-- The flags a context gives back to its frame do not reach the argument count. -/
theorem savedFlags_count (saved : Nat) :
    ((1 ||| (saved &&& (0xFF <<< 16))) >>> 8) &&& 0xFF = 0 := by
  rw [Nat.shiftRight_or_distrib, Nat.and_or_distrib_right, Nat.shiftRight_and_distrib,
    Nat.and_assoc, show (0xFF <<< 16) >>> 8 &&& 0xFF = 0 by decide, Nat.and_zero]
  rfl

theorem clearClosure_count (flags : Nat) :
    ((flags ^^^ (flags &&& 2)) >>> 8) &&& 0xFF = (flags >>> 8) &&& 0xFF := by
  rw [Nat.shiftRight_xor_distrib, Nat.and_xor_distrib_right, Nat.shiftRight_and_distrib,
    show 2 >>> 8 = 0 by decide, Nat.and_zero, Nat.zero_and, Nat.xor_zero]

namespace Entered

variable {s s' t : VmStack} {numArgs words : Nat}

/-- Stores in the frame below its flags. -/
theorem fill (h : Entered s s' numArgs words) (hstored : Stored s'.sp (s'.fp - 16) s' t)
    (hsp : t.sp = s'.sp) (hfp : t.fp = s'.fp) : Entered s t numArgs words := by
  have hlow := h.sp
  have hhigh := h.fp
  have hheader := h.header
  refine ⟨?_, hsp ▸ h.sp, hfp ▸ h.fp, ?_, ?_, ?_, ?_⟩
  · rw [hsp]
    exact h.stored.trans (hstored.widen (Nat.le_refl _) (by omega))
  · rw [hsp, hfp]
    exact h.header
  · rw [hsp]
    exact h.room
  · rw [hfp, hstored.mem _ (Or.inr (by omega))]
    exact h.savedFp
  · unfold frameNumArgs
    rw [hfp, hstored.mem _ (Or.inr (Nat.le_refl _))]
    exact h.numArgs

/-- A store of flags with the same argument count. -/
theorem setFlags (h : Entered s s' numArgs words) (flags : Nat)
    (hflags : (flags >>> 8) &&& 0xFF = numArgs % 256) :
    Entered s (s'.store (s'.fp - 16) flags) numArgs words := by
  have hlow := h.sp
  have hhigh := h.fp
  have hheader := h.header
  refine ⟨?_, h.sp, h.fp, h.header, h.room, ?_, ?_⟩
  · have hstore : Stored s'.sp s.sp s' (s'.store (s'.fp - 16) flags) :=
      Stored.store flags (by omega) (by omega)
    exact h.stored.trans hstore
  · have hne : s'.fp ≠ s'.fp - 16 := by omega
    exact (Function.update_of_ne hne flags s'.mem).trans h.savedFp
  · show (Function.update s'.mem (s'.fp - 16) flags (s'.fp - 16) >>> 8) &&& 0xFF = _
    rw [Function.update_self]
    exact hflags

/-- More flags. -/
theorem mark (h : Entered s s' numArgs words) {mask : Nat} (hmask : (mask >>> 8) &&& 0xFF = 0) :
    Entered s (s'.store (s'.fp - 16) (s'.mem (s'.fp - 16) ||| mask)) numArgs words := by
  refine h.setFlags _ ?_
  rw [Nat.shiftRight_or_distrib, Nat.and_or_distrib_right, hmask, Nat.or_zero]
  exact h.numArgs

theorem setContext (h : Entered s s' numArgs words) (context : Nat) :
    Entered s (s'.store (s'.fp - 24) context) numArgs words := by
  have hheader := h.header
  have hstore : Stored s'.sp (s'.fp - 16) s' (s'.store (s'.fp - 24) context) :=
    Stored.store context (by omega) (by omega)
  exact h.fill hstore rfl rfl

/-- Stores of the temporaries. -/
theorem fillTemps {numTemps : Nat} (h : Entered s s' numArgs (numTemps + 6)) {vs : List Nat}
    (hvs : vs.length ≤ numTemps) :
    Entered s (s'.storeDown (s'.fp - 40) vs) numArgs (numTemps + 6) := by
  have hlow := h.sp
  have hhigh := h.fp
  have hstored : Stored s'.sp (s'.fp - 16) s' (s'.storeDown (s'.fp - 40) vs) :=
    storeDown_stored (by omega) (by omega)
  obtain ⟨hsp, hfp⟩ := storeDown_sp (s'.fp - 40) vs s'
  exact h.fill hstored hsp hfp

/-- `populate_block_copied_values` and `mark_block_frame` stay within the frame. -/
theorem markBlockFrame {block : Block} {methodTemps : Nat}
    (h : Entered s s' numArgs (methodTemps + block.copied.length + 6)) :
    Entered s (LimitLow.markBlockFrame block s') numArgs
      (methodTemps + block.copied.length + 6) := by
  have hcopied := h.fillTemps (Nat.le_add_left block.copied.length methodTemps)
  have hmask : ((1 <<< 16 ||| 2) >>> 8) &&& 0xFF = 0 := by decide
  exact (hcopied.mark hmask).setContext block.oop

/-- So do the stores of `activate_context` in its frame. -/
theorem restoreFrame {ctx : SenderContext} (h : Entered s s' numArgs (ctx.numTemps + 6)) :
    Entered s (LimitLow.restoreFrame ctx s') numArgs (ctx.numTemps + 6) := by
  have hmarked := h.mark (savedFlags_count ctx.flags)
  unfold LimitLow.restoreFrame
  dsimp only
  generalize s'.mem (s'.fp - 16) ||| (1 ||| (ctx.flags &&& (0xFF <<< 16))) = flags at hmarked ⊢
  have hcount : (flags >>> 8) &&& 0xFF = numArgs % 256 := by
    have hat := hmarked.numArgs
    unfold frameNumArgs at hat
    rw [show (s'.store (s'.fp - 16) flags).mem ((s'.store (s'.fp - 16) flags).fp - 16) = flags from
      Function.update_self _ _ _] at hat
    exact hat
  have hcleared := (hmarked.setFlags (flags ^^^ (flags &&& 2))
    ((clearClosure_count flags).trans hcount)).setContext ctx.oop
  exact hcleared.fillTemps (by rw [List.length_map, List.length_range])

/-- Operands pushed below the frame. -/
theorem grow (h : Entered s s' numArgs words) {more : Nat}
    (hstored : Stored t.sp s'.sp s' t) (hsp : t.sp + 8 * more = s'.sp) (hfp : t.fp = s'.fp)
    (hroom : s.limitLow ≤ t.sp) : Entered s t numArgs (words + more) := by
  have hlow := h.sp
  have hhigh := h.fp
  have hheader := h.header
  refine ⟨?_, by omega, hfp ▸ h.fp, by omega, hroom, ?_, ?_⟩
  · exact (h.stored.widen (by omega) (Nat.le_refl _)).trans
      (hstored.widen (Nat.le_refl _) (by omega))
  · rw [hfp, hstored.mem _ (Or.inr (by omega))]
    exact h.savedFp
  · unfold frameNumArgs
    rw [hfp, hstored.mem _ (Or.inr (by omega))]
    exact h.numArgs

/-- The operands of a context, if they fit. -/
theorem restoreOperands {ctx : SenderContext} (h : Entered s s' numArgs words)
    (hfits : 8 * ctx.stackSize ≤ s'.sp) (hsp : s'.sp < 2 ^ 64) :
    Ends (LimitLow.restoreOperands ctx s')
      (fun t => Entered s t numArgs (words + ctx.stackSize)) (fun t => t = s') := by
  unfold LimitLow.restoreOperands
  rw [below_eq hfits hsp]
  dsimp only
  split
  · split
    · exact rfl
    next hroom =>
    generalize hoperands : (List.range ctx.stackSize).map (fun i =>
      ctx.vars (ctx.numArgs + ctx.numTemps + i)) = operands
    have hlength : operands.length = ctx.stackSize := by
      rw [← hoperands, List.length_map, List.length_range]
    have hstored : Stored (s'.sp - 8 * ctx.stackSize) s'.sp s'
        (s'.storeUp (s'.sp - 8 * ctx.stackSize) operands) :=
      storeUp_stored (Nat.le_refl _) (by omega)
    have hlimitLow := h.stored.limitLow
    exact h.grow (t := { s'.storeUp (s'.sp - 8 * ctx.stackSize) operands with
        sp := s'.sp - 8 * ctx.stackSize })
      ⟨hstored.mem, hstored.stores, hstored.limitLow, hstored.calls⟩
      (Nat.sub_add_cancel hfits) (storeUp_fp _ _ s') (by
        show s.limitLow ≤ s'.sp - 8 * ctx.stackSize
        omega)
  · next hnone =>
    have hzero : ctx.stackSize = 0 := Decidable.not_not.mp hnone
    rw [hzero]
    exact h

/-- **The new frame is one more that is returned to.** -/
theorem live (h : Entered s s' numArgs words) {frames : List Nat}
    {outer : List (Call × List Nat)}
    (hrest : Live s.mem s.limitLow (s.sp + 8 + 8 * (numArgs % 256)) s.fp frames outer) :
    Live s'.mem s'.limitLow s'.sp s'.fp (s'.fp :: frames) outer := by
  have hhigh := h.fp
  refine .frame h.header ?_
  rw [h.savedFp, h.numArgs, h.stored.limitLow,
    show s'.fp + 24 + 8 * (numArgs % 256) = s.sp + 8 + 8 * (numArgs % 256) by omega]
  exact hrest.congr_above fun a ha => h.stored.mem a (Or.inr (by omega))

theorem sound (h : Entered s s' numArgs words) (habove : Above limit s) {frames : List Nat}
    {outer : List (Call × List Nat)} (hcalls : s.calls = outer.map Prod.fst)
    (hrest : Live s.mem s.limitLow (s.sp + 8 + 8 * (numArgs % 256)) s.fp frames outer) :
    Sound limit s' := by
  refine ⟨?_, h.stored.above habove h.room, _, outer, h.stored.calls.trans hcalls, h.live hrest⟩
  rw [h.stored.limitLow]
  exact h.room

end Entered

theorem activateMethod_sound {savedIp method numArgs numTemps : Nat} {s : VmStack}
    (habove : Above limit s) {frames : List Nat} {outer : List (Call × List Nat)}
    (hcalls : s.calls = outer.map Prod.fst)
    (hlive : Live s.mem s.limitLow (s.sp + 8 + 8 * (numArgs % 256)) s.fp frames outer)
    (hwrap : NoWrap s (numTemps + 6)) :
    Ends (activateMethod savedIp method numArgs numTemps s) (Sound limit) (Above limit) :=
  (activateMethod_ends hwrap).imp (fun _ ht => ht.sound habove hcalls hlive)
    (fun _ ht => ht ▸ habove)

/-- **`activate_block_call`**: the receiver of the block takes the place of the block. -/
theorem activateBlockCall_sound {savedIp argCount : Nat} {block : Block} {s : VmStack}
    (hlimit : s.limitLow ≤ s.sp) (habove : Above limit s) {frames : List Nat}
    {outer : List (Call × List Nat)} (hcalls : s.calls = outer.map Prod.fst)
    (hlive : Live s.mem s.limitLow (s.sp + 8 * (argCount + 1)) s.fp frames outer)
    (hwrap : NoWrap s (block.methodTemps + block.copied.length + 6)) :
    Ends (activateBlockCall savedIp block argCount s) (Sound limit) (Above limit) := by
  -- the store of the receiver
  have hreceiver : ∃ s₁, (if argCount = 0 then
        ({ s with sp := s.sp + 8 } : VmStack).push block.homeReceiver
      else s.store (s.sp + 8 * argCount) block.homeReceiver) = s₁ ∧
      Stored s.sp (s.sp + 8 * (argCount + 1)) s s₁ ∧ s₁.sp = s.sp ∧ s₁.fp = s.fp := by
    split
    · have hstore : Stored s.sp (s.sp + 8 * (argCount + 1)) s
          (s.store (s.sp + 8 - 8) block.homeReceiver) := Stored.store _ (by omega) (by omega)
      exact ⟨_, rfl, ⟨hstore.mem, hstore.stores, rfl, rfl⟩, Nat.add_sub_cancel _ _, rfl⟩
    · exact ⟨_, rfl, Stored.store _ (by omega) (by omega), rfl, rfl⟩
  obtain ⟨s₁, hs₁, hstored, hsp, hfp⟩ := hreceiver
  have habove₁ := hstored.above habove hlimit
  have hlive₁ : Live s₁.mem s₁.limitLow (s₁.sp + 8 + 8 * (argCount % 256)) s₁.fp frames outer := by
    rw [hsp, hfp, hstored.limitLow]
    refine (hlive.congr_above fun a ha => hstored.mem a (Or.inr ha)).lower ?_
    omega
  have hactivate := @activateMethod_ends savedIp block.method argCount
    (block.methodTemps + block.copied.length) s₁ (by
      unfold NoWrap
      rw [hsp]
      exact hwrap)
  unfold activateBlockCall
  rw [hs₁]
  have hlaid := hactivate.imp (fun _ ht => ht) fun t ht => show Above limit t from ht ▸ habove₁
  refine hlaid.bind ?_
  intro t ht
  exact ht.markBlockFrame.sound habove₁ (hstored.calls.trans hcalls) hlive₁

/-- What `activate_context` leaves: a frame that returns to nowhere, so many words below. -/
structure Resumed (limit : Nat) (s s' : VmStack) (words : Nat) : Prop where
  sound : Sound limit s'
  sp : s'.sp + 8 * words = s.sp
  limitLow : s'.limitLow = s.limitLow

/-- **`activate_context`** looks before each of its three groups of stores. -/
theorem activateContext_ends {savedIp : Nat} {ctx : SenderContext} {s : VmStack}
    (habove : Above limit s) {outer : List (Call × List Nat)} (hcalls : s.calls = outer.map Prod.fst)
    (hlive : Live s.mem s.limitLow s.sp s.fp [] outer) (hwrap : NoWrap s ctx.words) :
    Ends (activateContext savedIp ctx s) (fun s' => Resumed limit s s' ctx.words) (Above limit) := by
  obtain ⟨hle, hsp⟩ := hwrap
  unfold SenderContext.words at hle
  unfold activateContext
  rw [below_eq (by omega) hsp]
  split
  · exact habove
  next hroom =>
  -- the receiver and the arguments
  have hlength : (ctx.receiver :: (List.range ctx.numArgs).map ctx.vars).length
      = ctx.numArgs + 1 := by
    rw [List.length_cons, List.length_map, List.length_range]
  obtain ⟨hpushed, hsp₁, hfp₁⟩ :=
    @pushAll_stored (ctx.receiver :: (List.range ctx.numArgs).map ctx.vars) s (by omega)
  rw [hlength] at hpushed hsp₁
  generalize s.pushAll (ctx.receiver :: (List.range ctx.numArgs).map ctx.vars) = s₁
    at hpushed hsp₁ hfp₁
  have habove₁ := hpushed.above habove (by omega)
  have hcalls₁ := hpushed.calls.trans hcalls
  have hlive₁ : Live s₁.mem s₁.limitLow (s₁.sp + 8 + 8 * (ctx.numArgs % 256)) s₁.fp [] outer := by
    rw [hfp₁, hpushed.limitLow]
    refine (hlive.congr_above fun a ha => hpushed.mem a (Or.inr ha)).lower ?_
    have hmod := Nat.mod_le ctx.numArgs 256
    omega
  have hactivate := @activateMethod_ends savedIp ctx.method ctx.numArgs ctx.numTemps s₁
    ⟨by omega, by omega⟩
  have hlaid := hactivate.imp (fun _ ht => ht) fun t ht => show Above limit t from ht ▸ habove₁
  refine hlaid.bind ?_
  intro t ht
  have hrestored := ht.restoreFrame
  have hlow := hrestored.sp
  have hfits : 8 * ctx.stackSize ≤ (restoreFrame ctx t).sp := by omega
  have hfinal := hrestored.restoreOperands hfits (by omega)
  refine hfinal.imp (fun u hu => ?_) (fun u hu => ?_)
  · have hlast := hu.sp
    refine ⟨hu.sound habove₁ hcalls₁ hlive₁, ?_, hu.stored.limitLow.trans hpushed.limitLow⟩
    unfold SenderContext.words
    omega
  · rw [hu]
    exact hrestored.stored.above habove₁ hrestored.room

/-! ## §9. One step. -/

section Step

variable {s : VmStack}

theorem Sound.push (h : Sound limit s) (hroom : Room s 1) (value : Nat) : Sound limit (s.push value) := by
  obtain ⟨hlimit, habove, frames, outer, hcalls, hlive⟩ := h
  unfold Room at hroom
  have hstored : Stored (s.sp - 8) s.sp s (s.store (s.sp - 8) value) :=
    Stored.store value (Nat.le_refl _) (by omega)
  refine ⟨?_, hstored.above habove (by omega), frames, outer, hcalls, ?_⟩
  · show s.limitLow ≤ s.sp - 8
    omega
  · show Live _ s.limitLow (s.sp - 8) s.fp frames outer
    exact (hlive.congr_above fun a ha => hstored.mem a (Or.inr ha)).lower (by omega)

/-- The words of the running frame lie below the frames that are returned to. -/
theorem Sound.operands (h : Sound limit s) {count : Nat} (hwords : HasWords s count) :
    ∃ rest outer, s.calls = outer.map Prod.fst ∧
      Live s.mem s.limitLow (s.sp + 8 * count) s.fp (s.fp :: rest) outer := by
  obtain ⟨-, -, frames, outer, hcalls, hlive⟩ := h
  obtain ⟨⟨hbottom, hcall⟩, hle⟩ := hwords
  rw [hcalls] at hcall
  obtain ⟨rest, -, -, hrest⟩ := hlive.running hbottom hcall
  exact ⟨rest, outer, hcalls, .frame hle hrest⟩

/-- A context is resumed, and the value pushed. -/
theorem resume_sound {ctx : SenderContext} {value : Nat}
    (habove : Above limit s) {outer : List (Call × List Nat)} (hcalls : s.calls = outer.map Prod.fst)
    (hlive : Live s.mem s.limitLow s.sp s.fp [] outer) (hresume : ResumeRoom ctx s) :
    Ends ((activateContext 0 ctx s).bind fun t => .ok (t.push value)) (Sound limit) (Above limit) := by
  obtain ⟨hwrap, hroom⟩ := hresume
  refine (activateContext_ends habove hcalls hlive hwrap).bind fun t ht => ?_
  obtain ⟨hsound, hsp, hlimitLow⟩ := ht
  have hlow := hsound.room
  unfold Room at hroom
  refine hsound.push ?_ value
  unfold Room
  have hlast := hroom (by omega)
  omega

theorem frameReturn_sound (h : Sound limit s) {value : Nat} {sender : Option SenderContext}
    (hin : InLoop s s.fp) (hresume : ∀ ctx ∈ sender, ResumeRoom ctx
      { s with sp := s.fp + 16 + 8 * frameNumArgs s.mem s.fp }) :
    Ends (frameReturn value sender s) (Sound limit) (Above limit) := by
  obtain ⟨hlimit, habove, frames, outer, hcalls, hlive⟩ := h
  obtain ⟨hbottom, hcall⟩ := hin
  rw [hcalls] at hcall
  obtain ⟨rest, -, hheader, hrest⟩ := hlive.running hbottom hcall
  unfold frameReturn
  dsimp only
  generalize hslot : s.fp + 16 + 8 * frameNumArgs s.mem s.fp = slot at hresume ⊢
  have hstored : Stored slot (slot + 8) s (s.store slot value) :=
    Stored.store value (Nat.le_refl _) (by omega)
  have habove' := hstored.above habove (by omega)
  have hlive' : Live (s.store slot value).mem s.limitLow slot (s.mem s.fp) rest outer := by
    refine (hrest.congr_above fun a ha => hstored.mem a (Or.inr ?_)).lower ?_
    · omega
    · omega
  have hslotLimit : s.limitLow ≤ slot := by omega
  split
  · exact ⟨hslotLimit, habove', rest, outer, hcalls, hlive'⟩
  · next hnull =>
    rw [Decidable.not_not.mp hnull] at hlive'
    obtain rfl := hlive'.of_null
    split
    · next ctx hctx =>
      have hsender : ctx ∈ sender := by
        split at hctx
        · exact hctx
        · cases hctx
      exact @resume_sound limit { s.store slot value with sp := slot, fp := 0 } ctx value
        habove' outer hcalls hlive' (hresume ctx hsender)
    · exact ⟨hslotLimit, habove', [], outer, hcalls, hlive'⟩

theorem returnNonLocal_sound (h : Sound limit s) {rounds value : Nat}
    (hin : ∀ i ≤ rounds, InLoop s (homeFp s.mem s.fp i)) :
    Ends (returnNonLocal rounds value s) (Sound limit) (Above limit) := by
  obtain ⟨hlimit, habove, frames, outer, hcalls, hlive⟩ := h
  have hwalk : ∀ i ≤ rounds, ¬ Bottom (homeFp s.mem s.fp i) ∧
      ∀ c ∈ (outer.map Prod.fst).head?, homeFp s.mem s.fp i < c.sp := by
    intro i hi
    rw [← hcalls]
    exact hin i hi
  obtain ⟨sp', rest, hle, hhome⟩ := hlive.walk hwalk
  obtain ⟨hbottom, hcall⟩ := hwalk rounds (Nat.le_refl _)
  obtain ⟨rest', -, hheader, hrest⟩ := hhome.running hbottom hcall
  unfold returnNonLocal
  dsimp only
  generalize homeFp s.mem s.fp rounds = home at hheader hrest
  have hstored : Stored (home + 16 + 8 * frameNumArgs s.mem home)
      (home + 16 + 8 * frameNumArgs s.mem home + 8) s
      (s.store (home + 16 + 8 * frameNumArgs s.mem home) value) :=
    Stored.store value (Nat.le_refl _) (by omega)
  refine ⟨?_, hstored.above habove (by omega), rest', outer, hcalls, ?_⟩
  · show s.limitLow ≤ home + 16 + 8 * frameNumArgs s.mem home
    omega
  · refine (hrest.congr_above fun a ha => hstored.mem a (Or.inr ?_)).lower ?_
    · omega
    · show home + 16 + 8 * frameNumArgs s.mem home ≤ _
      omega

theorem jumpOut_sound (h : Sound limit s) {count : Nat} : Ends (jumpOut count s) (Sound limit) (Above limit) := by
  obtain ⟨hlimit, habove, frames, outer, hcalls, hlive⟩ := h
  unfold jumpOut
  split
  · exact habove
  · next c rest hdrop =>
    rw [hcalls, ← List.map_drop] at hdrop
    obtain ⟨fs, hsplit⟩ : ∃ fs, ∃ rest', outer.drop count = (c, fs) :: rest' ∧
        rest'.map Prod.fst = rest := by
      cases hd : outer.drop count with
      | nil =>
        rw [hd] at hdrop
        cases hdrop
      | cons x xs =>
        rw [hd] at hdrop
        cases hdrop
        exact ⟨x.2, xs, rfl, rfl⟩
    obtain ⟨rest', hdrop', rfl⟩ := hsplit
    obtain ⟨hroom, hrest⟩ := hlive.waiting hdrop'
    refine ⟨?_, habove, fs, rest', rfl, hrest⟩
    show s.limitLow ≤ c.sp
    omega

theorem leave_sound (h : Sound limit s) {value : Nat} : Ends (leave value s) (Sound limit) (Above limit) := by
  have hjump := @jumpOut_sound limit s h 0
  obtain ⟨hlimit, habove, frames, outer, hcalls, hlive⟩ := h
  unfold jumpOut at hjump
  rw [List.drop_zero] at hjump
  unfold leave
  split
  · exact habove
  · next c rest hc =>
    rw [hc] at hjump
    show Sound limit _
    split
    · refine Sound.push hjump ?_ value
      cases outer with
      | nil =>
        rw [hc] at hcalls
        cases hcalls
      | cons x xs =>
        rw [hc] at hcalls
        cases hcalls
        exact (hlive.waiting (show (x :: xs).drop 0 = _ from rfl)).1
    · exact hjump

/-- A frame that is given a context keeps its links. -/
theorem ensureContexts_sound (h : Sound limit s) {frames : List Nat} {outer : List (Call × List Nat)}
    (hlive : Live s.mem s.limitLow s.sp s.fp frames outer)
    {contexts : List Nat} {fp : Nat} (hfp : Bottom fp ∨ fp ∈ allFrames frames outer) :
    ∃ t, ensureContexts contexts fp s = t ∧ t.sp = s.sp ∧ t.fp = s.fp ∧ t.limitLow = s.limitLow ∧
      t.calls = s.calls ∧ Above limit t ∧ Live t.mem s.limitLow s.sp s.fp frames outer := by
  induction contexts generalizing fp with
  | nil => exact ⟨s, rfl, rfl, rfl, rfl, rfl, h.above, hlive⟩
  | cons context contexts ih =>
    rw [ensureContexts]
    split
    · exact ⟨s, rfl, rfl, rfl, rfl, rfl, h.above, hlive⟩
    · next hgoes =>
      have hframe : fp ∈ allFrames frames outer := by
        rcases hfp with (rfl | rfl) | hframe
        · exact absurd (Or.inl rfl) hgoes
        · exact absurd (Or.inr (Or.inl rfl)) hgoes
        · exact hframe
      obtain ⟨t, ht, hsp, htfp, hlimitLow, htcalls, habove, hlive'⟩ := ih (hlive.next.2 fp hframe)
      have hlow := h.room
      have hhigh := hlive'.above fp hframe
      rw [ht]
      dsimp only
      -- the context
      have hcontext : Live (Function.update t.mem (fp - 24) context) s.limitLow s.sp s.fp
          frames outer := by
        refine hlive'.congr_store fun g hg => ?_
        have hgle := hlive'.above g hg
        have hfg := hlive'.disjoint hframe hg
        omega
      -- the flags, in two stores
      have hcleared := hcontext.setFlags hframe
        (clearClosure_count (Function.update t.mem (fp - 24) context (fp - 16)))
      have hmarked := hcleared.setFlags hframe (show ((_ ||| 1) >>> 8) &&& 0xFF = _ by
        rw [Nat.shiftRight_or_distrib, Nat.and_or_distrib_right]
        exact Nat.or_zero _)
      have hlimit := habove.1
      refine ⟨_, rfl, hsp, htfp, hlimitLow, htcalls, ⟨hlimit, fun b hb => ?_⟩, hmarked⟩
      rcases List.mem_cons.mp hb with rfl | hb
      · omega
      rcases List.mem_cons.mp hb with rfl | hb
      · omega
      rcases List.mem_cons.mp hb with rfl | hb
      · omega
      · exact habove.2 b hb

/-- The collector's stores. -/
theorem writeSlots_sound (h : Sound limit s) {slots : List (Nat × Nat)}
    (hslots : ∀ slot ∈ slots, s.sp ≤ slot.1 ∧
      ∀ f, LiveFrame s f → slot.1 ≠ f ∧ slot.1 ≠ f - 16) : Sound limit (writeSlots slots s) := by
  obtain ⟨hlimit, habove, frames, outer, hcalls, hlive⟩ := h
  have hfree : ∀ slot ∈ slots, s.sp ≤ slot.1 ∧
      ∀ f ∈ allFrames frames outer, slot.1 ≠ f ∧ slot.1 ≠ f - 16 := by
    intro slot hslot
    obtain ⟨hle, hlinks⟩ := hslots slot hslot
    refine ⟨hle, fun f hf => hlinks f ?_⟩
    obtain ⟨g, hg, hwalk⟩ := hlive.walked f hf
    refine ⟨g, ?_, hwalk⟩
    rw [hcalls, List.map_map]
    exact hg
  clear hslots
  unfold writeSlots
  induction slots generalizing s with
  | nil => exact ⟨hlimit, habove, frames, outer, hcalls, hlive⟩
  | cons slot slots ih =>
    obtain ⟨hle, hlinks⟩ := hfree slot List.mem_cons_self
    refine ih (s := s.store slot.1 slot.2) hlimit ⟨habove.1, fun b hb => ?_⟩ hcalls
      (hlive.congr_store hlinks) fun x hx => hfree x (List.mem_cons_of_mem slot hx)
    rw [← habove.1]
    rcases List.mem_cons.mp hb with rfl | hb
    · exact Nat.le_trans hlimit hle
    · rw [habove.1]
      exact habove.2 b hb

/-- **A step that meets its condition** keeps the invariant, and stores nothing below the
limit even if the VM stops in it. -/
theorem Sound.step (h : Sound limit s) (e : Effect) (hfits : e.Fits s) :
    Ends (e.run s) (Sound limit) (Above limit) := by
  have hlimit := h.room
  have habove := h.above
  cases e with
  | push value => exact h.push hfits value
  | pop count =>
    obtain ⟨rest, outer, hcalls, hlive⟩ := h.operands hfits
    exact ⟨Nat.le_add_right_of_le hlimit, habove, s.fp :: rest, outer, hcalls, hlive⟩
  | storeTemp index =>
    obtain ⟨rest, outer, hcalls, hlive⟩ := h.operands hfits
    obtain ⟨-, hle⟩ := hfits
    have hstore : Stored s.sp s.fp s (s.store (s.fp - (40 + 8 * index)) (s.mem s.sp)) :=
      Stored.store _ (by omega) (by omega)
    refine ⟨Nat.le_add_right_of_le hlimit, hstore.above habove hlimit, s.fp :: rest, outer, hcalls,
      ?_⟩
    refine (hlive.congr_store fun f hf => ?_).lower ?_
    · have hfirst := hlive.first_le f hf
      omega
    · show s.sp + 8 ≤ _
      omega
  | replaceReceiver argCount value =>
    obtain ⟨rest, outer, hcalls, hlive⟩ := h.operands hfits
    have hstore : Stored s.sp (s.sp + 8 * (argCount + 1)) s (s.store (s.sp + 8 * argCount) value) :=
      Stored.store value (by omega) (by omega)
    refine ⟨Nat.le_add_right_of_le hlimit, hstore.above habove hlimit, s.fp :: rest, outer, hcalls,
      ?_⟩
    refine (hlive.congr_above fun a ha => hstore.mem a (Or.inr ha)).lower ?_
    show s.sp + 8 * argCount ≤ _
    omega
  | send savedIp method argCount numTemps =>
    obtain ⟨hwords, hwrap⟩ := hfits
    obtain ⟨rest, outer, hcalls, hlive⟩ := h.operands hwords
    refine activateMethod_sound habove hcalls (hlive.lower ?_) hwrap
    have hmod := Nat.mod_le argCount 256
    omega
  | callBlock savedIp block argCount =>
    obtain ⟨hwords, hwrap⟩ := hfits
    obtain ⟨rest, outer, hcalls, hlive⟩ := h.operands hwords
    exact activateBlockCall_sound hlimit habove hcalls hlive hwrap
  | invokeBlock savedIp block args keep answers =>
    obtain ⟨hwords, hroom, hwrap⟩ := hfits
    obtain ⟨rest, outer, hcalls, hlive⟩ := h.operands hwords
    unfold Room at hroom
    unfold NoWrap at hwrap
    obtain ⟨hpushed, hsp, hfp⟩ := @pushAll_stored (block.oop :: args) s (by
      rw [List.length_cons]
      omega)
    rw [List.length_cons] at hpushed hsp
    show Ends (invokeBlockClosure savedIp block args keep answers s) (Sound limit) (Above limit)
    unfold invokeBlockClosure
    dsimp only
    generalize s.pushAll (block.oop :: args) = s₁ at hpushed hsp hfp
    have hlimitLow := hpushed.limitLow
    have hbelow : Live s₁.mem s₁.limitLow (s.sp + 8 * keep) s.fp (s.fp :: rest) outer := by
      rw [hlimitLow]
      exact hlive.congr_above fun a ha => hpushed.mem a (Or.inr (by omega))
    have hentered : Live s₁.mem s₁.limitLow (s₁.sp + 8 * (args.length + 1)) s₁.fp []
        ((⟨s.sp + 8 * keep, s.fp, answers⟩, s.fp :: rest) :: outer) := by
      refine .entered ?_ (Or.inl hfp) ?_ (List.cons_ne_nil _ _) hbelow
      · show s₁.sp + 8 * (args.length + 1) ≤ s.sp + 8 * keep
        omega
      · show s₁.limitLow + 8 ≤ s.sp + 8 * keep
        omega
    refine activateBlockCall_sound ?_ (hpushed.above habove (by omega))
      (show _ = (_ :: outer).map Prod.fst from congrArg _ hcalls) hentered ?_
    · show s₁.limitLow ≤ s₁.sp
      omega
    · show 8 * _ ≤ s₁.sp ∧ s₁.sp < 2 ^ 64
      omega
  | invokeMessage receiver arg method numArgs numTemps =>
    obtain ⟨hwords, hroom, hargs, hwrap⟩ := hfits
    obtain ⟨rest, outer, hcalls, hlive⟩ := h.operands hwords
    unfold Room at hroom
    unfold NoWrap at hwrap
    obtain ⟨hpushed, hsp, hfp⟩ := @pushAll_stored [receiver, arg] s (by
      show 8 * 2 ≤ s.sp
      omega)
    rw [show [receiver, arg].length = 2 from rfl] at hpushed hsp
    show Ends (invokeMessage receiver arg method numArgs numTemps s) (Sound limit) (Above limit)
    unfold invokeMessage
    dsimp only
    generalize s.pushAll [receiver, arg] = s₁ at hpushed hsp hfp
    have hlimitLow := hpushed.limitLow
    have hbelow : Live s₁.mem s₁.limitLow s.sp s.fp (s.fp :: rest) outer := by
      rw [hlimitLow]
      exact hlive.congr_above fun a ha => hpushed.mem a (Or.inr (by omega))
    have hentered : Live s₁.mem s₁.limitLow (s₁.sp + 8 + 8 * (numArgs % 256)) s₁.fp []
        ((⟨s.sp, s.fp, false⟩, s.fp :: rest) :: outer) := by
      refine .entered ?_ (Or.inl hfp) ?_ (List.cons_ne_nil _ _) hbelow
      · show s₁.sp + 8 + 8 * (numArgs % 256) ≤ s.sp
        have hmod := Nat.mod_le numArgs 256
        omega
      · show s₁.limitLow + 8 ≤ s.sp
        omega
    refine activateMethod_sound (hpushed.above habove (by omega))
      (show _ = (_ :: outer).map Prod.fst from congrArg _ hcalls) hentered ?_
    show 8 * _ ≤ s₁.sp ∧ s₁.sp < 2 ^ 64
    omega
  | leave value => exact leave_sound h
  | jumpOut count => exact jumpOut_sound h
  | returnTop sender => exact frameReturn_sound h hfits.1 hfits.2
  | returnNonLocal rounds => exact returnNonLocal_sound h hfits
  | resumeSender sender =>
    obtain ⟨-, -, frames, outer, hcalls, hlive⟩ := h
    exact @resume_sound limit { s with fp := 0 } sender (s.mem s.sp) habove outer hcalls
      (hlive.abandon (Or.inl rfl)) hfits
  | cannotReturn savedIp closure method numTemps =>
    obtain ⟨hwords, hroom, hwrap⟩ := hfits
    obtain ⟨rest, outer, hcalls, hlive⟩ := h.operands hwords
    unfold Room at hroom
    unfold NoWrap at hwrap
    have hvalue : Stored (s.sp - 8) (s.sp + 8) s (s.store (s.sp - 8) (s.mem s.sp)) :=
      Stored.store _ (by omega) (by omega)
    have hboth := hvalue.trans (Stored.store (a := s.sp - 8 + 8) closure (by omega) (by omega))
    have hlive' := (hlive.congr_above fun a ha => hboth.mem a (Or.inr (by omega))).lower
      (show s.sp - 8 + 8 + 8 * (1 % 256) ≤ s.sp + 8 * 1 by omega)
    refine activateMethod_sound (hboth.above habove (by omega)) hcalls hlive' ?_
    show 8 * _ ≤ s.sp - 8 ∧ s.sp - 8 < 2 ^ 64
    omega
  | ensureContexts contexts =>
    have hsound := h
    obtain ⟨-, -, frames, outer, hcalls, hlive⟩ := h
    obtain ⟨t, ht, hsp, hfp, hlimitLow, htcalls, habove', hlive'⟩ :=
      @ensureContexts_sound limit s hsound frames outer hlive contexts s.fp hlive.next.1
    show Sound limit (LimitLow.ensureContexts contexts s.fp s)
    rw [ht]
    refine ⟨?_, habove', frames, outer, htcalls.trans hcalls, ?_⟩
    · rw [hlimitLow, hsp]
      exact hlimit
    · rw [hlimitLow, hsp, hfp]
      exact hlive'
  | collect slots => exact writeSlots_sound h hfits

end Step

/-! ## §10. Runs. -/

/-- **A run**, by induction on its steps. -/
theorem Sound.run {s : VmStack} {es : List Effect} (h : Sound limit s) (hfit : AllFit es s) :
    Ends (runEffects es s) (Sound limit) (Above limit) := by
  induction es generalizing s with
  | nil => exact h
  | cons e es ih =>
    obtain ⟨hfirst, hrest⟩ := hfit
    have hstep := h.step e hfirst
    rw [runEffects]
    cases hrun : e.run s with
    | error t =>
      rw [hrun] at hstep
      exact hstep
    | ok t =>
      rw [hrun] at hstep
      exact ih hstep (hrest t hrun)

/-- A stack on which the interpreter is started. -/
structure Start (s : VmStack) : Prop where
  stores : s.stores = []
  calls : s.calls = []
  room : s.limitLow ≤ s.sp
  frames : ∃ frames, Live s.mem s.limitLow s.sp s.fp frames []

/-- **Nothing is stored below the limit** in a run all of whose steps meet their conditions,
however it ends. -/
theorem stores_above_limit {s : VmStack} {es : List Effect} (h : Start s) (hfit : AllFit es s) :
    ∀ a ∈ (final (runEffects es s)).stores, s.limitLow ≤ a := by
  obtain ⟨frames, hlive⟩ := h.frames
  have hnone : Above s.limitLow s := by
    refine ⟨rfl, fun a ha => ?_⟩
    rw [h.stores] at ha
    cases ha
  have hsound : Sound s.limitLow s := ⟨h.room, hnone, frames, [], h.calls, hlive⟩
  have hrun := hsound.run hfit
  cases hends : runEffects es s with
  | ok t =>
    rw [hends] at hrun
    exact hrun.above.2
  | error t =>
    rw [hends] at hrun
    exact hrun.2

/-- A frame without operands, so many words above the limit. -/
def emptyFrame (words : Nat) : VmStack :=
  { mem := fun _ => 0
    sp := 800 + 8 * words
    fp := 832 + 8 * words
    limitLow := 800
    calls := []
    stores := [] }

theorem emptyFrame_start (words : Nat) : Start (emptyFrame words) := by
  refine ⟨rfl, rfl, Nat.le_add_right 800 _, [832 + 8 * words], .frame ?_ (.bottom (Or.inl rfl))⟩
  show 800 + 8 * words + 32 ≤ 832 + 8 * words
  omega

/-- A receiver is pushed, and a method whose frame just fits is sent to it. -/
theorem send_stores_above :
    (final (runEffects [.push 5, .send 0 8 0 1] (emptyFrame 8))).stores ≠ [] ∧
    ∀ a ∈ (final (runEffects [.push 5, .send 0 8 0 1] (emptyFrame 8))).stores,
      (emptyFrame 8).limitLow ≤ a := by
  have hin : InLoop ((emptyFrame 8).push 5) ((emptyFrame 8).push 5).fp := by
    refine ⟨?_, fun c hc => (by cases hc)⟩
    rintro (h | h) <;> cases h
  refine ⟨by decide, stores_above_limit (emptyFrame_start 8) ⟨?_, fun s₁ h₁ => ?_⟩⟩
  · show 800 + 8 * 1 ≤ 800 + 8 * 8
    decide
  obtain rfl := Except.ok.inj h₁
  refine ⟨⟨⟨hin, ?_⟩, ?_⟩, fun _ _ => trivial⟩
  · show 856 + 8 * (0 + 1) + 32 ≤ 896
    decide
  · show 8 * (1 + 6) ≤ 856 ∧ 856 < 2 ^ 64
    decide

/-- A push with the stack pointer at the limit stores in the word below it. -/
theorem push_below_limit : ¬ ∀ (s : VmStack) (es : List Effect), Start s →
    ∀ a ∈ (final (runEffects es s)).stores, s.limitLow ≤ a := by
  intro hclaim
  have hlow := hclaim (emptyFrame 0) [.push 0] (emptyFrame_start 0) 792 List.mem_cons_self
  revert hlow
  decide

end LivingObjects.Stack.LimitLow
