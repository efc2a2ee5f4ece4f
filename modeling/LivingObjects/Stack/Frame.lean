/-
  LivingObjects.Stack.Frame — activations in the Smalltalk stack.

  `frame.c`, `ensure_frame_context_with_sp` and the bytecodes of `interpret.c` that
  make, link and leave frames.  The stack is a memory of words, growing down, with
  word addresses; a stored frame pointer is a byte address, and the chain of frames
  ends at 0 (hand-made stacks of the tests also end it with 0xCAFE).  Of the heap
  there are the block closures and the contexts; allocation takes the next address
  and never fails, so nothing is collected or moved.
-/
import Mathlib

namespace LivingObjects.Stack

/-! ## §1. Words and objects. -/

def taggedNil : Nat := 3

/-- `tag_smallint`. -/
def taggedSmallint (n : Nat) : Nat := 4 * n + 1

/-- `decode_smallint_field`. -/
def decodeSmallintField (w : Nat) : Nat := if w % 4 = 1 then w / 4 else 0

/-- `is_object_value`. -/
def isObjectValue (w : Nat) : Bool := w % 4 == 0

/-- What the interpreter reads of a compiled method. -/
structure CompiledMethod where
  numTemps : Nat
  /-- The address of the first bytecode. -/
  bytecodes : Nat
  bytecodeSize : Nat

/-- A block closure. -/
structure BlockClosure where
  homeContext : Nat
  homeReceiver : Nat
  method : Nat
  copied : List Nat

/-- A context. -/
structure Context where
  sender : Nat
  ip : Nat
  method : Nat
  receiver : Nat
  home : Nat
  closure : Nat
  flags : Nat
  numArgs : Nat
  numTemps : Nat
  stackSize : Nat
  vars : List Nat

/-- The objects, by their addresses. -/
structure Heap where
  free : Nat
  block : Nat → Option BlockClosure
  context : Nat → Option Context

/-- `om_alloc`: the fields are stored later. -/
def Heap.alloc (h : Heap) : Heap := { h with free := h.free + 8 }

def Heap.setBlock (h : Heap) (b : Nat) (blk : BlockClosure) : Heap :=
  { h with block := Function.update h.block b (some blk) }

def Heap.setContext (h : Heap) (c : Nat) (ctx : Context) : Heap :=
  { h with context := Function.update h.context c (some ctx) }

/-- A running interpreter loop. -/
structure Vm where
  mem : Nat → Nat
  sp : Nat
  fp : Nat
  ip : Nat
  heap : Heap
  /-- The frame the loop was entered with. -/
  entryFp : Nat
  /-- `smalltalk_stack_limit_low`. -/
  limitLow : Nat
  /-- Where the stack begins: the first address above it. -/
  base : Nat

/-- `push`. -/
def Vm.push (v : Nat) (s : Vm) : Vm :=
  { s with sp := s.sp - 1, mem := Function.update s.mem (s.sp - 1) v }

/-- Push values, the last one ending on top. -/
def pushAll : List Nat → Vm → Vm
  | [], s => s
  | v :: vs, s => pushAll vs (s.push v)

/-! ## §2. The fields of a frame. -/

section Fields

variable (mem : Nat → Nat) (fp : Nat)

def frameSavedIp : Nat := mem (fp + 1)
def frameSavedFp : Nat := mem fp / 8
def frameMethod : Nat := mem (fp - 1)
def frameFlags : Nat := mem (fp - 2)
def frameContext : Nat := mem (fp - 3)
def frameReceiver : Nat := mem (fp - 4)
def frameTemp (index : Nat) : Nat := mem (fp - (5 + index))

/-- `frame_num_args`: an 8-bit field of the flags. -/
def frameNumArgs : Nat := (frameFlags mem fp >>> 8) &&& 0xFF

def frameArg (index : Nat) : Nat := mem (fp + 2 + (frameNumArgs mem fp - 1 - index))

/-- `frame_has_context`. -/
def frameHasContext : Bool := frameFlags mem fp &&& 1 != 0

/-- `frame_has_block_closure`. -/
def frameHasBlockClosure : Bool := frameFlags mem fp &&& 2 != 0

end Fields

/-- `block_closure_for_frame`. -/
def blockClosureForFrame (mem : Nat → Nat) (h : Heap) (fp : Nat) : Nat :=
  if frameHasContext mem fp then
    ((h.context (frameContext mem fp)).map Context.closure).getD taggedNil
  else if frameHasBlockClosure mem fp then frameContext mem fp
  else taggedNil

/-- `block_home_context_for_frame`. -/
def blockHomeContextForFrame (mem : Nat → Nat) (h : Heap) (fp : Nat) : Nat :=
  if frameHasContext mem fp then
    ((h.context (frameContext mem fp)).map Context.home).getD taggedNil
  else if frameHasBlockClosure mem fp then
    ((h.block (frameContext mem fp)).map BlockClosure.homeContext).getD taggedNil
  else taggedNil

/-! ## §3. Activation and return. -/

/-- `activate_method`; `none` is the trap on overflow. -/
def activateMethod (savedIp method numArgs numTemps : Nat) (s : Vm) : Option Vm :=
  if s.sp < s.limitLow + (numTemps + 6) then none
  else
    let callerFp := s.fp
    let receiver := s.mem (s.sp + numArgs)
    let s := (s.push savedIp).push (8 * callerFp)
    let fp := s.sp
    let s := (((s.push method).push (numArgs <<< 8)).push 0).push receiver
    some { pushAll (List.replicate numTemps 0) s with fp := fp }

/-- `mark_block_frame`. -/
def markBlockFrame (fp block : Nat) (mem : Nat → Nat) : Nat → Nat :=
  let mem := Function.update mem (fp - 2) (frameFlags mem fp ||| (1 <<< 16 ||| 2))
  Function.update mem (fp - 3) block

/-- `frame_store_temp`. -/
def frameStoreTemp (fp index value : Nat) (mem : Nat → Nat) : Nat → Nat :=
  Function.update mem (fp - (5 + index)) value

/-- Store values into the temporaries from `index` on. -/
def storeTemps (fp : Nat) : Nat → List Nat → (Nat → Nat) → (Nat → Nat)
  | _, [], mem => mem
  | index, v :: vs, mem =>
    storeTemps fp (index + 1) vs (Function.update mem (fp - (5 + index)) v)

section Code

variable (code : Nat → CompiledMethod)

/-- `activate_block_call`, with its answer for a receiver that is no block as `none`. -/
def activateBlockCall (argCount : Nat) (s : Vm) : Option Vm := do
  let block := s.mem (s.sp + argCount)
  let blk ← s.heap.block block
  let copiedCount := blk.copied.length
  let s := { s with mem := Function.update s.mem (s.sp + argCount) blk.homeReceiver }
  let s ← activateMethod s.ip blk.method argCount ((code blk.method).numTemps + copiedCount) s
  -- `populate_block_copied_values`
  let mem := markBlockFrame s.fp block (storeTemps s.fp 0 blk.copied s.mem)
  return { s with mem := mem, ip := (code blk.method).bytecodes }

/-- A send, once the method is found. -/
def sendMethod (method argCount : Nat) (s : Vm) : Option Vm := do
  let s ← activateMethod s.ip method argCount (code method).numTemps s
  return { s with ip := (code method).bytecodes }

/-- `activate_context`. -/
def activateContext (savedIp context : Nat) (s : Vm) : Option Vm := do
  let ctx ← s.heap.context context
  let numArgs := decodeSmallintField ctx.numArgs
  let numTemps := decodeSmallintField ctx.numTemps
  let stackSize := decodeSmallintField ctx.stackSize
  if s.sp < s.limitLow + (numArgs + 1 + stackSize) then none
  else
    let s := pushAll (ctx.vars.take numArgs) (s.push ctx.receiver)
    let s ← activateMethod savedIp ctx.method numArgs numTemps s
    let flags := frameFlags s.mem s.fp
      ||| (1 ||| (decodeSmallintField ctx.flags &&& (0xFF <<< 16)))
    let mem := Function.update s.mem (s.fp - 2) (flags ^^^ (flags &&& 2))
    let mem := Function.update mem (s.fp - 3) context
    let mem := storeTemps s.fp 0 ((ctx.vars.drop numArgs).take numTemps) mem
    if s.sp < s.limitLow + stackSize then none
    else
      let rest := (ctx.vars.drop (numArgs + numTemps)).take stackSize
      return pushAll rest.reverse { s with mem := mem }

/-! ## §4. Contexts. -/

/-- `context_ip_for_frame`: what it looks at is the ip saved for the caller. -/
def contextIpForFrame (mem : Nat → Nat) (fp : Nat) : Nat :=
  let m := code (frameMethod mem fp)
  let ip := frameSavedIp mem fp
  if ip < m.bytecodes ∨ m.bytecodes + m.bytecodeSize < ip then taggedNil
  else taggedSmallint (ip - m.bytecodes)

/-- `ensure_frame_context_with_sp`, the frames of the callers included.  `fuel` bounds
the number of frames. -/
def ensureFrameContext : Nat → Option Nat → Nat → (Nat → Nat) → Heap → Nat × (Nat → Nat) × Heap
  | 0, _, _, mem, h => (0, mem, h)
  | fuel + 1, sp, fp, mem, h =>
    if fp = 0 then (0, mem, h)
    else if frameHasContext mem fp then (frameContext mem fp, mem, h)
    else
      let closure := if frameHasBlockClosure mem fp then frameContext mem fp else 0
      let numArgs := frameNumArgs mem fp
      let numTemps := (code (frameMethod mem fp)).numTemps
      let baseSp := if numTemps = 0 then fp - 4 else fp - (5 + (numTemps - 1))
      let effectiveSp := match sp with
        | some sp => if baseSp < sp then baseSp else sp
        | none => baseSp
      let stackDepth := baseSp - effectiveSp
      let context := h.free
      let (sender, mem, h) := ensureFrameContext fuel none (frameSavedFp mem fp) mem h.alloc
      let ctx : Context := {
        sender := if sender = 0 then taggedNil else sender
        ip := contextIpForFrame code mem fp
        method := frameMethod mem fp
        receiver := frameReceiver mem fp
        home :=
          if closure = 0 then taggedNil
          else ((h.block closure).map BlockClosure.homeContext).getD taggedNil
        closure := if closure = 0 then taggedNil else closure
        flags := taggedSmallint (frameFlags mem fp)
        numArgs := taggedSmallint numArgs
        numTemps := taggedSmallint numTemps
        stackSize := taggedSmallint stackDepth
        vars := (List.range numArgs).map (frameArg mem fp)
          ++ (List.range numTemps).map (frameTemp mem fp)
          ++ (List.range stackDepth).map (fun i => mem (effectiveSp + i)) }
      let mem := Function.update mem (fp - 3) context
      let flags := frameFlags mem fp
      let mem := Function.update mem (fp - 2) ((flags ^^^ (flags &&& 2)) ||| 1)
      (context, mem, h.setContext context ctx)

/-- The context of the running frame, with those of its callers. -/
def currentContext (s : Vm) : Nat × Vm :=
  let (context, mem, heap) := ensureFrameContext code (s.base - s.sp) (some s.sp) s.fp s.mem s.heap
  (context, { s with mem := mem, heap := heap })

/-- `BC_PUSH_THIS_CONTEXT`. -/
def pushThisContext (s : Vm) : Vm :=
  let (context, s) := currentContext code s
  s.push context

/-- `BC_PUSH_CLOSURE`. -/
def pushClosure (blockMethod : Nat) (s : Vm) : Vm :=
  let numArgs := frameNumArgs s.mem s.fp
  let currentClosure := blockClosureForFrame s.mem s.heap s.fp
  let numTemps := (code (frameMethod s.mem s.fp)).numTemps
    + (if currentClosure = taggedNil then 0
        else ((s.heap.block currentClosure).map (fun blk => blk.copied.length)).getD 0)
  let (_, s) := currentContext code s
  let homeContext := if frameHasContext s.mem s.fp then frameContext s.mem s.fp else 0
  let block := s.heap.free
  let blk : BlockClosure := {
    homeContext := if homeContext = 0 then taggedNil else homeContext
    homeReceiver := frameReceiver s.mem s.fp
    method := blockMethod
    copied := (List.range numArgs).map (frameArg s.mem s.fp)
      ++ (List.range numTemps).map (frameTemp s.mem s.fp) }
  { s with heap := s.heap.alloc.setBlock block blk }.push block

end Code

/-! ## §5. Returns. -/

/-- What a return comes to. -/
inductive Outcome where
  /-- The loop goes on. -/
  | resumed (s : Vm)
  /-- `interpret` returns. -/
  | returned (value : Nat) (s : Vm)
  /-- `cannotReturn:` is sent to the closure, as long as its class understands it. -/
  | cannotReturn (closure value : Nat)
  | trapped

/-- `resume_sender_context`, after which the ip is the `CONTEXT_IP` word. -/
def resumeSenderContext (value sender : Nat) (s : Vm) : Option Vm := do
  if !isObjectValue sender then none
  else
    let ctx ← s.heap.context sender
    let s ← activateContext 0 sender { s with fp := 0 }
    return { s.push value with ip := ctx.ip }

/-- `BC_RETURN_STACK_TOP`, with `frame_return`. -/
def returnStackTop (s : Vm) : Outcome :=
  let value := s.mem s.sp
  let newSp := s.fp + 2 + frameNumArgs s.mem s.fp
  let callerFp := frameSavedFp s.mem s.fp
  let mem := Function.update s.mem newSp value
  if callerFp ≠ 0 then
    let s' := { s with
      mem := mem
      sp := newSp
      fp := callerFp
      ip := frameSavedIp s.mem s.fp }
    if s.fp = s.entryFp then .returned value s' else .resumed s'
  else
    let sender :=
      if frameHasContext mem s.fp then
        ((s.heap.context (frameContext mem s.fp)).map Context.sender).getD taggedNil
      else taggedNil
    let s' := { s with mem := mem, sp := newSp, fp := 0, ip := 0 }
    if isObjectValue sender ∧ sender ≠ 0 then
      match resumeSenderContext value sender s' with
      | some s'' => .resumed s''
      | none => .trapped
    else .returned value s'

/-- The walk of `BC_RETURN_NON_LOCAL` for the frame whose context this is; `fuel` bounds
the number of frames. -/
def findHome (mem : Nat → Nat) (homeContext : Nat) : Nat → Nat → Option Nat
  | 0, _ => none
  | fuel + 1, fp =>
    if fp = 0 then none
    else if frameHasContext mem fp ∧ frameContext mem fp = homeContext then some fp
    else findHome mem homeContext fuel (frameSavedFp mem fp)

/-- `BC_RETURN_NON_LOCAL` when the walk has come to the end of the chain. -/
def returnToSender (homeContext closure value : Nat) (s : Vm) : Outcome :=
  let sender := ((s.heap.context homeContext).map Context.sender).getD taggedNil
  if isObjectValue homeContext ∧ sender = taggedNil then .returned value s
  else
    match if isObjectValue homeContext then resumeSenderContext value sender s else none with
    | some s' => .resumed s'
    | none => if closure = taggedNil then .trapped else .cannotReturn closure value

/-- `BC_RETURN_NON_LOCAL`. -/
def returnNonLocal (s : Vm) : Outcome :=
  let value := s.mem s.sp
  let homeContext := blockHomeContextForFrame s.mem s.heap s.fp
  match findHome s.mem homeContext (s.base - s.sp) s.fp with
  | some homeFp =>
    let newSp := homeFp + 2 + frameNumArgs s.mem homeFp
    let s' := { s with
      mem := Function.update s.mem newSp value
      sp := newSp
      fp := frameSavedFp s.mem homeFp }
    if homeFp = s.entryFp then .returned value s'
    else .resumed { s' with ip := frameSavedIp s.mem homeFp }
  | none =>
    returnToSender homeContext (blockClosureForFrame s.mem s.heap s.fp) value s

end LivingObjects.Stack
