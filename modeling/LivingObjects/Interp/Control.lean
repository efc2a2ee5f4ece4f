/-
  LivingObjects.Interp.Control — calls, protected blocks, signals and returns.

  `ensure:`, `on:do:` and the transaction primitives run their block in an
  interpreter loop of its own, called from C, and leave a record in a local of
  that C function; three globals point to the innermost records.  The control
  state is the chain of Smalltalk activations, the C stack of primitives and
  loops, and the three lists.  A record can be reached only as long as the C
  frame it is a local of is on the stack: using it later is undefined.

  A list of records is the pointer to its first one; the tail is its `previous`.
  Blocks given to `ensure:` and to the transactions take no argument and those
  given to `on:do:` at most one, without which the primitives fail.
-/
import LivingObjects.VM.Object

namespace LivingObjects.Interp

open LivingObjects.VM

/-! ## §1. State. -/

/-- An activation on the Smalltalk stack. -/
structure Frame where
  id : Nat
  /-- For a block, the activation whose context its closure names as home. -/
  home : Option Nat
  deriving DecidableEq, Repr

/-- `ExceptionHandlerFrame`, a local of the `on:do:` primitive. -/
structure HandlerRecord where
  native : Nat
  exceptionClass : Oop
  deriving DecidableEq, Repr

/-- `EnsureFrame`, a local of the `ensure:` primitive or of a transaction. -/
structure EnsureRecord where
  native : Nat
  deriving DecidableEq, Repr

/-- `TransactionLogFrame`; the log is a local of the transaction primitive. -/
structure TransactionRecord where
  native : Nat
  deriving DecidableEq, Repr

inductive TransactionKind where
  | atomic
  | durable
  | readOnly
  deriving DecidableEq, Repr

/-- What a C frame does once the interpreter loop it has called returns, with the
locals it needs for that. -/
inductive NativeBody where
  /-- The outermost loop: the program is over. -/
  | main
  /-- `on:do:`, the protected block running. -/
  | onDo (previous : List HandlerRecord)
  /-- `on:do:`, the handler block running. -/
  | handlerBlock (previous : List HandlerRecord)
  /-- `ensure:`, the protected block running. -/
  | ensure (previous : List EnsureRecord)
  /-- `ensure:`, the ensure block running. -/
  | ensureBlock
  /-- A transaction with a log of its own. -/
  | transaction (kind : TransactionKind) (previousEnsure : List EnsureRecord)
      (previousTransaction : List TransactionRecord)
  /-- A transaction inside an active one. -/
  | nestedTransaction
  deriving DecidableEq, Repr

/-- A primitive's C frame and the interpreter loop it has called. -/
structure Native where
  id : Nat
  /-- The activation the loop was entered with (`entry_fp`). -/
  entry : Nat
  /-- `saved_fp`. -/
  savedFrames : List Frame
  body : NativeBody
  deriving DecidableEq, Repr

/-- The control state. -/
structure Control where
  /-- The chain from `*fp_ptr` on. -/
  frames : List Frame
  /-- The C stack, innermost first. -/
  natives : List Native
  currentExceptionHandler : List HandlerRecord
  currentEnsureFrame : List EnsureRecord
  currentTransactionLogFrame : List TransactionRecord
  deriving DecidableEq, Repr

/-- What can be observed. -/
inductive Event where
  /-- Code goes on behind a send, in this activation. -/
  | resumed (frame : Nat)
  /-- The ensure block of this primitive runs. -/
  | ranEnsure (native : Nat)
  | committed (native : Nat)
  | aborted (native : Nat)
  deriving DecidableEq, Repr

/-- A program in its first activation. -/
def Control.initial : Control where
  frames := [⟨0, none⟩]
  natives := [⟨0, 0, [], .main⟩]
  currentExceptionHandler := []
  currentEnsureFrame := []
  currentTransactionLogFrame := []

/-! ## §2. Calls. -/

/-- `activate_method`, for a method or a block. -/
def activateMethod (f : Frame) (c : Control) : Control :=
  { c with frames := f :: c.frames }

/-- `invoke_block_closure` from a primitive: activate the block and call `interpret`. -/
def invokeBlockClosure (native : Nat) (f : Frame) (body : NativeBody) (c : Control) : Control :=
  { c with
    frames := f :: c.frames
    natives := ⟨native, f.id, c.frames, body⟩ :: c.natives }

/-- `PRIM_BLOCK_ON_DO` up to the protected block. -/
def blockOnDo (native : Nat) (f : Frame) (exceptionClass : Oop) (c : Control) : Control :=
  { invokeBlockClosure native f (.onDo c.currentExceptionHandler) c with
    currentExceptionHandler := ⟨native, exceptionClass⟩ :: c.currentExceptionHandler }

/-- `PRIM_BLOCK_ENSURE` up to the protected block. -/
def blockEnsure (native : Nat) (f : Frame) (c : Control) : Control :=
  { invokeBlockClosure native f (.ensure c.currentEnsureFrame) c with
    currentEnsureFrame := ⟨native⟩ :: c.currentEnsureFrame }

/-- `try_transaction_primitive` up to the block.  With a transaction already active
the block runs in that one, and nothing is recorded. -/
def transactionPrimitive (native : Nat) (f : Frame) (kind : TransactionKind) (c : Control) :
    Control :=
  if c.currentTransactionLogFrame ≠ [] then invokeBlockClosure native f .nestedTransaction c
  else
    { invokeBlockClosure native f
        (.transaction kind c.currentEnsureFrame c.currentTransactionLogFrame) c with
      currentEnsureFrame := ⟨native⟩ :: c.currentEnsureFrame
      currentTransactionLogFrame := ⟨native⟩ :: c.currentTransactionLogFrame }

/-! ## §3. Returns. -/

/-- Control goes on in the first activation of the chain. -/
def resumedAt (frames : List Frame) : List Event :=
  match frames with
  | f :: _ => [.resumed f.id]
  | [] => []

/-- The innermost loop has returned: what its primitive does then.  `f` is the
activation of the ensure block, where there is one. -/
def loopReturned (f : Frame) (c : Control) : List Event × Control :=
  match c.natives with
  | [] => ([], c)
  | n :: rest =>
    let back := { c with frames := n.savedFrames, natives := rest }
    match n.body with
    | .main => ([], { c with frames := [], natives := [] })
    | .onDo previous | .handlerBlock previous =>
      (resumedAt n.savedFrames, { back with currentExceptionHandler := previous })
    | .ensure previous =>
      ([.ranEnsure n.id],
        { back with
          frames := f :: n.savedFrames
          natives := { n with entry := f.id, body := .ensureBlock } :: rest
          currentEnsureFrame := previous })
    | .ensureBlock => (resumedAt n.savedFrames, back)
    | .transaction kind previousEnsure previousTransaction =>
      ((if kind = .readOnly then .aborted n.id else .committed n.id) :: resumedAt n.savedFrames,
        { back with
          currentEnsureFrame := previousEnsure
          currentTransactionLogFrame := previousTransaction })
    | .nestedTransaction => (resumedAt n.savedFrames, back)

/-- The activation the innermost loop was entered with. -/
def entryFp (c : Control) : Option Nat := c.natives.head?.map Native.entry

/-- `BC_RETURN_STACK_TOP`. -/
def returnStackTop (f : Frame) (c : Control) : List Event × Control :=
  match c.frames with
  | [] => ([], c)
  | top :: callers =>
    let c := { c with frames := callers }
    if entryFp c = some top.id ∨ callers = [] then loopReturned f c
    else (resumedAt callers, c)

/-- `BC_RETURN_NON_LOCAL` when the home activation is on the chain; `none` when it
is not, or when this is no block. -/
def returnNonLocal (f : Frame) (c : Control) : Option (List Event × Control) :=
  match c.frames with
  | [] => none
  | top :: _ =>
    match top.home with
    | none => none
    | some home =>
      match c.frames.dropWhile (fun g => g.id != home) with
      | [] => none
      | homeFp :: callers =>
        let c := { c with frames := callers }
        if entryFp c = some homeFp.id then some (loopReturned f c)
        else some (resumedAt callers, c)

/-! ## §4. Signals. -/

/-- `longjmp` into a C frame: everything above it is gone; `none` when the frame is
not on the stack any more. -/
def longjmp (native : Nat) (natives : List Native) : Option (Native × List Native) :=
  match natives.dropWhile (fun n => n.id != native) with
  | [] => none
  | n :: rest => some (n, rest)

/-- The ensure half of `propagate_signal`, record after record: jump to the
primitive, which runs the ensure block or aborts the transaction and propagates
the signal from there.  `none` is undefined behaviour. -/
def runEnsures : List EnsureRecord → Control → List Event × Option Control
  | [], c => ([], some c)
  | e :: previous, c =>
    match longjmp e.native c.natives with
    | none => ([], none)
    | some (n, rest) =>
      let c :=
        { c with frames := n.savedFrames, natives := n :: rest, currentEnsureFrame := previous }
      match n.body with
      | .transaction _ _ previousTransaction =>
        let (events, result) :=
          runEnsures previous { c with currentTransactionLogFrame := previousTransaction }
        (.aborted n.id :: events, result)
      | _ =>
        let (events, result) := runEnsures previous c
        (.ranEnsure n.id :: events, result)

/-- What a walk along the handlers comes to. -/
inductive HandlerSearch where
  | none
  /-- A record whose C frame is gone. -/
  | dangling
  | found (h : HandlerRecord) (previous : List HandlerRecord)
  deriving DecidableEq, Repr

/-- What becomes of a signal. -/
inductive SignalResult where
  /-- The handler block of this primitive runs. -/
  | handled (native : Nat) (c : Control)
  /-- `SIGTRAP`. -/
  | trapped
  /-- `PRIMITIVE_FAILED`. -/
  | failed
  /-- A dead record has been used. -/
  | undefined
  deriving DecidableEq, Repr

section Signal

/- The answer of `handlesSignalClass:` is Smalltalk code: a parameter. -/
variable (matchesException : Oop → Oop → Bool)

/-- The walk along the handlers. -/
def findHandler (signalClass : Oop) (natives : List Native) : List HandlerRecord → HandlerSearch
  | [] => .none
  | h :: previous =>
    if (longjmp h.native natives).isNone then .dangling
    else if matchesException h.exceptionClass signalClass then .found h previous
    else findHandler signalClass natives previous

/-- `longjmp` into the `on:do:` primitive, which pops its record and runs the
handler block in the activation `f`. -/
def deliver (f : Frame) (h : HandlerRecord) (previous : List HandlerRecord) (c : Control) :
    SignalResult :=
  match longjmp h.native c.natives with
  | none => .undefined
  | some (n, rest) =>
    .handled h.native
      { c with
        frames := f :: n.savedFrames
        natives := { n with entry := f.id, body := .handlerBlock previous } :: rest
        currentExceptionHandler := previous }

/-- `propagate_signal`. -/
def propagateSignal (f : Frame) (signalClass : Oop) (c : Control) : List Event × SignalResult :=
  match runEnsures c.currentEnsureFrame c with
  | (events, none) => (events, .undefined)
  | (events, some c) =>
    match findHandler matchesException signalClass c.natives c.currentExceptionHandler with
    | .none => (events, .trapped)
    | .dangling => (events, .undefined)
    | .found h previous => (events, deliver f h previous c)

/-- `PRIM_SIGNAL`. -/
def primSignal (f : Frame) (signalClass : Oop) (c : Control) : List Event × SignalResult :=
  if c.currentEnsureFrame ≠ [] then propagateSignal matchesException f signalClass c
  else
    match findHandler matchesException signalClass c.natives c.currentExceptionHandler with
    | .none => ([], .failed)
    | .dangling => ([], .undefined)
    | .found _ _ => propagateSignal matchesException f signalClass c

end Signal

end LivingObjects.Interp
