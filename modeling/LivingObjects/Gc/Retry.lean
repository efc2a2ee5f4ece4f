/-
  LivingObjects.Gc.Retry — `collect_and_retry_allocation`.

  What runs when an allocation has found no room: the roots are gathered from the stack,
  from the handlers, the `ensure:` frames and the transaction logs in progress and from
  the class table, `gc_collect` copies, the roots are written back, the spaces are
  exchanged, and the ip of the running loop is set anew in the code of its method.  The
  stack has word addresses, the heap byte addresses; `malloc` always has room.
-/
import LivingObjects.Gc.Cheney
import LivingObjects.Gc.StackSlots

namespace LivingObjects.Gc

open LivingObjects.Lib LivingObjects.Stack

/-! ## §1. The state of the VM. -/

/-- The words of the object memory that the collector uses. -/
structure Om where
  /-- `gc_is_registered_context`. -/
  registered : Bool
  fromFree : Nat
  fromEnd : Nat
  toFree : Nat
  toEnd : Nat
  fromStart : Nat
  toStart : Nat
  spaceSize : Nat
  tenuredStart : Nat
  tenuredEnd : Nat

/-- What an `ExceptionHandlerFrame` has as roots. -/
structure HandlerRoots where
  exceptionClass : Nat
  handlerBlock : Nat
  signaledException : Nat

/-- What an `EnsureFrame` has as roots. -/
structure EnsureRoots where
  signaledClass : Nat
  signaledPayload : Nat

/-- A triple of a transaction log. -/
structure LogTriple where
  object : Nat
  fieldIndex : Nat
  value : Nat

/-- The C frames that wait for the running loop, with the code addresses and the objects in
their locals. -/
inductive CFrame where
  | loop (ip bytecodeBase classTable : Nat)
  | ensure (savedIp savedBytecodeBase classTable ensureBlock : Nat)
  /-- The ensure block runs. -/
  | ensured (savedIp savedBytecodeBase classTable protectedResult : Nat)
  /-- It runs for a signal. -/
  | signaled (savedIp savedBytecodeBase classTable signaledClass signaledPayload : Nat)
  | onDo (savedIp savedBytecodeBase classTable : Nat)
  | transaction (savedIp savedBytecodeBase classTable : Nat)

/-- The addresses inside bytecodes. -/
def CFrame.code : CFrame → List Nat
  | .loop ip base _ => [ip, base]
  | .ensure ip base _ _ => [ip, base]
  | .ensured ip base _ _ => [ip, base]
  | .signaled ip base _ _ _ => [ip, base]
  | .onDo ip base _ => [ip, base]
  | .transaction ip base _ => [ip, base]

/-- The objects. -/
def CFrame.objects : CFrame → List Nat
  | .loop _ _ classTable => [classTable]
  | .ensure _ _ classTable ensureBlock => [classTable, ensureBlock]
  | .ensured _ _ classTable result => [classTable, result]
  | .signaled _ _ classTable signaledClass payload => [classTable, signaledClass, payload]
  | .onDo _ _ classTable => [classTable]
  | .transaction _ _ classTable => [classTable]

/-- The globals of the VM. -/
structure Globals where
  symbolTable : Nat
  symbolClass : Nat
  contextClass : Nat
  smalltalkDictionary : Nat

def Globals.objects (g : Globals) : List Nat :=
  [g.symbolTable, g.symbolClass, g.contextClass, g.smalltalkDictionary]

/-- The state of the VM at an allocation. -/
structure World where
  stack : Nat → Nat
  sp : Nat
  fp : Nat
  /-- The stack is what lies from `low` up to `base`. -/
  low : Nat
  base : Nat
  heap : Nat → Nat
  om : Om
  handlers : List HandlerRoots
  ensures : List EnsureRoots
  /-- The logs of the chain of transactions, if a transaction has one. -/
  logs : List (Option (List LogTriple))
  /-- The class table, the ip and the bytecode base of the running loop. -/
  classTable : Nat
  ip : Nat
  bytecodeBase : Nat
  frames : List CFrame
  globals : Globals
  /-- `om[GC_REMEMBERED]`, which no collection reads. -/
  remembered : Option (List LogTriple)

/-! ## §2. Methods in the heap. -/

/-- `asr #2`. -/
def asr2 (word : Nat) : Nat := if 2 ^ 63 ≤ word then word / 4 + 3 * 2 ^ 62 else word / 4

/-- `OBJ_FIELD(method, CM_BYTECODES)`. -/
def bytecodesOf (heap : Nat → Nat) (method : Nat) : Nat := heap (method + 56)

/-- The method at an address. -/
def methodAt (heap : Nat → Nat) (method : Nat) : CompiledMethod where
  numTemps := asr2 (heap (method + 40))
  bytecodes := bytecodesOf heap method + 24
  bytecodeSize := heap (bytecodesOf heap method + 16)

/-! ## §3. Roots. -/

def HandlerRoots.roots (h : HandlerRoots) : List Nat :=
  [h.exceptionClass, h.handlerBlock, h.signaledException]

def EnsureRoots.roots (e : EnsureRoots) : List Nat := [e.signaledClass, e.signaledPayload]

def LogTriple.roots (e : LogTriple) : List Nat := [e.object, e.value]

/-- `collect_transaction_log_roots`, one frame. -/
def logRoots (log : Option (List LogTriple)) : List Nat :=
  (log.getD []).flatMap LogTriple.roots

/-- `restore_exception_handler_roots`, and the roots that are left. -/
def restoreHandlers : List HandlerRoots → List Nat → List HandlerRoots × List Nat
  | _ :: hs, a :: b :: c :: roots =>
    let (hs, roots) := restoreHandlers hs roots
    (⟨a, b, c⟩ :: hs, roots)
  | hs, roots => (hs, roots)

/-- `restore_ensure_roots`. -/
def restoreEnsures : List EnsureRoots → List Nat → List EnsureRoots × List Nat
  | _ :: es, a :: b :: roots =>
    let (es, roots) := restoreEnsures es roots
    (⟨a, b⟩ :: es, roots)
  | es, roots => (es, roots)

/-- The triples of a log. -/
def restoreTriples : List LogTriple → List Nat → List LogTriple × List Nat
  | e :: es, a :: b :: roots =>
    let (es, roots) := restoreTriples es roots
    (⟨a, e.fieldIndex, b⟩ :: es, roots)
  | es, roots => (es, roots)

/-- `restore_transaction_log_roots`. -/
def restoreLogs :
    List (Option (List LogTriple)) → List Nat → List (Option (List LogTriple)) × List Nat
  | [], roots => ([], roots)
  | none :: ls, roots =>
    let (ls, roots) := restoreLogs ls roots
    (none :: ls, roots)
  | some l :: ls, roots =>
    let (l, roots) := restoreTriples l roots
    let (ls, roots) := restoreLogs ls roots
    (some l :: ls, roots)

/-- Write the roots back into the stack slots they came from. -/
def restoreSlots : List Nat → List Nat → (Nat → Nat) → Nat → Nat
  | slot :: slots, root :: roots, stack =>
    restoreSlots slots roots (Function.update stack slot root)
  | _, _, stack => stack

/-! ## §4. The collection. -/

/-- `has_gc_context_layout`. -/
def Om.hasLayout (om : Om) : Bool :=
  om.registered && om.spaceSize != 0 && om.fromStart < om.fromEnd && om.toStart < om.toEnd
    && om.fromEnd == om.fromStart + om.spaceSize && om.toEnd == om.toStart + om.spaceSize
    && om.fromStart ≤ om.fromFree && om.fromFree ≤ om.fromEnd
    && om.toStart ≤ om.toFree && om.toFree ≤ om.toEnd

/-- The spaces exchanged, and the new to-space empty. -/
def Om.exchange (om : Om) (toFree : Nat) : Om :=
  { om with
    fromFree := toFree
    fromEnd := om.toEnd
    fromStart := om.toStart
    toStart := om.fromStart
    toFree := om.fromStart
    toEnd := om.fromStart + om.spaceSize }

namespace World

variable (w : World)

/-- The slots that `gc_collect_stack_slots` reports. -/
def stackSlots : Option (List Nat) := do
  let counted ← collectStackSlots (methodAt w.heap) w.stack w.low w.base false 0 w.sp w.fp
    fun _ => 0
  let slots ← collectStackSlots (methodAt w.heap) w.stack w.low w.base true counted.count
    w.sp w.fp fun _ => 0
  return (List.range counted.count).map slots.buffer

/-- The roots besides those of the stack. -/
def otherRoots : List Nat :=
  w.handlers.flatMap HandlerRoots.roots ++ w.ensures.flatMap EnsureRoots.roots
    ++ w.logs.flatMap logRoots ++ [w.classTable]

/-- `collect_and_retry_allocation`; `none` is its 0, or a fault. -/
def collectAndRetry : Option World := do
  if !w.om.hasLayout then none
  else
    let slots ← w.stackSlots
    let (roots, s) ← gcCollect w.om.fromStart w.om.fromEnd w.om.toEnd
      (slots.map w.stack ++ w.otherRoots) ⟨w.heap, w.om.toFree⟩
    let stack := restoreSlots slots roots w.stack
    let (handlers, roots) := restoreHandlers w.handlers (roots.drop slots.length)
    let (ensures, roots) := restoreEnsures w.ensures roots
    let (logs, roots) := restoreLogs w.logs roots
    let bytecodeBase := bytecodesOf s.mem (frameMethod stack w.fp) + 24
    return { w with
      stack := stack
      heap := s.mem
      om := w.om.exchange s.free
      handlers := handlers
      ensures := ensures
      logs := logs
      classTable := roots.headD 0
      ip := bytecodeBase + (w.ip - w.bytecodeBase)
      bytecodeBase := bytecodeBase }

end World

/-! ## §5. What the roots become. -/

def HandlerRoots.map (f : Nat → Nat) (h : HandlerRoots) : HandlerRoots :=
  ⟨f h.exceptionClass, f h.handlerBlock, f h.signaledException⟩

def EnsureRoots.map (f : Nat → Nat) (e : EnsureRoots) : EnsureRoots :=
  ⟨f e.signaledClass, f e.signaledPayload⟩

def LogTriple.map (f : Nat → Nat) (e : LogTriple) : LogTriple :=
  ⟨f e.object, e.fieldIndex, f e.value⟩

section Restore

variable (f : Nat → Nat)

theorem restoreHandlers_map (hs : List HandlerRoots) (roots : List Nat) :
    restoreHandlers hs ((hs.flatMap HandlerRoots.roots).map f ++ roots)
      = (hs.map (HandlerRoots.map f), roots) := by
  induction hs with
  | nil => rfl
  | cons h hs ih =>
    show restoreHandlers (h :: hs) (f h.exceptionClass :: f h.handlerBlock
      :: f h.signaledException :: ((hs.flatMap HandlerRoots.roots).map f ++ roots)) = _
    rw [restoreHandlers, ih]
    rfl

theorem restoreEnsures_map (es : List EnsureRoots) (roots : List Nat) :
    restoreEnsures es ((es.flatMap EnsureRoots.roots).map f ++ roots)
      = (es.map (EnsureRoots.map f), roots) := by
  induction es with
  | nil => rfl
  | cons e es ih =>
    show restoreEnsures (e :: es) (f e.signaledClass :: f e.signaledPayload
      :: ((es.flatMap EnsureRoots.roots).map f ++ roots)) = _
    rw [restoreEnsures, ih]
    rfl

theorem restoreTriples_map (es : List LogTriple) (roots : List Nat) :
    restoreTriples es ((es.flatMap LogTriple.roots).map f ++ roots)
      = (es.map (LogTriple.map f), roots) := by
  induction es with
  | nil => rfl
  | cons e es ih =>
    show restoreTriples (e :: es) (f e.object :: f e.value
      :: ((es.flatMap LogTriple.roots).map f ++ roots)) = _
    rw [restoreTriples, ih]
    rfl

theorem restoreLogs_map (ls : List (Option (List LogTriple))) (roots : List Nat) :
    restoreLogs ls ((ls.flatMap logRoots).map f ++ roots)
      = (ls.map (Option.map (List.map (LogTriple.map f))), roots) := by
  induction ls with
  | nil => rfl
  | cons l ls ih =>
    cases l with
    | none =>
      show restoreLogs (none :: ls) ((ls.flatMap logRoots).map f ++ roots) = _
      rw [restoreLogs, ih]
      rfl
    | some l =>
      have hroots : (List.flatMap logRoots (some l :: ls)).map f ++ roots
          = (l.flatMap LogTriple.roots).map f ++ ((ls.flatMap logRoots).map f ++ roots) := by
        rw [List.flatMap_cons, List.map_append, List.append_assoc]
        rfl
      rw [hroots, restoreLogs, restoreTriples_map]
      show ((some _ :: (restoreLogs ls _).1, (restoreLogs ls _).2) : _ × _) = _
      rw [ih]
      rfl

/-- The slots the roots came from hold their new values, whether once reported or more often. -/
theorem restoreSlots_map (slots rest : List Nat) (stack stack' : Nat → Nat) :
    restoreSlots slots ((slots.map stack).map f ++ rest) stack'
      = fun a => if a ∈ slots then f (stack a) else stack' a := by
  induction slots generalizing stack' with
  | nil =>
    funext a
    cases rest <;> rfl
  | cons slot slots ih =>
    show restoreSlots slots ((slots.map stack).map f ++ rest)
      (Function.update stack' slot (f (stack slot))) = _
    rw [ih]
    funext a
    by_cases hmem : a ∈ slots
    · rw [if_pos hmem, if_pos (List.mem_cons_of_mem slot hmem)]
    · by_cases hslot : a = slot
      · subst hslot
        rw [if_neg hmem, if_pos List.mem_cons_self, Function.update_self]
      · rw [if_neg hmem, if_neg (by simp [hslot, hmem]), Function.update_of_ne hslot]

end Restore

namespace World

/-- The stack as the loop has it. -/
def vm (w : World) : Vm where
  mem := w.stack
  sp := w.sp
  fp := w.fp
  ip := w.ip
  heap := ⟨0, fun _ => none, fun _ => none⟩
  entryFp := 0
  limitLow := w.low
  base := w.base

/-- The VM when the roots have become what `f` says. -/
def moved (w : World) (slots : List Nat) (f : Nat → Nat) (s : Space) : World :=
  let stack := fun a => if a ∈ slots then f (w.stack a) else w.stack a
  let bytecodeBase := bytecodesOf s.mem (frameMethod stack w.fp) + 24
  { w with
    stack := stack
    heap := s.mem
    om := w.om.exchange s.free
    handlers := w.handlers.map (HandlerRoots.map f)
    ensures := w.ensures.map (EnsureRoots.map f)
    logs := w.logs.map (Option.map (List.map (LogTriple.map f)))
    classTable := f w.classTable
    ip := bytecodeBase + (w.ip - w.bytecodeBase)
    bytecodeBase := bytecodeBase }

/-- A buffer of the right size holds the entries. -/
theorem filled_entries (found : List Nat) (buffer : Nat → Nat) :
    (List.range found.length).map (filled true found.length buffer found) = found := by
  refine List.ext_getElem (by simp) fun i hi hi' => ?_
  have hroom : (true = true) ∧ (i : Int) < found.length := ⟨rfl, Int.ofNat_lt.mpr hi'⟩
  rw [List.getElem_map, List.getElem_range, filled, if_pos hroom, List.getElem?_eq_getElem hi']
  rfl

/-- The slots reported are the references among the slots visited. -/
theorem stackSlots_eq {w : World} {acts : List Activation} (h : Chain w.vm acts) :
    w.stackSlots = (chainVisits (methodAt w.heap) w.stack w.low w.base w.sp w.sp acts).map
      fun visits => visits.filter fun a => isReference (w.stack a) := by
  have hwalk : ∀ slotBuf maxSlots, collectStackSlots (methodAt w.heap) w.stack w.low w.base slotBuf
      maxSlots w.sp w.fp (fun _ => 0)
      = (chainVisits (methodAt w.heap) w.stack w.low w.base w.sp w.sp acts).map fun visits =>
          ⟨(visits.filter fun a => isReference (w.stack a)).length,
            filled slotBuf maxSlots (fun _ => 0)
              (visits.filter fun a => isReference (w.stack a))⟩ :=
    fun slotBuf maxSlots => collectStackSlots_eq h slotBuf maxSlots fun _ => 0
  unfold stackSlots
  simp only [hwalk, Option.bind_eq_bind]
  cases chainVisits (methodAt w.heap) w.stack w.low w.base w.sp w.sp acts with
  | none => rfl
  | some visits => exact congrArg some (filled_entries _ _)

/-- `collect_and_retry_allocation` on the slots that have been reported. -/
def collectReported (w : World) (slots : List Nat) : Option World := do
  if !w.om.hasLayout then none
  else
    let (roots, s) ← gcCollect w.om.fromStart w.om.fromEnd w.om.toEnd
      (slots.map w.stack ++ w.otherRoots) ⟨w.heap, w.om.toFree⟩
    let stack := restoreSlots slots roots w.stack
    let (handlers, roots) := restoreHandlers w.handlers (roots.drop slots.length)
    let (ensures, roots) := restoreEnsures w.ensures roots
    let (logs, roots) := restoreLogs w.logs roots
    let bytecodeBase := bytecodesOf s.mem (frameMethod stack w.fp) + 24
    return { w with
      stack := stack
      heap := s.mem
      om := w.om.exchange s.free
      handlers := handlers
      ensures := ensures
      logs := logs
      classTable := roots.headD 0
      ip := bytecodeBase + (w.ip - w.bytecodeBase)
      bytecodeBase := bytecodeBase }

theorem collectAndRetry_eq (w : World) :
    w.collectAndRetry = w.stackSlots.bind w.collectReported := by
  unfold collectAndRetry collectReported
  cases w.om.hasLayout with
  | true => rfl
  | false => cases w.stackSlots <;> rfl

/-- **The roots are unpacked as they were packed**, whatever slots have been reported. -/
theorem collectReported_moved {w : World} {objs : Nat → Prop} {slots : List Nat}
    (hlayout : w.om.hasLayout = true)
    (hready : Ready w.heap w.om.fromStart w.om.fromEnd w.om.toFree w.om.toEnd objs
      (slots.map w.stack ++ w.otherRoots)) :
    ∃ copied s', w.collectReported slots = some (w.moved slots
        (renamed w.heap w.om.fromStart w.om.fromEnd w.om.toFree copied) s') ∧
      Collected w.heap w.om.fromStart w.om.fromEnd w.om.toFree w.om.toEnd
        (slots.map w.stack ++ w.otherRoots) copied
        ((slots.map w.stack ++ w.otherRoots).map
          (renamed w.heap w.om.fromStart w.om.fromEnd w.om.toFree copied)) s' := by
  obtain ⟨copied, s', hrun, _, hf, hroots⟩ := hready.gcCollect_fingers
  refine ⟨copied, s', ?_, hf.collected hready hroots⟩
  unfold collectReported
  rw [hlayout]
  simp only [Bool.not_true, Bool.false_eq_true, if_false, Option.bind_eq_bind, Option.bind_some,
    hrun]
  have hdrop : ((slots.map w.stack ++ w.otherRoots).map
      (renamed w.heap w.om.fromStart w.om.fromEnd w.om.toFree copied)).drop slots.length
      = w.otherRoots.map (renamed w.heap w.om.fromStart w.om.fromEnd w.om.toFree copied) := by
    rw [List.map_append]
    exact List.drop_left' (by simp)
  rw [hdrop, List.map_append, restoreSlots_map]
  unfold otherRoots
  simp only [List.map_append, List.append_assoc, restoreHandlers_map, restoreEnsures_map,
    restoreLogs_map]
  rfl

/-- **What `collect_and_retry_allocation` does.** -/
theorem collectAndRetry_moved {w : World} {objs : Nat → Prop} {slots : List Nat}
    (hlayout : w.om.hasLayout = true) (hslots : w.stackSlots = some slots)
    (hready : Ready w.heap w.om.fromStart w.om.fromEnd w.om.toFree w.om.toEnd objs
      (slots.map w.stack ++ w.otherRoots)) :
    ∃ copied s', w.collectAndRetry = some (w.moved slots
        (renamed w.heap w.om.fromStart w.om.fromEnd w.om.toFree copied) s') ∧
      Collected w.heap w.om.fromStart w.om.fromEnd w.om.toFree w.om.toEnd
        (slots.map w.stack ++ w.otherRoots) copied
        ((slots.map w.stack ++ w.otherRoots).map
          (renamed w.heap w.om.fromStart w.om.fromEnd w.om.toFree copied)) s' := by
  obtain ⟨copied, s', hrun, hcollected⟩ := collectReported_moved hlayout hready
  refine ⟨copied, s', ?_, hcollected⟩
  rw [collectAndRetry_eq, hslots]
  exact hrun

end World

end LivingObjects.Gc
