/-
  LivingObjects.Interp.HeapPrimitives — the primitives that build and edit objects.

  Instances, closures, contexts and symbols come from `om_alloc` with the size their
  header then says for good; stores go into bodies and class words.  `readFd:count:`
  allocates a string of the size asked for and afterwards writes the number of bytes
  that `read` returned into the size word.  `walkable_iff` says for which answers the
  walk over the heap survives that: those that fill as many words as were asked for.
-/
import LivingObjects.Classes.Globals
import LivingObjects.Classes.MethodDict
import LivingObjects.ObjectMemory.Walkable
import LivingObjects.Stack.SenderChain
import LivingObjects.Txn.Transparent

namespace LivingObjects.Interp

open LivingObjects.Lib
open LivingObjects.VM
open LivingObjects.ObjectMemory
open LivingObjects.Journal
open LivingObjects.Checkpoint
open LivingObjects.Txn
open LivingObjects.Classes
open LivingObjects.SenderChain
open LivingObjects.Stack (CompiledMethod frameSavedFp frameMethod frameContext frameReceiver
  frameTemp frameNumArgs frameArg frameHasContext frameHasBlockClosure)

/-! ## §1. Closures. -/

/-- `CM_LITERALS`. -/
def cmLiterals : Nat := 3

/-- `CLASS_TABLE_BLOCK`. -/
def classTableBlock : Nat := 1

/-- `CONTEXT_CLOSURE`. -/
def contextClosure : Nat := 5

/-- `BLOCK_COPIED_BASE`. -/
def blockCopiedBase : Nat := 3

/-- `block_closure_for_frame`. -/
def blockClosureForFrame (m : Mem) (stack : Nat → Nat) (fp : Nat) : Oop :=
  if frameHasContext stack fp then objField m (frameContext stack fp) contextClosure
  else if frameHasBlockClosure stack fp then UInt64.ofNat (frameContext stack fp)
  else taggedNil

/-- `block_copied_count`. -/
def blockCopiedCount (m : Mem) (block : Oop) : Nat :=
  (objSize m block.toNat).toNat - blockCopiedBase

/-- The words stored in a new closure, in the order of its fields. -/
def closureFields (stack : Nat → Nat) (fp : Nat) (blockMethod : Oop) (numArgs numTemps : Nat) :
    List UInt64 :=
  let homeContext := if frameHasContext stack fp then frameContext stack fp else 0
  [ if homeContext = 0 then taggedNil else UInt64.ofNat homeContext,
    UInt64.ofNat (frameReceiver stack fp),
    blockMethod ]
  ++ ((List.range numArgs).map (fun i => UInt64.ofNat (frameArg stack fp i))
  ++ (List.range numTemps).map (fun i => UInt64.ofNat (frameTemp stack fp i)))

/-- An interpreter loop at a bytecode: its stack and its frame; `depth` bounds the
frames below it. -/
structure LoopStack where
  words : Nat → Nat
  sp : Nat
  fp : Nat
  depth : Nat

section Loop

variable (code : Nat → CompiledMethod)

/-- `ensure_frame_context_with_retry` without a collector to retry with. -/
def LoopStack.ensureContext (l : LoopStack) (g : Globals) (h : Heap) : Nat × (Nat → Nat) × Heap :=
  if g.contextClass = 0 then (0, l.words, h)
  else ensureFrameContextWithSp code g.contextClass l.depth (some l.sp) l.fp l.words h

/-- The objects after the allocations of `ensure_frame_context_with_sp`. -/
def ensureLives (contextClass : Oop) :
    Nat → Option Nat → Nat → (Nat → Nat) → Heap → Set Extent → Set Extent
  | 0, _, _, _, _, live => live
  | depth + 1, sp, fp, stack, h, live =>
    if fp = 0 then live
    else if frameHasContext stack fp then live
    else
      match omAllocFields h contextClass (fieldCount code sp stack fp) with
      | none => live
      | some (context, h) =>
        ensureLives contextClass depth none (frameSavedFp stack fp) stack h
          (insert ⟨context, 8 * (3 + fieldCount code sp stack fp)⟩ live)

/-- The objects after `LoopStack.ensureContext`. -/
def LoopStack.ensureLives (l : LoopStack) (g : Globals) (s : Arena) : Set Extent :=
  if g.contextClass = 0 then s.live
  else Interp.ensureLives code g.contextClass l.depth (some l.sp) l.fp l.words s.heap s.live

/-- `BC_PUSH_THIS_CONTEXT`, for the heap. -/
def LoopStack.pushThisContext (l : LoopStack) (g : Globals) (s : Arena) : Arena where
  heap := (l.ensureContext code g s.heap).2.2
  live := l.ensureLives code g s

/-- `BC_PUSH_CLOSURE`, for the heap. -/
def LoopStack.pushClosure (l : LoopStack) (g : Globals) (classTable literalIndex : Nat)
    (s : Arena) : Arena :=
  let method := frameMethod l.words l.fp
  let numArgs := frameNumArgs l.words l.fp
  let closure := blockClosureForFrame s.heap.mem l.words l.fp
  let numTemps := (code method).numTemps
    + (if closure = taggedNil then 0 else blockCopiedCount s.heap.mem closure)
  let literals := objField s.heap.mem method cmLiterals
  let blockMethod := objField s.heap.mem literals.toNat literalIndex
  let blockClass := objField s.heap.mem classTable classTableBlock
  let (context, stack, h) := l.ensureContext code g s.heap
  let live := l.ensureLives code g s
  if g.contextClass ≠ 0 ∧ context = 0 then { heap := h, live := live }
  else
    let n := blockCopiedBase + (numArgs + numTemps)
    match omAllocFields h blockClass n with
    | none => { heap := h, live := live }
    | some (block, h) =>
      { heap := { h with
          mem := storeFields h.mem block (closureFields stack l.fp blockMethod numArgs numTemps) }
        live := insert ⟨block, 8 * (3 + n)⟩ live }

end Loop

/-! ## §2. `readFd:count:`. -/

/-- The name of the class of strings. -/
def stringName : CString where
  bytes := [83, 116, 114, 105, 110, 103]
  noNul := by simp
  fits := by decide

/-- The string `readFd:count:` asks for, when its arguments are in order and `String` is
bound to an object; `none` when it answers nil at once. -/
def readRequest (m : Mem) (g : Globals) (fd count : Oop) : Option AllocRequest :=
  if isSmallint fd = false ∨ isSmallint count = false then none
  else
    let requested := untagSmallint count
    if requested < 0 then none
    else
      let stringClass := smalltalkLookupGlobalValue m g stringName
      if stringClass = 0 ∨ isObjectPtr stringClass = false then none
      else (allocRequest stringClass formatBytes requested).toOption

/-- `prim_read_fd_count`.  `answer` is what `read` returns after the interrupted calls:
the bytes, no bytes at the end of the file, or `none` for an error. -/
def primReadFdCount (g : Globals) (fd count : Oop) (answer : Option (List UInt8)) (s : Arena) :
    Oop × Arena :=
  match readRequest s.heap.mem g fd count with
  | none => (taggedNil, s)
  | some req =>
    match omAlloc s.heap req with
    | none => (taggedNil, s)
    | some (string, h) =>
      let live := insert ⟨string, req.totalBytes⟩ s.live
      if untagSmallint count = 0 then (UInt64.ofNat string, { heap := h, live := live })
      else
        let bytes := answer.getD []
        if bytes = [] then (taggedNil, { heap := h, live := live })
        else
          let m := putBytes h.mem (objFieldAddr string 0) bytes
          -- `OBJ_SIZE(string) = bytes_read`
          let m := store64 m (string + 16) (UInt64.ofNat bytes.length)
          (UInt64.ofNat string, { heap := { h with mem := m }, live := live })

/-! ## §3. Runs. -/

/-- The object memory and the globals. -/
structure HeapState where
  arena : Arena
  globals : Globals

/-- What the VM does with the heap. -/
inductive HeapAct where
  /-- The loader or the bootstrap sets the globals. -/
  | bind (globals : Globals)
  /-- `om_alloc`, called by the loader or the compiler. -/
  | alloc (req : AllocRequest)
  /-- A bytecode or a primitive, `basicNew`, `basicNew:` and the stores among them, with
  the log of the transaction it runs in. -/
  | perform (depth : Nat) (log : Option LogWords) (op : Op)
  /-- The end of a transaction. -/
  | commit (log : TxnLog)
  | pushThisContext (l : LoopStack)
  | pushClosure (l : LoopStack) (classTable literalIndex : Nat)
  | asSymbol (receiver : Oop)
  | intern (text : CString)
  | readFd (fd count : Oop) (answer : Option (List UInt8))

variable (code : Nat → CompiledMethod)

/-- The heap and the objects after an action. -/
def HeapAct.run (s : HeapState) : HeapAct → Arena
  | .bind _ => s.arena
  | .alloc req => s.arena.step (.alloc req)
  | .perform depth log op =>
    { heap := (op.run depth ⟨s.arena.heap, log⟩).2.heap
      live := op.lives s.arena.heap s.arena.live }
  | .commit log => { s.arena with heap := (Mutation.commit log).run s.arena.heap }
  | .pushThisContext l => l.pushThisContext code s.globals s.arena
  | .pushClosure l classTable literalIndex =>
    l.pushClosure code s.globals classTable literalIndex s.arena
  | .asSymbol receiver =>
    let r := primStringAsSymbol s.arena.heap.mem s.globals.symbolTable s.globals.symbolClass receiver
    { s.arena with heap := { s.arena.heap with mem := r.2 } }
  | .intern text =>
    (internCstringSymbol s.arena s.globals.symbolTable s.globals.symbolClass text).2
  | .readFd fd count answer => (primReadFdCount s.globals fd count answer s.arena).2

/-- One action. -/
def HeapState.step (s : HeapState) (act : HeapAct) : HeapState where
  arena := act.run code s
  globals :=
    match act with
    | .bind globals => globals
    | _ => s.globals

/-- The symbol table is `NULL` or a live object with fields. -/
def TableLive (g : Globals) (s : Arena) : Prop :=
  g.symbolTable = 0 ∨
    ∃ e ∈ s.live, e.addr = g.symbolTable ∧ objFormat s.heap.mem g.symbolTable ≠ formatBytes

/-- What the callers see to: the symbol table is an array, what is tagged as an object
is one, the entries of a log are slots of objects, and `read` returns no more than it
was asked for. -/
def HeapAct.Legal (s : HeapState) : HeapAct → Prop
  | .bind globals => TableLive globals s.arena
  | .perform _ log op => op.Legal ⟨s.arena.heap, log⟩ s.arena.live
  | .commit log => ∀ e ∈ log.entries, isObjectPtr e.object = true ∧
      SlotIn s.arena.heap s.arena.live e
  | .alloc _ | .pushThisContext _ | .pushClosure .. | .intern _ => True
  | .asSymbol receiver => isObjectPtr receiver = true →
      ∃ e ∈ s.arena.live, e.addr = receiver.toNat
  | .readFd _ count answer =>
    ∀ bytes, answer = some bytes → (bytes.length : Int) ≤ max 0 (untagSmallint count)

/-- A read that returns bytes into a new string fills as many words as were asked for. -/
def HeapAct.FillsWords (s : HeapState) : HeapAct → Prop
  | .readFd fd count answer =>
    ∀ req, readRequest s.arena.heap.mem s.globals fd count = some req →
      (omAlloc s.arena.heap req).isSome →
      ∀ bytes, answer = some bytes → bytes ≠ [] →
        (bytes.length + 7) / 8 = ((untagSmallint count).toNat + 7) / 8
  | _ => True

/-- A fresh object memory on a buffer, with no globals yet. -/
def HeapState.initial (buffer : Buffer) (m : Mem) : HeapState where
  arena := Arena.initial buffer m
  globals := ⟨0, 0, 0, 0⟩

/-! ## §4. Each action allocates and edits. -/

section Actions

variable {h : Heap} {live : Set Extent}

/-- Where the object of an allocation of fields lies. -/
theorem omAllocFields_alloc {classPtr : Oop} {n obj : Nat} {h₁ : Heap}
    (ha : omAllocFields h classPtr n = some (obj, h₁)) :
    ∃ req : AllocRequest, omAlloc h req = some (obj, h₁) ∧ req.totalBytes = 8 * (3 + n) := by
  unfold omAllocFields at ha
  split at ha
  case isFalse => cases ha
  next hfits =>
  refine ⟨fieldsRequest classPtr n hfits, ha, ?_⟩
  show 8 * (3 + (UInt64.ofNat n).toNat) = _
  rw [toNat_ofNat64 (by omega)]

/-- Fields stored in an object that has room for them. -/
theorem storeFields_edits (hk : Kept h live) {obj n : Nat} (hobj : ⟨obj, 8 * (3 + n)⟩ ∈ live)
    {values : List UInt64} (hvalues : values.length = n) :
    Edits live h { h with mem := storeFields h.mem obj values } := by
  refine edits_of_body hk (SameButDirty.refl _) hobj fun a ha => ?_
  obtain ⟨-, hother⟩ := storeFields_spec values h.mem obj
  refine hother a ?_
  simp only at ha
  unfold objFieldAddr
  rw [hvalues]
  omega

/-- **Contexts.**  The induction is on the frames; the context of a frame is there
before those of its callers and gets its fields after them. -/
theorem ensureFrameContextWithSp_builds (contextClass : Oop) (depth : Nat) (sp : Option Nat)
    (fp : Nat) (stack : Nat → Nat) (hk : Kept h live) :
    Builds h live (ensureFrameContextWithSp code contextClass depth sp fp stack h).2.2
      (ensureLives code contextClass depth sp fp stack h live) := by
  induction depth generalizing sp fp h live with
  | zero => exact .done
  | succ depth ih =>
    rw [ensureFrameContextWithSp, ensureLives]
    by_cases hzero : fp = 0
    · rw [if_pos hzero, if_pos hzero]
      exact .done
    rw [if_neg hzero, if_neg hzero]
    by_cases hhas : frameHasContext stack fp = true
    · rw [if_pos hhas, if_pos hhas]
      exact .done
    rw [if_neg hhas, if_neg hhas]
    cases ha : omAllocFields h contextClass (fieldCount code sp stack fp) with
    | none => exact .done
    | some placed =>
      obtain ⟨context, h₁⟩ := placed
      obtain ⟨req, halloc, htotal⟩ := omAllocFields_alloc ha
      have hkept := hk.alloc halloc
      rw [htotal] at hkept
      have hcallers := ih none (frameSavedFp stack fp) hkept
      have hfields := storeFields_edits (hcallers.kept hkept)
        ((hcallers.old hkept).1 (Set.mem_insert _ _))
        (contextFields_length code sp fp stack
          (ensureFrameContextWithSp code contextClass depth none (frameSavedFp stack fp) stack h₁).2.1
          (ensureFrameContextWithSp code contextClass depth none (frameSavedFp stack fp) stack h₁).2.2.mem
          (ensureFrameContextWithSp code contextClass depth none (frameSavedFp stack fp) stack h₁).1)
      have hrest := hcallers.trans (.of_edit hfields)
      rw [← htotal] at hrest
      simp only
      rw [← htotal]
      exact .alloc halloc hrest

/-- `BC_PUSH_THIS_CONTEXT`. -/
theorem ensureContext_builds (l : LoopStack) (g : Globals) {s : Arena} (hk : Kept s.heap s.live) :
    Builds s.heap s.live (l.ensureContext code g s.heap).2.2 (l.ensureLives code g s) := by
  unfold LoopStack.ensureContext LoopStack.ensureLives
  split
  · exact .done
  · exact ensureFrameContextWithSp_builds code g.contextClass l.depth (some l.sp) l.fp l.words hk

theorem closureFields_length (stack : Nat → Nat) (fp : Nat) (blockMethod : Oop)
    (numArgs numTemps : Nat) :
    (closureFields stack fp blockMethod numArgs numTemps).length
      = blockCopiedBase + (numArgs + numTemps) := by
  unfold closureFields blockCopiedBase
  simp only [List.length_append, List.length_cons, List.length_nil, List.length_map,
    List.length_range]

/-- `BC_PUSH_CLOSURE`. -/
theorem pushClosure_builds (l : LoopStack) (g : Globals) (classTable literalIndex : Nat)
    {s : Arena} (hk : Kept s.heap s.live) :
    Builds s.heap s.live (l.pushClosure code g classTable literalIndex s).heap
      (l.pushClosure code g classTable literalIndex s).live := by
  have hcontext := ensureContext_builds code l g hk
  have hkept := hcontext.kept hk
  unfold LoopStack.pushClosure
  simp only
  split
  · exact hcontext
  · split
    · exact hcontext
    · next block h₁ ha =>
      obtain ⟨req, halloc, htotal⟩ := omAllocFields_alloc ha
      have hblock := hkept.alloc halloc
      rw [htotal] at hblock
      have hfields := storeFields_edits hblock (Set.mem_insert _ _)
        (closureFields_length (l.ensureContext code g s.heap).2.1 l.fp
          (objField s.heap.mem (objField s.heap.mem (frameMethod l.words l.fp) cmLiterals).toNat
            literalIndex) (frameNumArgs l.words l.fp)
          ((code (frameMethod l.words l.fp)).numTemps
            + (if blockClosureForFrame s.heap.mem l.words l.fp = taggedNil then 0
              else blockCopiedCount s.heap.mem (blockClosureForFrame s.heap.mem l.words l.fp))))
      have hrest := Builds.of_edit hfields
      rw [← htotal] at hrest ⊢
      exact hcontext.trans (.alloc halloc hrest)

/-- `om_alloc`. -/
theorem omAlloc_builds (req : AllocRequest) :
    Builds h live (Arena.step ⟨h, live⟩ (.alloc req)).heap
      (Arena.step ⟨h, live⟩ (.alloc req)).live := by
  unfold Arena.step
  cases ha : omAlloc h req with
  | none =>
    simp only [ha]
    exact .done
  | some placed =>
    simp only [ha]
    exact .alloc ha .done

/-- A new object and its nil fields. -/
theorem alloc_builds (hk : Kept h live) (log : Option LogWords) (req : AllocRequest) :
    Builds h live (LoopHeap.alloc ⟨h, log⟩ req).2.heap ((Mutation.alloc req).lives h live) := by
  unfold LoopHeap.alloc Mutation.lives
  cases ha : omAlloc h req with
  | none =>
    simp only [ha]
    exact .done
  | some placed =>
    obtain ⟨obj, h₁⟩ := placed
    simp only [ha]
    refine .alloc ha (.of_edit ?_)
    split
    · exact edits_of_bodies (hk.alloc ha) (SameButDirty.refl _) fun _ _ => rfl
    · next hfields =>
      refine edits_of_body (hk.alloc ha) (SameButDirty.refl _) (Set.mem_insert _ _) fun a hout => ?_
      have htotal : req.totalBytes = 8 * (3 + req.size.toNat) := by
        unfold AllocRequest.totalBytes slotWords
        rw [if_neg hfields]
      refine initializeWordFields_leaves obj req.size.toNat ?_ h₁.mem
      simp only at hout
      omega

/-- A store into the body of an object, with the page marked. -/
theorem store_edits (hk : Kept h live) {e : Extent} (he : e ∈ live) {w : BodyWrite}
    (hlo : e.addr + 24 ≤ w.address) (hhi : w.address + w.size ≤ e.addr + e.bytes) :
    Edits live h { om := w.mark h.om, mem := w.store h.mem } :=
  edits_of_body hk (w.mark_same h.om) he fun _ ha => w.store_of_out h.mem (by omega)

/-- A store that goes to the log when there is one. -/
theorem write_builds (hk : Kept h live) (log : Option LogWords) (entry : LogEntry) {e : Extent}
    (he : e ∈ live) {w : BodyWrite} (hlo : e.addr + 24 ≤ w.address)
    (hhi : w.address + w.size ≤ e.addr + e.bytes) :
    Builds h live (LoopHeap.write ⟨h, log⟩ entry w).heap live := by
  cases log with
  | some words => exact .done
  | none => exact .of_edit (store_edits hk he hlo hhi)

/-- The words of an object that is not a byte object lie in it. -/
theorem word_room (hk : Kept h live) {e : Extent} (he : e ∈ live) {i : Nat}
    (hi : i < objectSlotCount h.mem e.addr) (value : Oop) :
    e.addr + 24 ≤ (BodyWrite.word e.addr i value).address ∧
      (BodyWrite.word e.addr i value).address + 8 ≤ e.addr + e.bytes := by
  have hheader := (hk.layout.objects e he).header
  have hbelow := (hk.layout.objects e he).below
  have hfree := hk.layout.placed.freeLimit
  have hlimit := hk.layout.placed.limitStop
  have hstop := hk.layout.placed.stopBound
  have haddress : wrap64 (objFieldAddr e.addr i) = e.addr + 24 + 8 * i := by
    unfold objFieldAddr
    exact wrap64_of_lt (by omega)
  show e.addr + 24 ≤ wrap64 (objFieldAddr e.addr i) ∧ wrap64 (objFieldAddr e.addr i) + 8 ≤ _
  omega

/-- The bytes of a byte object lie in it. -/
theorem byte_room (hk : Kept h live) {e : Extent} (he : e ∈ live)
    (hformat : objFormat h.mem e.addr = formatBytes) {i : Nat}
    (hi : i < (objSize h.mem e.addr).toNat) (value : UInt8) :
    e.addr + 24 ≤ (BodyWrite.byte e.addr i value).address ∧
      (BodyWrite.byte e.addr i value).address + 1 ≤ e.addr + e.bytes := by
  have hheader := (hk.layout.objects e he).header
  have hbelow := (hk.layout.objects e he).below
  have hfree := hk.layout.placed.freeLimit
  have hlimit := hk.layout.placed.limitStop
  have hstop := hk.layout.placed.stopBound
  have hsize := hk.sized e he hformat
  have hslots : objectSlotCount h.mem e.addr = ((objSize h.mem e.addr).toNat + 7) / 8 := by
    unfold objectSlotCount slotWords wordSize
    rw [if_pos hformat, wrap64_of_lt (by omega)]
  have haddress : wrap64 (objFieldAddr e.addr 0 + i) = e.addr + 24 + i := by
    unfold objFieldAddr
    exact wrap64_of_lt (by omega)
  show e.addr + 24 ≤ wrap64 (objFieldAddr e.addr 0 + i) ∧
    wrap64 (objFieldAddr e.addr 0 + i) + 1 ≤ _
  omega

/-- The bytecodes and primitives that work on object bodies. -/
theorem perform_builds (hk : Kept h live) (depth : Nat) (log : Option LogWords) {op : Op}
    (hlegal : op.Legal ⟨h, log⟩ live) :
    Builds h live (op.run depth ⟨h, log⟩).2.heap (op.lives h live) := by
  cases op with
  | primBasicNew cls =>
    unfold Op.run Op.lives
    simp only
    cases (readBasicNew cls).run h.mem with
    | error r => exact .done
    | ok req => exact alloc_builds hk log req
  | primBasicNewSize cls size =>
    unfold Op.run Op.lives
    simp only
    cases (readBasicNewSize cls size).run h.mem with
    | error r => exact .done
    | ok req => exact alloc_builds hk log req
  | storeInstVar r index value =>
    obtain ⟨e, he, haddr, -, hindex⟩ := hlegal
    simp only [← haddr] at hindex
    obtain ⟨hlo, hhi⟩ := word_room hk he hindex value
    unfold Op.run Op.lives
    simp only [← haddr]
    exact write_builds hk log _ he hlo hhi
  | primAtPut r index value =>
    unfold Op.run Op.lives
    simp only
    cases htarget : (readTarget r index).run h.mem with
    | error reply => exact .done
    | ok target =>
      obtain ⟨format, i⟩ := target
      have hptr : isObjectPtr r = true := by
        by_contra hno
        unfold readTarget at htarget
        rw [if_pos (by simpa using hno)] at htarget
        cases htarget
      obtain ⟨e, he, haddr⟩ := hlegal hptr
      obtain ⟨hformat, hi⟩ := readTarget_ok hk.layout he haddr htarget
      rw [← haddr] at hformat hi
      simp only
      unfold LoopHeap.storeAt
      split
      · next hbytes =>
        obtain ⟨hlo, hhi⟩ := byte_room hk he (hformat.symm.trans hbytes) hi
          (UInt8.ofNat (untagSmallint value).toNat)
        rw [← haddr]
        split
        · exact .done
        · exact write_builds hk log _ he hlo hhi
      · split
        · next hbytes hindexable =>
          have hslot : i < objectSlotCount h.mem e.addr := by
            unfold objectSlotCount slotWords
            rw [← hformat, if_neg hbytes]
            exact hi
          obtain ⟨hlo, hhi⟩ := word_room hk he hslot value
          rw [← haddr]
          exact write_builds hk log _ he hlo hhi
        · exact .done
  | fetch bytecodes offset => exact .done
  | pushLiteral method index => exact .done
  | pushGlobal method index => exact .done
  | sendMessage receiver selector classTable => exact .done
  | primStringEq receiver arg => exact .done
  | primStringHashFnv receiver => exact .done
  | primSize receiver => exact .done
  | pushInstVar receiver index =>
    unfold Op.run Op.lives
    simp only
    split
    · exact .done
    · exact .done
  | primAt receiver index =>
    unfold Op.run Op.lives
    simp only
    split
    · exact .done
    · exact .done

/-- The end of a transaction. -/
theorem commit_builds (hk : Kept h live) {log : TxnLog}
    (hslots : ∀ e ∈ log.entries, SlotIn h live e) :
    Builds h live ((Mutation.commit log).run h) live := by
  have hheader : ∀ x ∈ live, ∀ i, i < 24 → txnCommit h.mem log (x.addr + i) = h.mem (x.addr + i) :=
    fun x hx i hi => leaves_foldl (fun e he => (hslots e he).leaves_header hk.layout hx hi) h.mem
  have hformat : ∀ x ∈ live, objFormat (txnCommit h.mem log) x.addr = objFormat h.mem x.addr := by
    intro x hx
    apply load64_congr
    intro i hi
    rw [Nat.add_assoc]
    exact hheader x hx (8 + i) (by omega)
  have hsize : ∀ x ∈ live, objSize (txnCommit h.mem log) x.addr = objSize h.mem x.addr := by
    intro x hx
    apply load64_congr
    intro i hi
    rw [Nat.add_assoc]
    exact hheader x hx (16 + i) (by omega)
  exact .of_edit
    { tables := markEntries_same log.entries h.om
      format := hformat
      size := fun x hx => Nat.le_of_eq (congrArg UInt64.toNat (hsize x hx))
      words := fun x hx => objectSlotCount_congr (hformat x hx) (hsize x hx) }

/-- A field of the symbol table lies in its body. -/
theorem table_room (hk : Kept h live) {e : Extent} (he : e ∈ live)
    (hformat : objFormat h.mem e.addr ≠ formatBytes) :
    24 + 8 * (objSize h.mem e.addr).toNat = e.bytes := by
  have hheader := (hk.layout.objects e he).header
  unfold objectSlotCount slotWords at hheader
  rw [if_neg hformat] at hheader
  omega

/-- `PRIM_STRING_AS_SYMBOL`: the class word of the receiver and a field of the table. -/
theorem asSymbol_builds (hk : Kept h live) {g : Globals} (htable : TableLive g ⟨h, live⟩)
    {receiver : Oop} (hreceiver : isObjectPtr receiver = true → ∃ e ∈ live, e.addr = receiver.toNat) :
    Builds h live
      { h with mem := (primStringAsSymbol h.mem g.symbolTable g.symbolClass receiver).2 } live := by
  have hnothing : Builds h live { h with mem := h.mem } live := .done
  unfold primStringAsSymbol
  split
  · exact hnothing
  next hptr =>
  split
  · exact hnothing
  next hglobals =>
  simp only
  split
  · exact hnothing
  split
  · exact hnothing
  next i hentry =>
  obtain ⟨hi, -⟩ := freeEntry_some hentry
  obtain ⟨r, hr, hraddr⟩ := hreceiver (by simpa using hptr)
  rcases htable with hzero | ⟨t, ht, htaddr, hformat⟩
  · exact absurd (.inl hzero) hglobals
  simp only at ht hformat
  rw [← htaddr] at hformat hi
  have hroom := table_room hk ht hformat
  refine .of_edit (edits_of_bodies hk (SameButDirty.refl _) fun a ha => ?_)
  have hofTable := ha t ht
  have hofReceiver := ha r hr
  have hheader := (hk.layout.objects r hr).nonempty
  rw [← htaddr, ← hraddr]
  show store64 (store64 h.mem r.addr g.symbolClass) (objFieldAddr t.addr i) receiver a = h.mem a
  rw [store64_of_out _ _ (by unfold objFieldAddr; omega), store64_of_out _ _ (by omega)]

/-- `intern_cstring_symbol`. -/
theorem intern_builds {s : Arena} (hk : Kept s.heap s.live) {g : Globals} (htable : TableLive g s)
    (text : CString) :
    Builds s.heap s.live (internCstringSymbol s g.symbolTable g.symbolClass text).2.heap
      (internCstringSymbol s g.symbolTable g.symbolClass text).2.live := by
  unfold internCstringSymbol
  split
  · exact .done
  next hglobals =>
  simp only
  split
  · exact .done
  cases ha : omAlloc s.heap (symbolRequest g.symbolClass text) with
  | none => exact .done
  | some placed =>
    obtain ⟨obj, h₁⟩ := placed
    simp only
    have hkept := hk.alloc ha
    have htotal : (symbolRequest g.symbolClass text).totalBytes
        = 8 * (3 + (text.bytes.length + 7) / 8) := by
      show 8 * (3 + slotWords formatBytes text.size) = _
      rw [text.slotWords]
    have hcopy : Edits (insert ⟨obj, (symbolRequest g.symbolClass text).totalBytes⟩ s.live) h₁
        { h₁ with mem := putBytes h₁.mem (objFieldAddr obj 0) text.bytes } := by
      refine edits_of_body hkept (SameButDirty.refl _) (Set.mem_insert _ _) fun a hout => ?_
      simp only at hout
      exact putBytes_of_out _ _ (by unfold objFieldAddr; omega)
    have hcopied := hkept.edit hcopy
    rcases htable with hzero | ⟨t, ht, htaddr, hformat⟩
    · exact absurd (.inl hzero) hglobals
    cases hentry : freeEntry (putBytes h₁.mem (objFieldAddr obj 0) text.bytes) g.symbolTable
        (objSize s.heap.mem g.symbolTable).toNat with
    | none => exact .alloc ha (.of_edit hcopy)
    | some i =>
      -- the table is an old object: the entry lies in it
      obtain ⟨hi, -⟩ := freeEntry_some hentry
      rw [← htaddr] at hformat hi
      have hroom := table_room hk ht hformat
      simp only
      refine .alloc ha (.edit hcopy (.of_edit ?_))
      refine edits_of_body hcopied (SameButDirty.refl _) (Set.mem_insert_of_mem _ ht) fun a hout => ?_
      rw [← htaddr]
      exact store64_of_out _ _ (by unfold objFieldAddr; omega)

/-! ## §5. The size word after a read. -/

/-- What `readFd:count:` asks for. -/
theorem readRequest_some {m : Mem} {g : Globals} {fd count : Oop} {req : AllocRequest}
    (hreq : readRequest m g fd count = some req) :
    req.format = formatBytes ∧
      req.totalBytes = 8 * (3 + ((untagSmallint count).toNat + 7) / 8) ∧
      req.size.toNat = (untagSmallint count).toNat := by
  unfold readRequest at hreq
  split at hreq
  · cases hreq
  simp only at hreq
  split at hreq
  · cases hreq
  next hsign =>
  split at hreq
  · cases hreq
  unfold allocRequest at hreq
  split at hreq
  case isFalse => cases hreq
  next hfits =>
  -- a tagged count is far below the end of the address space
  have hcount := untagSmallint_eq count
  have hlt := count.toNat_lt
  have hsmall : (untagSmallint count).toNat < 2 ^ 61 := by
    split at hcount <;> omega
  obtain rfl := Option.some.inj hreq
  have hsize : (UInt64.ofNat (untagSmallint count).toNat).toNat = (untagSmallint count).toNat :=
    toNat_ofNat64 (by omega)
  refine ⟨rfl, ?_, hsize⟩
  show 8 * (3 + slotWords formatBytes (UInt64.ofNat (untagSmallint count).toNat)) = _
  unfold slotWords wordSize
  rw [if_pos rfl, hsize, wrap64_of_lt (by omega)]

/-- The memory after the bytes and the size word are stored. -/
def afterRead (m : Mem) (string : Nat) (bytes : List UInt8) : Mem :=
  store64 (putBytes m (objFieldAddr string 0) bytes) (string + 16) (UInt64.ofNat bytes.length)

/-- The headers after the read: the new string has the size of the bytes, and all else
is as it was. -/
theorem afterRead_headers (hk : Kept h live) {string n : Nat} (hstring : ⟨string, 8 * (3 + n)⟩ ∈ live)
    (bytes : List UInt8) (hbytes : bytes.length ≤ 8 * n) :
    objSize (afterRead h.mem string bytes) string = UInt64.ofNat bytes.length ∧
    (∀ e ∈ live, objFormat (afterRead h.mem string bytes) e.addr = objFormat h.mem e.addr) ∧
    ∀ e ∈ live, e.addr ≠ string →
      objSize (afterRead h.mem string bytes) e.addr = objSize h.mem e.addr := by
  have hkeep : ∀ a, (a < string + 16 ∨ string + 24 ≤ a) → a < string + 24 ∨ string + 8 * (3 + n) ≤ a →
      afterRead h.mem string bytes a = h.mem a := by
    intro a hsize hbody
    unfold afterRead
    rw [store64_of_out _ _ (by omega)]
    exact putBytes_of_out _ _ (by unfold objFieldAddr; omega)
  have hheader := hk.layout.objects _ hstring
  -- an address in the header of another object is none of the string's
  have hother : ∀ e ∈ live, e.addr ≠ string → ∀ i, i < 24 →
      afterRead h.mem string bytes (e.addr + i) = h.mem (e.addr + i) := by
    intro e he hne i hi
    have hroom := (hk.layout.objects e he).nonempty
    have hout : e.addr + i < string ∨ string + 8 * (3 + n) ≤ e.addr + i := by
      by_contra hin
      have hsame := hk.layout.disjoint e he _ hstring (e.addr + i) ⟨by omega, by omega⟩
        ⟨by simp only; omega, by simp only; omega⟩
      exact hne (congrArg Extent.addr hsame)
    exact hkeep _ (by omega) (by omega)
  refine ⟨load64_store64_self _ _ _, fun e he => ?_, fun e he hne => ?_⟩
  · by_cases hne : e.addr = string
    · rw [hne]
      exact load64_congr fun i hi => hkeep _ (by omega) (by omega)
    · refine load64_congr fun i hi => ?_
      rw [Nat.add_assoc]
      exact hother e he hne (8 + i) (by omega)
  · refine load64_congr fun i hi => ?_
    rw [Nat.add_assoc]
    exact hother e he hne (16 + i) (by omega)

/-- The bytes of the new string as its header tells them. -/
theorem afterRead_bytes (hk : Kept h live) {string n : Nat} (hstring : ⟨string, 8 * (3 + n)⟩ ∈ live)
    (hformat : objFormat h.mem string = formatBytes) (bytes : List UInt8)
    (hbytes : bytes.length ≤ 8 * n) :
    objectSlotCount (afterRead h.mem string bytes) string = (bytes.length + 7) / 8 ∧
      omObjectBytes (afterRead h.mem string bytes) string = 8 * (3 + (bytes.length + 7) / 8) := by
  obtain ⟨hsize, hformats, -⟩ := afterRead_headers hk hstring bytes hbytes
  have hinside := hk.layout.separate.inMemory _ hstring
  simp only at hinside
  have hslots : objectSlotCount (afterRead h.mem string bytes) string = (bytes.length + 7) / 8 := by
    unfold objectSlotCount slotWords wordSize
    rw [hformats _ hstring, hformat, if_pos rfl, hsize, toNat_ofNat64 (by omega),
      wrap64_of_lt (by omega)]
  have hbelow := (hk.layout.objects _ hstring).below
  have hlimit := hk.layout.placed.limitStop
  have hfree := hk.layout.placed.freeLimit
  have hstop := hk.layout.placed.stopBound
  simp only at hbelow
  have hwords : omObjectWords (afterRead h.mem string bytes) string
      = 3 + (bytes.length + 7) / 8 := by
    unfold omObjectWords objHeaderWords
    rw [hslots, wrap64_of_lt (by omega)]
  refine ⟨hslots, ?_⟩
  unfold omObjectBytes wordSize
  rw [hwords, wrap64_of_lt (by omega), Nat.mul_comm]

/-- `prim_read_fd_count` when `read` returns bytes. -/
theorem primReadFdCount_read {s : Arena} {g : Globals} {fd count : Oop} {req : AllocRequest}
    {string : Nat} {h₁ : Heap} {bytes : List UInt8}
    (hreq : readRequest s.heap.mem g fd count = some req)
    (ha : omAlloc s.heap req = some (string, h₁)) (hcount : untagSmallint count ≠ 0)
    (hbytes : bytes ≠ []) :
    (primReadFdCount g fd count (some bytes) s).2
      = { heap := { h₁ with mem := afterRead h₁.mem string bytes }
          live := insert ⟨string, req.totalBytes⟩ s.live } := by
  unfold primReadFdCount
  simp only [hreq, ha]
  rw [if_neg hcount]
  show (if bytes = [] then _ else _ : Oop × Arena).2 = _
  rw [if_neg hbytes]
  rfl

/-- `prim_read_fd_count`, in the cases of its result. -/
theorem primReadFdCount_cases (s : Arena) (g : Globals) (fd count : Oop)
    (answer : Option (List UInt8)) :
    (primReadFdCount g fd count answer s).2 = s ∨
    ∃ req string h₁, readRequest s.heap.mem g fd count = some req ∧
      omAlloc s.heap req = some (string, h₁) ∧
      ((primReadFdCount g fd count answer s).2
          = { heap := h₁, live := insert ⟨string, req.totalBytes⟩ s.live } ∧
        (untagSmallint count = 0 ∨ answer.getD [] = []) ∨
      ∃ bytes, answer = some bytes ∧ bytes ≠ [] ∧ untagSmallint count ≠ 0 ∧
        (primReadFdCount g fd count answer s).2
          = { heap := { h₁ with mem := afterRead h₁.mem string bytes }
              live := insert ⟨string, req.totalBytes⟩ s.live }) := by
  unfold primReadFdCount
  cases hreq : readRequest s.heap.mem g fd count with
  | none => exact .inl rfl
  | some req =>
    cases ha : omAlloc s.heap req with
    | none =>
      refine .inl ?_
      simp only [ha]
    | some placed =>
      obtain ⟨string, h₁⟩ := placed
      refine .inr ⟨req, string, h₁, rfl, ha, ?_⟩
      simp only [ha]
      by_cases hcount : untagSmallint count = 0
      · rw [if_pos hcount]
        exact .inl ⟨rfl, .inl hcount⟩
      rw [if_neg hcount]
      cases answer with
      | none => exact .inl ⟨rfl, .inr rfl⟩
      | some bytes =>
        by_cases hbytes : bytes = []
        · rw [hbytes]
          exact .inl ⟨rfl, .inr rfl⟩
        · have hread := primReadFdCount_read hreq ha hcount hbytes
          unfold primReadFdCount at hread
          simp only [hreq, ha] at hread
          rw [if_neg hcount] at hread
          exact .inr ⟨bytes, rfl, hbytes, hcount, hread⟩

/-- A read that fills the words it asked for. -/
theorem readFd_builds {s : HeapState} (hk : Kept s.arena.heap s.arena.live) {fd count : Oop}
    {answer : Option (List UInt8)} (hlegal : (HeapAct.readFd fd count answer).Legal s)
    (hfills : (HeapAct.readFd fd count answer).FillsWords s) :
    Builds s.arena.heap s.arena.live (primReadFdCount s.globals fd count answer s.arena).2.heap
      (primReadFdCount s.globals fd count answer s.arena).2.live := by
  rcases primReadFdCount_cases s.arena s.globals fd count answer with hsame | ⟨req, string, h₁, hreq, ha, hcases⟩
  · rw [hsame]
    exact .done
  rcases hcases with ⟨hresult, -⟩ | ⟨bytes, rfl, hbytes, hcount, hresult⟩
  · rw [hresult]
    exact .alloc ha .done
  rw [hresult]
  obtain ⟨hformat, htotal, hsize⟩ := readRequest_some hreq
  have hlength := hlegal bytes rfl
  have hwords := hfills req hreq (by rw [ha]; rfl) bytes rfl hbytes
  obtain ⟨-, hwritten, -⟩ := omAlloc_scan ha
  have hkept := hk.alloc ha
  have hstring : (⟨string, 8 * (3 + ((untagSmallint count).toNat + 7) / 8)⟩ : Extent)
      ∈ insert ⟨string, req.totalBytes⟩ s.arena.live := by
    rw [← htotal]
    exact Set.mem_insert _ _
  have hnew : objFormat h₁.mem string = formatBytes := by
    rw [hwritten, objFormat_writeObject, hformat]
  have hnewSize : objSize h₁.mem string = req.size := by
    rw [hwritten, objSize_writeObject]
  obtain ⟨hreadSize, hformats, hsizes⟩ := afterRead_headers hkept hstring bytes (by omega)
  obtain ⟨hslots, -⟩ := afterRead_bytes hkept hstring hnew bytes (by omega)
  have hroom := hkept.layout.separate.inMemory _ hstring
  simp only at hroom
  refine .alloc ha (.of_edit ⟨SameButDirty.refl _, hformats, fun e he => ?_, fun e he => ?_⟩)
  · by_cases hne : e.addr = string
    · show (objSize (afterRead h₁.mem string bytes) e.addr).toNat ≤ _
      rw [hne, hreadSize, hnewSize, hsize, toNat_ofNat64 (by omega)]
      omega
    · exact Nat.le_of_eq (congrArg UInt64.toNat (hsizes e he hne))
  · by_cases hne : e.addr = string
    · have hold := (hkept.layout.objects _ hstring).header
      simp only at hold
      show objectSlotCount (afterRead h₁.mem string bytes) e.addr = objectSlotCount h₁.mem e.addr
      rw [hne, hslots]
      omega
    · exact objectSlotCount_congr (hformats e he) (hsizes e he hne)

/-- A read that fills fewer words than it asked for. -/
theorem readFd_not_walkable {s : HeapState} (hk : Kept s.arena.heap s.arena.live) {fd count : Oop}
    {answer : Option (List UInt8)} (hlegal : (HeapAct.readFd fd count answer).Legal s)
    (hshort : ¬ (HeapAct.readFd fd count answer).FillsWords s) :
    ¬ Walkable (primReadFdCount s.globals fd count answer s.arena).2.heap
      (primReadFdCount s.globals fd count answer s.arena).2.live := by
  have hexists : ∃ req string h₁ bytes, readRequest s.arena.heap.mem s.globals fd count = some req ∧
      omAlloc s.arena.heap req = some (string, h₁) ∧ answer = some bytes ∧ bytes ≠ [] ∧
      (bytes.length + 7) / 8 ≠ ((untagSmallint count).toNat + 7) / 8 := by
    by_contra hno
    refine hshort fun req hreq hsome bytes hanswer hbytes => ?_
    obtain ⟨⟨string, h₁⟩, ha⟩ := Option.isSome_iff_exists.mp hsome
    by_contra hwords
    exact hno ⟨req, string, h₁, bytes, hreq, ha, hanswer, hbytes, hwords⟩
  obtain ⟨req, string, h₁, bytes, hreq, ha, rfl, hbytes, hwords⟩ := hexists
  obtain ⟨hformat, htotal, -⟩ := readRequest_some hreq
  have hlength := hlegal bytes rfl
  have hpos : 0 < bytes.length := List.length_pos_iff.mpr hbytes
  have hresult := primReadFdCount_read hreq ha (show untagSmallint count ≠ 0 by omega) hbytes
  rw [hresult]
  obtain ⟨-, hwritten, -⟩ := omAlloc_scan ha
  have hkept := hk.alloc ha
  have hstring : (⟨string, 8 * (3 + ((untagSmallint count).toNat + 7) / 8)⟩ : Extent)
      ∈ insert ⟨string, req.totalBytes⟩ s.arena.live := by
    rw [← htotal]
    exact Set.mem_insert _ _
  have hnew : objFormat h₁.mem string = formatBytes := by
    rw [hwritten, objFormat_writeObject, hformat]
  obtain ⟨-, hobjectBytes⟩ := afterRead_bytes hkept hstring hnew bytes (by omega)
  refine not_walkable_of_truncated hkept.layout hstring ?_ ?_
  · show omObjectBytes (afterRead h₁.mem string bytes) string
      < 8 * (3 + ((untagSmallint count).toNat + 7) / 8)
    rw [hobjectBytes]
    omega
  · show 24 ≤ omObjectBytes (afterRead h₁.mem string bytes) string
    omega

end Actions

/-! ## §6. Every run. -/

/-- The heap is in order, and the symbol table is `NULL` or one of its arrays. -/
structure HeapState.Inv (s : HeapState) : Prop where
  kept : Kept s.arena.heap s.arena.live
  table : TableLive s.globals s.arena

theorem HeapState.initial_inv (buffer : Buffer) (m : Mem) : (HeapState.initial buffer m).Inv where
  kept := omInit_kept buffer m
  table := .inl rfl

/-- **An action allocates and edits**, unless it is a read that fills too few words. -/
theorem HeapAct.builds {s : HeapState} (hs : s.Inv) (act : HeapAct) (hlegal : act.Legal s)
    (hfills : act.FillsWords s) :
    Builds s.arena.heap s.arena.live (act.run code s).heap (act.run code s).live := by
  cases act with
  | bind globals => exact .done
  | alloc req => exact omAlloc_builds req
  | perform depth log op => exact perform_builds hs.kept depth log hlegal
  | commit log => exact commit_builds hs.kept fun e he => (hlegal e he).2
  | pushThisContext l => exact ensureContext_builds code l s.globals hs.kept
  | pushClosure l classTable literalIndex =>
    exact pushClosure_builds code l s.globals classTable literalIndex hs.kept
  | asSymbol receiver => exact asSymbol_builds hs.kept hs.table hlegal
  | intern text => exact intern_builds hs.kept hs.table text
  | readFd fd count answer => exact readFd_builds hs.kept hlegal hfills

/-- **The step.**  A legal action that fills its words keeps the invariant. -/
theorem HeapState.Inv.step {s : HeapState} (hs : s.Inv) (act : HeapAct) (hlegal : act.Legal s)
    (hfills : act.FillsWords s) : (s.step code act).Inv := by
  have hbuilds := act.builds code hs hlegal hfills
  refine ⟨hbuilds.kept hs.kept, ?_⟩
  obtain ⟨hsub, hformat⟩ := hbuilds.old hs.kept
  have htable : ∀ g, TableLive g s.arena → TableLive g (act.run code s) := by
    rintro g (hzero | ⟨e, he, haddr, hfields⟩)
    · exact .inl hzero
    · refine .inr ⟨e, hsub he, haddr, ?_⟩
      rw [← haddr] at hfields ⊢
      rw [hformat e he]
      exact hfields
  cases act with
  | bind globals => exact hlegal
  | alloc req => exact htable _ hs.table
  | perform depth log op => exact htable _ hs.table
  | commit log => exact htable _ hs.table
  | pushThisContext l => exact htable _ hs.table
  | pushClosure l classTable literalIndex => exact htable _ hs.table
  | asSymbol receiver => exact htable _ hs.table
  | intern text => exact htable _ hs.table
  | readFd fd count answer => exact htable _ hs.table

/-- After an action the heap is walkable exactly if it was no read that fills too few
words. -/
theorem HeapState.Inv.walkable_iff {s : HeapState} (hs : s.Inv) (act : HeapAct)
    (hlegal : act.Legal s) :
    Walkable (s.step code act).arena.heap (s.step code act).arena.live ↔ act.FillsWords s := by
  constructor
  · intro hwalk
    cases act with
    | readFd fd count answer =>
      by_contra hshort
      exact readFd_not_walkable hs.kept hlegal hshort hwalk
    | bind globals => trivial
    | alloc req => trivial
    | perform depth log op => trivial
    | commit log => trivial
    | pushThisContext l => trivial
    | pushClosure l classTable literalIndex => trivial
    | asSymbol receiver => trivial
    | intern text => trivial
  · intro hfills
    exact (hs.step code act hlegal hfills).kept.walkable

/-- **Every heap the VM reaches can be walked as long as reads fill their words.**  On a
fresh object memory, in every run of actions, the walk over the heap visits exactly the
allocated objects after every action exactly if every read that returns bytes into a new
string returns enough to fill as many words as the string was allocated with. -/
theorem heap_walkable_iff (buffer : Buffer) (m : Mem) (acts : List HeapAct)
    (hlegal : AtEvery (HeapState.step code) (fun s act => act.Legal s)
      (HeapState.initial buffer m) acts) :
    AtEvery (HeapState.step code)
        (fun s act => Walkable (s.step code act).arena.heap (s.step code act).arena.live)
        (HeapState.initial buffer m) acts ↔
      AtEvery (HeapState.step code) (fun s act => act.FillsWords s)
        (HeapState.initial buffer m) acts :=
  AtEvery.iff_of_invariant HeapState.Inv
    (fun _ act hs hlegal hfills => hs.step code act hlegal hfills)
    (fun _ act hs hlegal => hs.walkable_iff code act hlegal) (HeapState.initial_inv buffer m) hlegal

/-! ## §7. A read of a few bytes. -/

def noCode : Nat → CompiledMethod := fun _ => ⟨0, 0, 0⟩

theorem oneSlot_fits : 8 * (3 + (1 : UInt64).toNat) ≤ 2 ^ 63 := by decide

theorem twoFields_fit : 8 * (3 + 2) ≤ 2 ^ 63 := by decide

theorem fiveFields_fit : 8 * (3 + 5) ≤ 2 ^ 63 := by decide

/-- A symbol table of one entry, and the symbol of the class of strings in it. -/
def bootSymbols : List HeapAct :=
  [ .alloc (indexableRequest 0 1 oneSlot_fits),
    .perform 0 none (.storeInstVar 65536 0 taggedNil),
    .bind ⟨65536, 65600, 0, 0⟩,
    .intern stringName ]

/-- The class of strings, an association, an array and a dictionary. -/
def bootObjects : List HeapAct :=
  [ .alloc (fieldsRequest 0 5 fiveFields_fit),
    .alloc (fieldsRequest 0 2 twoFields_fit),
    .alloc (indexableRequest 0 1 oneSlot_fits),
    .alloc (fieldsRequest 0 2 twoFields_fit) ]

/-- The dictionary comes to hold the one association, of the symbol with the class. -/
def bootStores : List HeapAct :=
  [ .perform 0 none (.storeInstVar 65664 0 65568),
    .perform 0 none (.storeInstVar 65664 1 65600),
    .perform 0 none (.storeInstVar 65704 0 65664),
    .perform 0 none (.storeInstVar 65736 0 65704),
    .perform 0 none (.storeInstVar 65736 1 5),
    .bind ⟨65536, 65600, 0, 65736⟩ ]

/-- The heap after some actions on a small fresh one. -/
def afterActs (acts : List HeapAct) : HeapState :=
  acts.foldl (HeapState.step noCode) (HeapState.initial smallBuffer (fun _ => 0))

/-- A heap in which `String` is bound. -/
def boot : List HeapAct := bootSymbols ++ (bootObjects ++ bootStores)

theorem live_alloc {s : HeapState} {req : AllocRequest} (obj : Nat)
    (hobj : (omAlloc s.arena.heap req).map Prod.fst = some obj) :
    (s.step code (.alloc req)).arena.live = insert ⟨obj, req.totalBytes⟩ s.arena.live := by
  obtain ⟨h', -, hstep⟩ := s.arena.step_alloc req obj hobj
  show (s.arena.step (.alloc req)).live = _
  rw [hstep]

theorem bootSymbols_legal : AtEvery (HeapState.step noCode) (fun s act => act.Legal s)
    (HeapState.initial smallBuffer (fun _ => 0)) bootSymbols := by
  have htable : (⟨65536, 32⟩ : Extent) ∈ (afterActs (bootSymbols.take 1)).arena.live := by
    show _ ∈ ((HeapState.initial smallBuffer (fun _ => 0)).step noCode
      (.alloc (indexableRequest 0 1 (by decide)))).arena.live
    rw [live_alloc noCode 65536 (by decide +kernel)]
    exact Set.mem_insert _ _
  refine ⟨trivial, ⟨⟨65536, 32⟩, htable, rfl, ?_, ?_⟩, .inr ⟨⟨65536, 32⟩, htable, rfl, ?_⟩, trivial,
    trivial⟩
  · show objFormat (afterActs (bootSymbols.take 1)).arena.heap.mem 65536 ≠ formatBytes
    decide +kernel
  · show 0 < objectSlotCount (afterActs (bootSymbols.take 1)).arena.heap.mem 65536
    decide +kernel
  · show objFormat (afterActs (bootSymbols.take 2)).arena.heap.mem 65536 ≠ formatBytes
    decide +kernel

theorem boot_inv {acts : List HeapAct} (hlegal : AtEvery (HeapState.step noCode)
    (fun s act => act.Legal s) (HeapState.initial smallBuffer (fun _ => 0)) acts)
    (hfills : AtEvery (HeapState.step noCode) (fun s act => act.FillsWords s)
      (HeapState.initial smallBuffer (fun _ => 0)) acts) : (afterActs acts).Inv :=
  AtEvery.invariant (fun _ act hs hmeets => hs.step noCode act hmeets.1 hmeets.2)
    (HeapState.initial_inv smallBuffer _) (hlegal.and hfills)

/-- Where the objects of the boot lie. -/
theorem bootObjects_live :
    (⟨65664, 40⟩ : Extent) ∈ (afterActs (bootSymbols ++ bootObjects)).arena.live ∧
      (⟨65704, 32⟩ : Extent) ∈ (afterActs (bootSymbols ++ bootObjects)).arena.live ∧
      (⟨65736, 40⟩ : Extent) ∈ (afterActs (bootSymbols ++ bootObjects)).arena.live := by
  have hlive : (afterActs (bootSymbols ++ bootObjects)).arena.live
      = insert ⟨65736, 40⟩ (insert ⟨65704, 32⟩ (insert ⟨65664, 40⟩
        (afterActs (bootSymbols ++ bootObjects.take 1)).arena.live)) := by
    show ((((afterActs (bootSymbols ++ bootObjects.take 1)).step noCode
      (.alloc (fieldsRequest 0 2 (by decide)))).step noCode
      (.alloc (indexableRequest 0 1 (by decide)))).step noCode
      (.alloc (fieldsRequest 0 2 (by decide)))).arena.live = _
    rw [live_alloc noCode 65736 (by decide +kernel), live_alloc noCode 65704 (by decide +kernel),
      live_alloc noCode 65664 (by decide +kernel)]
    rfl
  rw [hlive]
  exact ⟨.inr (.inr (.inl rfl)), .inr (.inl rfl), .inl rfl⟩

/-- The stores of the boot keep the objects. -/
theorem bootStores_live {k : Nat} (hk : k ≤ 5) :
    (afterActs (bootSymbols ++ bootObjects ++ bootStores.take k)).arena.live
      = (afterActs (bootSymbols ++ bootObjects)).arena.live := by
  have hrun : afterActs (bootSymbols ++ bootObjects ++ bootStores.take k)
      = (bootStores.take k).foldl (HeapState.step noCode) (afterActs (bootSymbols ++ bootObjects)) :=
    List.foldl_append
  rw [hrun]
  generalize afterActs (bootSymbols ++ bootObjects) = s
  obtain rfl | rfl | rfl | rfl | rfl | rfl : k = 0 ∨ k = 1 ∨ k = 2 ∨ k = 3 ∨ k = 4 ∨ k = 5 := by
    omega
  all_goals rfl

/-- A store into an object of the boot. -/
theorem bootStore_legal {k : Nat} (hk : k ≤ 5) {x : Extent} (r : Oop) (index : UInt32) (value : Oop)
    (hx : x ∈ (afterActs (bootSymbols ++ bootObjects)).arena.live) (haddr : x.addr = r.toNat)
    (hroom : objFormat (afterActs (bootSymbols ++ bootObjects ++ bootStores.take k)).arena.heap.mem
        r.toNat ≠ formatBytes ∧
      index.toNat < objectSlotCount
        (afterActs (bootSymbols ++ bootObjects ++ bootStores.take k)).arena.heap.mem r.toNat) :
    (HeapAct.perform 0 none (.storeInstVar r index value)).Legal
      (afterActs (bootSymbols ++ bootObjects ++ bootStores.take k)) := by
  rw [← bootStores_live hk] at hx
  exact ⟨x, hx, haddr, hroom⟩

theorem boot_legal : AtEvery (HeapState.step noCode) (fun s act => act.Legal s)
    (HeapState.initial smallBuffer (fun _ => 0)) boot := by
  obtain ⟨hassociation, harray, hdictionary⟩ := bootObjects_live
  have hobjects : AtEvery (HeapState.step noCode) (fun s act => act.Legal s)
      (HeapState.initial smallBuffer (fun _ => 0)) (bootSymbols ++ bootObjects) :=
    AtEvery.append.mpr ⟨bootSymbols_legal, trivial, trivial, trivial, trivial, trivial⟩
  have hinv : (afterActs (bootSymbols ++ bootObjects)).Inv :=
    boot_inv hobjects ⟨trivial, trivial, trivial, trivial, trivial, trivial, trivial, trivial, trivial⟩
  have hplaced := AtEvery.append.mp hobjects
  refine AtEvery.append.mpr ⟨hplaced.1, AtEvery.append.mpr ⟨hplaced.2, ?_⟩⟩
  rw [← List.foldl_append]
  have hfirst := @bootStore_legal 0 (by decide) _ 65664 0 65568 hassociation (by decide)
    (by decide +kernel)
  have hsecond := @bootStore_legal 1 (by decide) _ 65664 1 65600 hassociation (by decide)
    (by decide +kernel)
  have hthird := @bootStore_legal 2 (by decide) _ 65704 0 65664 harray (by decide)
    (by decide +kernel)
  have hfourth := @bootStore_legal 3 (by decide) _ 65736 0 65704 hdictionary (by decide)
    (by decide +kernel)
  have hfifth := @bootStore_legal 4 (by decide) _ 65736 1 5 hdictionary (by decide)
    (by decide +kernel)
  have hbound : TableLive ⟨65536, 65600, 0, 65736⟩
      (afterActs (bootSymbols ++ bootObjects ++ bootStores.take 5)).arena := by
    rcases hinv.table with hzero | ⟨e, he, haddr, -⟩
    · exact absurd hzero (by decide +kernel)
    · rw [← bootStores_live (Nat.le_refl 5)] at he
      refine .inr ⟨e, he, haddr, ?_⟩
      show objFormat (afterActs (bootSymbols ++ bootObjects ++ bootStores.take 5)).arena.heap.mem 65536
        ≠ formatBytes
      decide +kernel
  exact ⟨hfirst, hsecond, hthird, hfourth, hfifth, hbound, trivial⟩

/-- Two bytes come in for the three asked for: one word either way. -/
def twoOfThree : HeapAct := .readFd 1 13 (some [104, 105])

/-- One byte comes in for the sixteen asked for: one word instead of two. -/
def oneOfSixteen : HeapAct := .readFd 1 65 (some [104])

theorem boot_fills : AtEvery (HeapState.step noCode) (fun s act => act.FillsWords s)
    (HeapState.initial smallBuffer (fun _ => 0)) boot :=
  ⟨trivial, trivial, trivial, trivial, trivial, trivial, trivial, trivial, trivial, trivial,
    trivial, trivial, trivial, trivial, trivial⟩

theorem twoOfThree_walkable :
    AtEvery (HeapState.step noCode)
      (fun s act => Walkable (s.step noCode act).arena.heap (s.step noCode act).arena.live)
      (HeapState.initial smallBuffer (fun _ => 0)) (boot ++ [twoOfThree]) := by
  refine (heap_walkable_iff noCode smallBuffer (fun _ => 0) (boot ++ [twoOfThree]) ?_).mpr ?_
  · refine AtEvery.append.mpr ⟨boot_legal, ?_, trivial⟩
    intro bytes hbytes
    obtain rfl := Option.some.inj hbytes
    decide
  · refine AtEvery.append.mpr ⟨boot_fills, ?_, trivial⟩
    intro req _ _ bytes hbytes _
    obtain rfl := Option.some.inj hbytes
    decide

/-- After a read of one byte for sixteen the walk visits an address where no object is. -/
theorem oneOfSixteen_not_walkable :
    AtEvery (HeapState.step noCode) (fun s act => act.Legal s)
        (HeapState.initial smallBuffer (fun _ => 0)) (boot ++ [oneOfSixteen]) ∧
      ¬ AtEvery (HeapState.step noCode)
        (fun s act => Walkable (s.step noCode act).arena.heap (s.step noCode act).arena.live)
        (HeapState.initial smallBuffer (fun _ => 0)) (boot ++ [oneOfSixteen]) := by
  have hlegal : oneOfSixteen.Legal (afterActs boot) := by
    intro bytes hbytes
    obtain rfl := Option.some.inj hbytes
    decide
  refine ⟨AtEvery.append.mpr ⟨boot_legal, hlegal, trivial⟩, fun hwalkable => ?_⟩
  obtain ⟨-, hlast, -⟩ := AtEvery.append.mp hwalkable
  have hinv : (afterActs boot).Inv := boot_inv boot_legal boot_fills
  have hfills := (hinv.walkable_iff noCode oneOfSixteen hlegal).mp hlast
  -- `String` is bound and there is room
  have hroom : ((readRequest (afterActs boot).arena.heap.mem (afterActs boot).globals 1 65).bind
      (omAlloc (afterActs boot).arena.heap)).isSome = true := by decide +kernel
  obtain ⟨placed, hplaced⟩ := Option.isSome_iff_exists.mp hroom
  obtain ⟨req, hreq, ha⟩ := Option.bind_eq_some_iff.mp hplaced
  have hwords := hfills req hreq (by rw [ha]; rfl) [104] rfl (by decide)
  exact absurd hwords (by decide)

end LivingObjects.Interp
