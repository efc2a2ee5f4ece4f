/-
  LivingObjects.Txn.Access — the bytecodes and primitives that touch object bodies.

  An interpreter loop works on the heap and, inside a transaction, on a log.
  Instance-variable bytecodes, `at:` and `at:put:` go through the log when there is
  one.  Everything else reads the heap as it is: literals, bytecodes, globals, the
  classes and dictionaries of a lookup, the strings of a comparison or a hash.

  The object memory is one without a collector's words: an allocation that finds no
  room traps.
-/
import LivingObjects.Checkpoint.Mutations
import LivingObjects.Lib.MemProgram
import LivingObjects.Txn.Nesting

namespace LivingObjects.Txn

open LivingObjects.Lib
open LivingObjects.VM
open LivingObjects.ObjectMemory
open LivingObjects.Journal
open LivingObjects.Checkpoint

/-! ## §1. Values. -/

/-- `untag_smallint`. -/
def untagSmallint (value : Oop) : Int := value.toBitVec.toInt / 4

/-- `tag_smallint` of a size or a byte. -/
def tagSmallintNat (n : Nat) : Oop := UInt64.ofNat (4 * n + 1)

/-- `byte_txn_index`. -/
def byteTxnIndex (index : Nat) : UInt64 := byteFieldMarker ||| UInt64.ofNat index

/-- What a bytecode or a primitive answers. -/
inductive Reply where
  | value (v : Oop)
  /-- A byte of code. -/
  | code (b : UInt8)
  /-- The method a lookup found, with what the send reads of it. -/
  | method (method primitive numTemps bytecodes : Oop)
  | notUnderstood
  /-- `PRIMITIVE_FAILED`: the method's own code runs. -/
  | failed
  | trapped
  /-- The chain of superclasses is longer than the given bound. -/
  | endless
  deriving DecidableEq, Repr

/-! ## §2. Readings of the heap. -/

/-- `OBJ_FIELD`. -/
def readField (object : Oop) (n : Nat) : Reading UInt64 :=
  .load (wrap64 (objFieldAddr object.toNat n))

/-- `OBJ_CLASS`. -/
def readClass (object : Oop) : Reading UInt64 := .load object.toNat

/-- `OBJ_FORMAT`. -/
def readFormat (object : Oop) : Reading UInt64 := .load (wrap64 (object.toNat + 8))

/-- `OBJ_SIZE`. -/
def readSize (object : Oop) : Reading UInt64 := .load (wrap64 (object.toNat + 16))

/-- A byte of the body. -/
def readByte (object : Oop) (index : Nat) : Reading UInt8 :=
  .loadByte (wrap64 (objFieldAddr object.toNat 0 + index))

/-- `oop_class`. -/
def oopClass (oop classTable : Oop) : Reading Oop :=
  if oop &&& 3 = 0 then readClass oop
  else if oop &&& 3 = 1 then readField classTable 0
  else if oop &&& 15 = 15 then readField classTable 4
  else if oop = taggedNil then readField classTable 5
  else if oop = taggedTrue then readField classTable 2
  else if oop = taggedFalse then readField classTable 3
  else pure 0

/-- The loop of `md_lookup`, from an index on. -/
def mdLookupLoop (dict selector size : UInt64) : Nat → Nat → Reading Oop
  | 0, _ => pure 0
  | left + 1, index =>
    if size.toNat ≤ index then pure 0
    else do
      if (← readField dict index) = selector then readField dict (index + 1)
      else mdLookupLoop dict selector size left (index + 2)

/-- `md_lookup`. -/
def mdLookup (dict selector : Oop) : Reading Oop := do
  let size ← readSize dict
  mdLookupLoop dict selector size size.toNat 0

/-- `class_lookup`; `depth` bounds the chain of superclasses. -/
def classLookup (selector : Oop) : Nat → Oop → Reading (Option Oop)
  | 0, _ => pure none
  | depth + 1, klass =>
    if klass = 0 ∨ klass = taggedNil then pure (some 0)
    else do
      let dict ← readField klass 1
      let method ← if dict = taggedNil then pure 0 else mdLookup dict selector
      if method ≠ 0 then pure (some method)
      else classLookup selector depth (← readField klass 0)

/-- `lookup_method_for_receiver` and what `BC_SEND_MESSAGE` reads of the method. -/
def readMethod (depth : Nat) (receiver selector classTable : Oop) : Reading Reply := do
  let klass ← oopClass receiver classTable
  if klass = 0 then pure .notUnderstood
  else
    match ← classLookup selector depth klass with
    | none => pure .endless
    | some method =>
      if method = 0 then pure .notUnderstood
      else
        let primitive ← readField method 0
        let numTemps ← readField method 2
        let bytecodes ← readField method 4
        pure (.method method primitive numTemps bytecodes)

/-- `OBJ_FIELD(OBJ_FIELD(method, CM_LITERALS), index)`. -/
def readLiteral (method : Oop) (index : UInt32) : Reading Oop := do
  readField (← readField method 3) index.toNat

/-- `BC_PUSH_GLOBAL`. -/
def readGlobal (method : Oop) (index : UInt32) : Reading Reply := do
  let association ← readLiteral method index
  if !isObjectPtr association then pure .trapped
  else return .value (← readField association 1)

/-- `is_bytes_object`. -/
def isBytesObject (value : Oop) : Reading Bool :=
  if isObjectPtr value then return (← readFormat value) == formatBytes else pure false

/-- `memcmp(..) == 0` on the first bytes of two bodies. -/
def sameBytes (a b : Oop) : Nat → Reading Bool
  | 0 => pure true
  | n + 1 => do
    let same ← sameBytes a b n
    return same && (← readByte a n) == (← readByte b n)

/-- `PRIM_STRING_EQ`. -/
def readStringEq (receiver arg : Oop) : Reading Reply := do
  if !(← isBytesObject receiver) then pure .trapped
  else if !(← isBytesObject arg) then pure .failed
  else
    let size ← readSize receiver
    if size ≠ (← readSize arg) then pure (.value taggedFalse)
    else
      let same ← sameBytes receiver arg size.toNat
      pure (.value (if same then taggedTrue else taggedFalse))

/-- The hash of the first bytes of a body. -/
def hashBytes (object : Oop) : Nat → Reading UInt32
  | 0 => pure 0x811C9DC5
  | n + 1 => do
    let hash ← hashBytes object n
    return (hash ^^^ (← readByte object n).toUInt32) * 0x01000193

/-- `PRIM_STRING_HASH_FNV`. -/
def readStringHash (receiver : Oop) : Reading Reply := do
  if !(← isBytesObject receiver) then pure .trapped
  else
    let hash ← hashBytes receiver (← readSize receiver).toNat
    pure (.value (tagSmallintNat hash.toNat))

/-- `PRIM_SIZE`. -/
def readSizeReply (receiver : Oop) : Reading Reply := do
  if !isObjectPtr receiver then pure .trapped
  else return .value (tagSmallintNat (← readSize receiver).toNat)

/-- A request for an object of this format and size; a byte count the address space
cannot hold ends in a fault. -/
def allocRequest (cls format : Oop) (size : Int) : Except Reply AllocRequest :=
  if h : (format = formatBytes → (UInt64.ofNat size.toNat).toNat + 7 < 2 ^ 64) ∧
      8 * (3 + slotWords format (UInt64.ofNat size.toNat)) ≤ 2 ^ 63 then
    .ok ⟨cls, format, UInt64.ofNat size.toNat, h.1, h.2⟩
  else .error .trapped

/-- What `PRIM_BASIC_NEW` asks for. -/
def readBasicNew (cls : Oop) : Reading (Except Reply AllocRequest) := do
  if !isObjectPtr cls then pure (.error .trapped)
  else
    let size ← readField cls 2
    if isSmallint size = false ∨ untagSmallint size < 0 then pure (.error .failed)
    else pure (allocRequest cls formatFields (untagSmallint size))

/-- What `PRIM_BASIC_NEW_SIZE` asks for. -/
def readBasicNewSize (cls size : Oop) : Reading (Except Reply AllocRequest) := do
  if !isObjectPtr cls then pure (.error .trapped)
  else if isSmallint size = false ∨ untagSmallint size < 0 then pure (.error .failed)
  else
    let format ← readField cls 3
    if isSmallint format = false ∨ ¬ (untagSmallint format = 1 ∨ untagSmallint format = 2) then
      pure (.error .failed)
    else pure (allocRequest cls (UInt64.ofNat (untagSmallint format).toNat) (untagSmallint size))

/-- The checks `PRIM_AT` and `PRIM_AT_PUT` share; the format and the index from 0. -/
def readTarget (receiver index : Oop) : Reading (Except Reply (UInt64 × Nat)) := do
  if !isObjectPtr receiver then pure (.error .trapped)
  else if isSmallint index = false ∨ untagSmallint index < 1 then pure (.error .failed)
  else
    let i := (untagSmallint index - 1).toNat
    let format ← readFormat receiver
    let size ← readSize receiver
    if format = formatFields ∨ size.toNat ≤ i then pure (.error .failed)
    else pure (.ok (format, i))

/-! ## §3. Operations. -/

/-- What an interpreter loop works on besides the stack. -/
structure LoopHeap where
  heap : Heap
  log : Option LogWords

/-- The bytecodes and primitives that touch object bodies, with their operands. -/
inductive Op where
  /-- The next byte of code. -/
  | fetch (bytecodes : Oop) (offset : Nat)
  | pushLiteral (method : Oop) (index : UInt32)
  | pushGlobal (method : Oop) (index : UInt32)
  | sendMessage (receiver selector classTable : Oop)
  | primStringEq (receiver arg : Oop)
  | primStringHashFnv (receiver : Oop)
  | primSize (receiver : Oop)
  | primBasicNew (cls : Oop)
  | primBasicNewSize (cls size : Oop)
  | pushInstVar (receiver : Oop) (index : UInt32)
  | storeInstVar (receiver : Oop) (index : UInt32) (value : Oop)
  | primAt (receiver index : Oop)
  | primAtPut (receiver index value : Oop)
  deriving DecidableEq, Repr

/-- `txn_log_read`, when there is a log. -/
def LoopHeap.pending (s : LoopHeap) (object : Oop) (fieldIndex : UInt64) : Option Oop :=
  s.log.bind (fun w => txnLogRead w object fieldIndex)

/-- `txn_log_write`, or the store and the dirty mark when there is no log. -/
def LoopHeap.write (s : LoopHeap) (e : LogEntry) (w : BodyWrite) : LoopHeap :=
  match s.log with
  | some words => { s with log := some (txnLogWrite words e) }
  | none => { s with heap := { om := w.mark s.heap.om, mem := w.store s.heap.mem } }

/-- `initialize_word_fields`. -/
def initializeWordFields (m : Mem) (object n : Nat) : Mem :=
  (List.range n).foldl (fun m i => setObjField m object i taggedNil) m

/-- `om_alloc` and the fields of an object that has some. -/
def LoopHeap.alloc (s : LoopHeap) (req : AllocRequest) : Reply × LoopHeap :=
  match omAlloc s.heap req with
  | none => (.trapped, s)
  | some (object, h) =>
    let mem :=
      if req.format = formatBytes then h.mem
      else initializeWordFields h.mem object req.size.toNat
    (.value (UInt64.ofNat object), { s with heap := { h with mem := mem } })

/-- The rest of `PRIM_AT`. -/
def LoopHeap.fetchAt (s : LoopHeap) (receiver : Oop) (format : UInt64) (i : Nat) : Reply :=
  if format = formatBytes then
    match s.pending receiver (byteTxnIndex i) with
    | some v => .value v
    | none => .value (tagSmallintNat ((readByte receiver i).run s.heap.mem).toNat)
  else if format = formatIndexable then
    match s.pending receiver (UInt64.ofNat i) with
    | some v => .value v
    | none => .value ((readField receiver i).run s.heap.mem)
  else .failed

/-- The rest of `PRIM_AT_PUT`. -/
def LoopHeap.storeAt (s : LoopHeap) (receiver : Oop) (format : UInt64) (i : Nat) (value : Oop) :
    Reply × LoopHeap :=
  if format = formatBytes then
    -- the checks of the value belong to the path without a log
    if s.log.isNone ∧
        (isSmallint value = false ∨ untagSmallint value < 0 ∨ 255 < untagSmallint value) then
      (.failed, s)
    else
      (.value receiver, s.write ⟨receiver, byteTxnIndex i, value⟩
        (.byte receiver.toNat i (UInt8.ofNat (untagSmallint value).toNat)))
  else if format = formatIndexable then
    (.value receiver, s.write ⟨receiver, UInt64.ofNat i, value⟩ (.word receiver.toNat i value))
  else (.failed, s)

/-- One bytecode or primitive; `depth` bounds the superclasses of a lookup. -/
def Op.run (depth : Nat) (s : LoopHeap) : Op → Reply × LoopHeap
  | .fetch bytecodes offset => (.code ((readByte bytecodes offset).run s.heap.mem), s)
  | .pushLiteral method index => (.value ((readLiteral method index).run s.heap.mem), s)
  | .pushGlobal method index => ((readGlobal method index).run s.heap.mem, s)
  | .sendMessage receiver selector classTable =>
    ((readMethod depth receiver selector classTable).run s.heap.mem, s)
  | .primStringEq receiver arg => ((readStringEq receiver arg).run s.heap.mem, s)
  | .primStringHashFnv receiver => ((readStringHash receiver).run s.heap.mem, s)
  | .primSize receiver => ((readSizeReply receiver).run s.heap.mem, s)
  | .primBasicNew cls =>
    match (readBasicNew cls).run s.heap.mem with
    | .error r => (r, s)
    | .ok req => s.alloc req
  | .primBasicNewSize cls size =>
    match (readBasicNewSize cls size).run s.heap.mem with
    | .error r => (r, s)
    | .ok req => s.alloc req
  | .pushInstVar receiver index =>
    match s.pending receiver index.toUInt64 with
    | some v => (.value v, s)
    | none => (.value ((readField receiver index.toNat).run s.heap.mem), s)
  | .storeInstVar receiver index value =>
    (.value value, s.write ⟨receiver, index.toUInt64, value⟩
      (.word receiver.toNat index.toNat value))
  | .primAt receiver index =>
    match (readTarget receiver index).run s.heap.mem with
    | .error r => (r, s)
    | .ok (format, i) => (s.fetchAt receiver format i, s)
  | .primAtPut receiver index value =>
    match (readTarget receiver index).run s.heap.mem with
    | .error r => (r, s)
    | .ok (format, i) => s.storeAt receiver format i value

/-! ## §4. Blocks. -/

/-- What a block does: it runs an operation and goes on as its reply says. -/
inductive Block where
  | result (v : Oop)
  | step (op : Op) (next : Reply → Block)

/-- Run a block: the replies, the result, and what it leaves. -/
def Block.run (depth : Nat) : Block → LoopHeap → List Reply × Oop × LoopHeap
  | .result v, s => ([], v, s)
  | .step op next, s =>
    let (reply, s') := op.run depth s
    let (replies, v, s'') := (next reply).run depth s'
    (reply :: replies, v, s'')

/-- The block outside any transaction. -/
def Block.runDirect (depth : Nat) (b : Block) (h : Heap) : List Reply × Oop × Heap :=
  let (replies, v, s) := b.run depth ⟨h, none⟩
  (replies, v, s.heap)

/-- The entries the words of a log hold. -/
def logEntries (w : LogWords) : List LogEntry := (List.range (w 0).toNat).map (entryAt w)

/-- `Transaction atomic: block` outside any transaction; the buffer is at `w`. -/
def Block.runAtomic (depth : Nat) (b : Block) (h : Heap) (w : LogWords) :
    List Reply × Oop × Heap :=
  let (replies, v, s) := b.run depth ⟨h, some (clearBuffer w)⟩
  match s.log with
  | none => (replies, v, s.heap)
  | some words =>
    (replies, v,
      { om := (logEntries words).foldl markEntry s.heap.om
        mem := (txnCommitWords words s.heap.mem).1 })

end LivingObjects.Txn
