/-
  LivingObjects.Checkpoint.Writer — the contents of the checkpoint file.

  The checkpoint half of `try_image_primitive`: tables from the page tables,
  every non-free page copied with its references turned into offsets, the
  checksum of that copy, and in the file either the copy or, for a page not
  marked dirty, the bytes an older valid file of the same page count holds.
  Memory for the buffers and the stream operations do not fail here; the steps
  that can (`rename`, directory sync, removal of the log) are in
  `Checkpoint.CrashAtomic`.
-/
import Mathlib
import LivingObjects.Checkpoint.Format
import LivingObjects.ObjectMemory.Layout

namespace LivingObjects.Checkpoint

open LivingObjects.Lib
open LivingObjects.VM
open LivingObjects.ObjectMemory

/-! ## §1. Offsets and sizes. -/

/-- `object_offset_in_heap`. -/
def objectOffsetInHeap (object : Oop) (heapStart : Nat) : UInt64 :=
  if isObjectPtr object then object - UInt64.ofNat heapStart else 0

/-- `page_object_offset_in_heap`. -/
def pageObjectOffsetInHeap (object : Oop) (heapStart : Nat) : UInt64 :=
  if isObjectPtr object then object - UInt64.ofNat heapStart + 8 else 0

/-- `checkpoint_page_count`. -/
def checkpointPageCount (usedSize : Nat) : Nat :=
  if usedSize = 0 then 0 else (usedSize + pageBytes - 1) / pageBytes

/-- `checkpoint_page_file_offset`. -/
def checkpointPageFileOffset (pageCount pageId : Nat) : Nat :=
  88 + 5 * pageCount * 8 + pageId * pageBytes

/-- `checkpoint_page_live_bytes`. -/
def checkpointPageLiveBytes (usedSize pageId : Nat) : Nat :=
  if usedSize ≤ pageId * pageBytes then 0
  else min (usedSize - pageId * pageBytes) pageBytes

/-! ## §2. One page. -/

/-- `checkpoint_convert_slot_pointer_to_offset` on the word at `a` of a copy. -/
def convertSlotPointerToOffset (copy : Mem) (a heapStart heapLimit : Nat) : Mem :=
  let value := load64 copy a
  if isObjectPtr value = false ∨ value = 0 then copy
  else if value.toNat < heapStart ∨ heapLimit ≤ value.toNat then copy
  else store64 copy a (UInt64.ofNat (value.toNat - heapStart + 8))

section Page

variable (h : Heap) (heapStart heapLimit pageStart pageEnd : Nat)

/-- One slot of an object, when it lies in the page. -/
def convertObjectSlot (current : Nat) (copy : Mem) (slot : Nat) : Mem :=
  let slotAddress := wrap64 (objFieldAddr current slot)
  if pageStart ≤ slotAddress ∧ wrap64 (slotAddress + wordSize) ≤ pageEnd then
    convertSlotPointerToOffset copy (slotAddress - pageStart) heapStart heapLimit
  else copy

/-- The body of the walk of `checkpoint_page_pointers_to_offsets`: the class
word and the slots of one object that lie in the page. -/
def convertObject (current : Nat) (copy : Mem) : Mem :=
  let copy :=
    if pageStart ≤ current then
      convertSlotPointerToOffset copy (current - pageStart) heapStart heapLimit
    else copy
  if objFormat h.mem current ≠ formatBytes then
    (List.range (objectSlotCount h.mem current)).foldl
      (convertObjectSlot heapStart heapLimit pageStart pageEnd current) copy
  else copy

/-- The walk.  It goes up through the buffer, so a fuel of the buffer's size is
enough; where it does not go up the source does not come back. -/
def convertFrom : Nat → Nat → Mem → Option Mem
  | 0, _, _ => none
  | fuel + 1, current, copy =>
    if current = 0 ∨ heapLimit ≤ current ∨ pageEnd ≤ current then some copy
    else convertFrom fuel (omNextObject h.om h.mem current)
      (convertObject h heapStart heapLimit pageStart pageEnd current copy)

end Page

/-- `checkpoint_page_pointers_to_offsets`. -/
def checkpointPagePointersToOffsets (h : Heap) (heapStart heapLimit : Nat) (copy : Mem)
    (usedSize pageId : Nat) : Option Mem :=
  let pageStart := omPageStart h.om pageId
  let pageLiveBytes := checkpointPageLiveBytes usedSize pageId
  let pageEnd := pageStart + pageLiveBytes
  let current := omPageCoveringObject h.om pageId
  if pageLiveBytes = 0 ∨ current = 0 then some copy
  else convertFrom h heapStart heapLimit pageStart pageEnd (heapLimit + 1) current copy

/-- One page serialized afresh: the first half of the page loop. -/
def serializePage (h : Heap) (heapStart usedSize pageId : Nat) : Option (List UInt8) :=
  let pageLiveBytes := checkpointPageLiveBytes usedSize pageId
  let blank : Mem := fun _ => 0
  if omPageState h.om pageId ≠ .free ∧ 0 < pageLiveBytes then
    let copy := copyBytes blank 0 h.mem (heapStart + pageId * pageBytes) pageLiveBytes
    (checkpointPagePointersToOffsets h heapStart (heapStart + usedSize) copy usedSize pageId).map
      (fun copy => bytesFrom copy 0 pageBytes)
  else some (bytesFrom blank 0 pageBytes)

/-- Every page serialized afresh. -/
def serializePages (h : Heap) (heapStart usedSize : Nat) : Option (List (List UInt8)) :=
  (List.range (checkpointPageCount usedSize)).mapM (serializePage h heapStart usedSize)

/-! ## §3. The file. -/

/-- The globals the header records. -/
structure ImageRoots where
  symbolTable : Oop
  symbolClass : Oop
  contextClass : Oop
  smalltalkDictionary : Oop
  classTable : Oop

/-- The older file the pages may be taken from: it has the checkpoint's magic,
page size and page count, and validates. -/
def reusableCheckpoint (existing : Option (List UInt8)) (pageCount : Nat) :
    Option (CheckpointHeader × List UInt8) :=
  match existing with
  | none => none
  | some file =>
    match readHeader file with
    | none => none
    | some (header, _) =>
      if header.magic ≠ imageCheckpointMagic ∨ header.pageBytes ≠ UInt64.ofNat pageBytes
          ∨ header.pageCount ≠ UInt64.ofNat pageCount
          ∨ imageCheckpointValidate existing = false then none
      else some (header, file)

/-- The second half of the page loop: what goes into the file for a page. -/
def writtenPage (h : Heap) (source : Option (CheckpointHeader × List UInt8)) (pageCount : Nat)
    (pageId : Nat) (fresh : List UInt8) : List UInt8 :=
  if omPageState h.om pageId = .free then fresh
  else
    match source with
    | none => fresh
    | some (_, file) =>
      if omPageIsDirty h.om pageId then fresh
      else
        let old := (file.drop (checkpointPageFileOffset pageCount pageId)).take pageBytes
        if old.length ≠ pageBytes then fresh else old

/-- The four tables taken from the object memory, and the checksums of the
pages serialized afresh. -/
def checkpointTables (h : Heap) (heapStart pageCount : Nat) (fresh : List (List UInt8)) :
    PageTables where
  state := (List.range pageCount).map (fun i => (omPageState h.om i).word)
  used := (List.range pageCount).map (fun i => UInt64.ofNat (omPageUsedBytes h.om i))
  first := (List.range pageCount).map (fun i =>
    pageObjectOffsetInHeap (UInt64.ofNat (omPageFirstObjectStart h.om i)) heapStart)
  covering := (List.range pageCount).map (fun i =>
    pageObjectOffsetInHeap (UInt64.ofNat (omPageCoveringObject h.om i)) heapStart)
  checksum := fresh.map checkpointPageChecksum

/-- The header, before its checksum. -/
def checkpointHeader (roots : ImageRoots) (heapStart usedSize pageCount : Nat)
    (source : Option (CheckpointHeader × List UInt8)) : CheckpointHeader where
  magic := imageCheckpointMagic
  usedSize := UInt64.ofNat usedSize
  pageBytes := UInt64.ofNat pageBytes
  pageCount := UInt64.ofNat pageCount
  generation := match source with
    | none => 1
    | some (existing, _) => existing.generation + 1
  symbolTableOffset := objectOffsetInHeap roots.symbolTable heapStart
  symbolClassOffset := objectOffsetInHeap roots.symbolClass heapStart
  contextClassOffset := objectOffsetInHeap roots.contextClass heapStart
  smalltalkDictOffset := objectOffsetInHeap roots.smalltalkDictionary heapStart
  classTableOffset := objectOffsetInHeap roots.classTable heapStart
  metadataChecksum := 0

/-- The temporary file of the checkpoint primitive just before the rename;
`none` when the heap is empty (the primitive fails) or a walk does not end. -/
def checkpointContents (h : Heap) (roots : ImageRoots) (existing : Option (List UInt8)) :
    Option CheckpointFile :=
  let heapStart := h.om.start
  let usedSize := h.om.free - heapStart
  if heapStart = 0 ∨ usedSize = 0 then none
  else
    let pageCount := checkpointPageCount usedSize
    let source := reusableCheckpoint existing pageCount
    (serializePages h heapStart usedSize).map (fun fresh =>
      let tables := checkpointTables h heapStart pageCount fresh
      let header := checkpointHeader roots heapStart usedSize pageCount source
      { header := { header with metadataChecksum := checkpointMetadataChecksum header tables }
        tables := tables
        pages := fresh.mapIdx (writtenPage h source pageCount) })

/-! ## §4. The parts fit together. -/

theorem serializePage_length {h : Heap} {heapStart usedSize pageId : Nat} {page : List UInt8}
    (hpage : serializePage h heapStart usedSize pageId = some page) : page.length = pageBytes := by
  unfold serializePage at hpage
  simp only at hpage
  split at hpage
  · obtain ⟨copy, -, rfl⟩ := Option.map_eq_some_iff.mp hpage
    exact bytesFrom_length copy 0 pageBytes
  · rw [← Option.some.inj hpage]
    exact bytesFrom_length _ 0 pageBytes

theorem mapM_eq_some_iff {α β : Type} {f : α → Option β} {xs : List α} {ys : List β} :
    xs.mapM f = some ys ↔ List.Forall₂ (fun x y => f x = some y) xs ys := by
  induction xs generalizing ys with
  | nil =>
    cases ys with
    | nil => simp
    | cons y ys => simp
  | cons x xs ih =>
    rw [List.mapM_cons]
    cases ys with
    | nil => simp [Option.bind_eq_some_iff]
    | cons y ys =>
      rw [List.forall₂_cons, ← ih]
      simp only [Option.bind_eq_bind, Option.bind_eq_some_iff, Option.pure_def, Option.some.injEq,
        List.cons.injEq]
      constructor
      · rintro ⟨y', hy, ys', hys, rfl, rfl⟩
        exact ⟨hy, hys⟩
      · rintro ⟨hy, hys⟩
        exact ⟨y, hy, ys, hys, rfl, rfl⟩

/-- Serializing the pages is serializing each. -/
theorem serializePages_some {h : Heap} {heapStart usedSize : Nat} {fresh : List (List UInt8)}
    (hf : serializePages h heapStart usedSize = some fresh) :
    fresh.length = checkpointPageCount usedSize ∧
      ∀ i, (hi : i < fresh.length) → serializePage h heapStart usedSize i = some fresh[i] := by
  unfold serializePages at hf
  rw [mapM_eq_some_iff] at hf
  have hlen := hf.length_eq
  rw [List.length_range] at hlen
  refine ⟨hlen.symm, fun i hi => ?_⟩
  have hget := List.Forall₂.get hf (by rw [List.length_range]; omega) hi
  simpa using hget

theorem writtenPage_length (h : Heap) (source : Option (CheckpointHeader × List UInt8))
    (pageCount pageId : Nat) {fresh : List UInt8} (hlen : fresh.length = pageBytes) :
    (writtenPage h source pageCount pageId fresh).length = pageBytes := by
  unfold writtenPage
  split
  · exact hlen
  split
  · exact hlen
  split
  · exact hlen
  simp only
  split
  · exact hlen
  next hold => simpa using hold

end LivingObjects.Checkpoint
