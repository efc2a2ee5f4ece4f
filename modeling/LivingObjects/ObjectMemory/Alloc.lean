/-
  LivingObjects.ObjectMemory.Alloc — allocation and the walk over objects.

  `om_alloc` takes the first released page when the request fits one page;
  otherwise it bumps the free pointer, moving to the next page first when the
  request fits a page but not what is left of this one.  It writes the header,
  clears the body and enters the object in the page tables.  `om_next_object`
  walks from one object to the next through the same tables.
-/
import LivingObjects.ObjectMemory.Pages

namespace LivingObjects.ObjectMemory

open LivingObjects.Lib
open LivingObjects.VM

/-! ## §1. Requests. -/

/-- An object memory with the bytes of its buffer. -/
structure Heap where
  om : Om
  mem : Mem

/-- The arguments of one `om_alloc`.  The byte count of the object is a real
one: with a larger size word the source's `memset` runs off the address space
before `om_alloc` returns. -/
structure AllocRequest where
  classPtr : Oop
  format : UInt64
  size : UInt64
  roundsUp : format = formatBytes → size.toNat + 7 < 2 ^ 64
  fits : 8 * (3 + slotWords format size) ≤ 2 ^ 63

/-- `total_bytes`. -/
def AllocRequest.totalBytes (req : AllocRequest) : Nat :=
  8 * (3 + slotWords req.format req.size)

theorem AllocRequest.le_totalBytes (req : AllocRequest) : 24 ≤ req.totalBytes := by
  unfold AllocRequest.totalBytes
  omega

theorem AllocRequest.totalBytes_mod (req : AllocRequest) : req.totalBytes % 8 = 0 := by
  unfold AllocRequest.totalBytes
  omega

/-! ## §2. Allocation. -/

/-- The page scan of `om_alloc`: the first released page below the free pointer. -/
def reusablePage (om : Om) (totalBytes : Nat) : Option Nat :=
  if totalBytes ≤ pageBytes then
    (List.range om.pageCount).find? (fun pageId =>
      (om.page pageId).reusable && ((om.page pageId).state == .free
        && omPageStart om pageId < om.free))
  else none

/-- Where `om_alloc` puts an object that does not reuse a page. -/
def bumpObject (om : Om) (totalBytes : Nat) : Nat :=
  let relativeOffset := om.free - om.start
  let pageOffset := relativeOffset % pageBytes
  let bytesLeftInPage := pageBytes - pageOffset
  let nextPageStart := om.start + (relativeOffset + pageBytes - 1) / pageBytes * pageBytes
  if pageOffset ≠ 0 ∧ totalBytes ≤ pageBytes ∧ bytesLeftInPage < totalBytes then nextPageStart
  else om.free

/-- The header and the cleared body of a new object. -/
def writeObject (m : Mem) (object : Nat) (req : AllocRequest) : Mem :=
  let m := store64 m object req.classPtr
  let m := store64 m (object + 8) req.format
  let m := store64 m (object + 16) req.size
  zeroFill m (objFieldAddr object 0) (slotWords req.format req.size * wordSize)

/-- The entries of a page after an object is noted in it. -/
def notedPage (om : Om) (object totalBytes startPage pageId : Nat) : Page :=
  let p := om.page pageId
  let pageStart := omPageStart om pageId
  let usedEnd := min (object + totalBytes) (pageStart + pageBytes)
  let usedBytes := if pageStart < usedEnd then usedEnd - pageStart else 0
  { p with
    covering := if p.covering = 0 then object else p.covering
    first := if pageId = startPage ∧ p.first = 0 then object else p.first
    state := if pageId = startPage then .head else .continuation
    reusable := false
    used := if p.used < usedBytes then usedBytes else p.used }

/-- The page table loop of `om_alloc`. -/
def noteObject (om : Om) (object totalBytes : Nat) : Om :=
  match omPageIdForAddress om object, omPageIdForAddress om (object + totalBytes - 1) with
  | some startPage, some endPage =>
    { om with
      page := fun pageId =>
        if startPage ≤ pageId ∧ pageId ≤ endPage then
          notedPage om object totalBytes startPage pageId
        else om.page pageId }
  | _, _ => om

/-- `om_alloc`; `none` is `NULL`. -/
def omAlloc (h : Heap) (req : AllocRequest) : Option (Nat × Heap) :=
  let reusePage := reusablePage h.om req.totalBytes
  let object :=
    match reusePage with
    | some pageId => omPageStart h.om pageId
    | none => bumpObject h.om req.totalBytes
  let newFree := object + req.totalBytes
  if h.om.limit < newFree then none
  else
    let om := noteObject h.om object req.totalBytes
    let om := if reusePage.isNone then { om with free := newFree } else om
    some (object, { om := om, mem := writeObject h.mem object req })

/-! ## §3. The walk. -/

/-- The first object recorded for a page after `pageId`; 0 when there is none. -/
def firstObjectAfter (om : Om) (pageId : Nat) : Nat :=
  match (List.range om.pageCount).find? (fun q => pageId < q && (om.page q).first != 0) with
  | some q => (om.page q).first
  | none => 0

/-- `om_next_object`; 0 is `NULL`. -/
def omNextObject (om : Om) (m : Mem) (object : Nat) : Nat :=
  if object = 0 then 0
  else
    let next := wrap64 (object + omObjectBytes m object)
    if om.free ≤ next then 0
    else
      match omPageIdForAddress om next with
      | none => 0
      | some nextPage =>
        if next - omPageStart om nextPage < omPageUsedBytes om nextPage then next
        else firstObjectAfter om nextPage

/-! ## §4. What `writeObject` writes. -/

theorem writeObject_of_out (m : Mem) (object : Nat) (req : AllocRequest) {a : Nat}
    (h : a < object ∨ object + req.totalBytes ≤ a) : writeObject m object req a = m a := by
  unfold AllocRequest.totalBytes at h
  unfold writeObject
  simp only [objFieldAddr, wordSize]
  rw [zeroFill_of_out _ (by omega), store64_of_out _ _ (by omega), store64_of_out _ _ (by omega),
      store64_of_out _ _ (by omega)]

theorem objClass_writeObject (m : Mem) (object : Nat) (req : AllocRequest) :
    objClass (writeObject m object req) object = req.classPtr := by
  unfold objClass writeObject
  simp only [objFieldAddr]
  rw [load64_zeroFill_of_disjoint _ (by omega), load64_store64_of_disjoint _ _ (by omega),
      load64_store64_of_disjoint _ _ (by omega), load64_store64_self]

theorem objFormat_writeObject (m : Mem) (object : Nat) (req : AllocRequest) :
    objFormat (writeObject m object req) object = req.format := by
  unfold objFormat writeObject
  simp only [objFieldAddr]
  rw [load64_zeroFill_of_disjoint _ (by omega), load64_store64_of_disjoint _ _ (by omega),
      load64_store64_self]

theorem objSize_writeObject (m : Mem) (object : Nat) (req : AllocRequest) :
    objSize (writeObject m object req) object = req.size := by
  unfold objSize writeObject
  simp only [objFieldAddr]
  rw [load64_zeroFill_of_disjoint _ (by omega), load64_store64_self]

/-- A new object has the body it was allocated with. -/
theorem objectSlotCount_writeObject (m : Mem) (object : Nat) (req : AllocRequest) :
    objectSlotCount (writeObject m object req) object = slotWords req.format req.size := by
  unfold objectSlotCount
  rw [objFormat_writeObject, objSize_writeObject]

/-- `object_slot_count` depends on the format and size words only. -/
theorem objectSlotCount_congr {m m' : Mem} {object object' : Nat}
    (hformat : objFormat m object = objFormat m' object')
    (hsize : objSize m object = objSize m' object') :
    objectSlotCount m object = objectSlotCount m' object' := by
  unfold objectSlotCount
  rw [hformat, hsize]

end LivingObjects.ObjectMemory
