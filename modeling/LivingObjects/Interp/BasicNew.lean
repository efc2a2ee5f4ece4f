/-
  LivingObjects.Interp.BasicNew — allocation of the sizes a program asks for.

  `basicNew` and `basicNew:` pass any non-negative SmallInteger on to `om_alloc`.  Its
  words, bytes and end address are 64-bit words of the machine: here they wrap, and
  `omAllocSized` is `om_alloc` as it is computed.  Where nothing wraps it is the `omAlloc`
  of the object memory (`omAllocSized_eq`).  The only check is a comparison of the end
  address, so a size that wraps passes it: `basicNew_sizes_iff` says which sizes are
  handled as they should be.
-/
import LivingObjects.ObjectMemory.Layout
import LivingObjects.Txn.Access

namespace LivingObjects.Interp

open LivingObjects.Lib
open LivingObjects.VM
open LivingObjects.ObjectMemory
open LivingObjects.Txn (untagSmallint)

/-! ## §1. The primitives. -/

/-- The size check `PRIM_BASIC_NEW` makes of `CLASS_INST_SIZE` and `PRIM_BASIC_NEW_SIZE` of
its argument; `none` is `PRIMITIVE_FAILED`. -/
def basicNewSize (sizeOop : Oop) : Option UInt64 :=
  if !isSmallint sizeOop then none
  else if untagSmallint sizeOop < 0 then none
  else some (UInt64.ofNat (untagSmallint sizeOop).toNat)

/-- The format check `PRIM_BASIC_NEW_SIZE` makes of `CLASS_INST_FORMAT`. -/
def basicNewFormat (formatOop : Oop) : Option UInt64 :=
  if !isSmallint formatOop then none
  else if untagSmallint formatOop = 0 ∨
      (untagSmallint formatOop ≠ 1 ∧ untagSmallint formatOop ≠ 2) then none
  else some (UInt64.ofNat (untagSmallint formatOop).toNat)

/-- A class and the size it is asked for; `PRIM_BASIC_NEW` uses `FORMAT_FIELDS` for every
class. -/
inductive Asked : UInt64 → UInt64 → Prop where
  | basicNew (sizeOop : Oop) {size : UInt64} :
    basicNewSize sizeOop = some size → Asked formatFields size
  | basicNewSize (sizeOop formatOop : Oop) {format size : UInt64} :
    basicNewSize sizeOop = some size → basicNewFormat formatOop = some format →
      Asked format size

/-! ## §2. The allocation. -/

/-- `total_words`. -/
def totalWords (format size : UInt64) : Nat := wrap64 (objHeaderWords + slotWords format size)

/-- `total_bytes`. -/
def totalBytes (format size : UInt64) : Nat := wrap64 (totalWords format size * wordSize)

/-- The header and the `memset` of the body. -/
def writeSized (m : Mem) (object : Nat) (classPtr format size : UInt64) : Mem :=
  let m := store64 m object classPtr
  let m := store64 m (object + 8) format
  let m := store64 m (object + 16) size
  zeroFill m (objFieldAddr object 0) (wrap64 (slotWords format size * wordSize))

/-- The page `om_alloc` reuses; only the first 128 object memories have page tables. -/
def reusePage (registered : Bool) (om : Om) (bytes : Nat) : Option Nat :=
  if registered then reusablePage om bytes else none

/-- `object`: the page that is reused, else the free pointer or the page behind it. -/
def place (registered : Bool) (om : Om) (bytes : Nat) : Nat :=
  match reusePage registered om bytes with
  | some pageId => omPageStart om pageId
  | none => if registered then bumpObject om bytes else om.free

/-- `om_alloc` for any size.  A `memset` that leaves the address space faults, and nothing
is returned then: the object that is returned here instead has a body outside the heap. -/
def omAllocSized (registered : Bool) (h : Heap) (classPtr format size : UInt64) :
    Option (Nat × Heap) :=
  let bytes := totalBytes format size
  let object := place registered h.om bytes
  -- pointer arithmetic: the words are scaled to bytes
  let newFree := wrap64 (object + wrap64 (totalWords format size * wordSize))
  if h.om.limit < newFree then none
  else
    let om := if registered then noteObject h.om object bytes else h.om
    let om := if (reusePage registered h.om bytes).isNone then { om with free := newFree } else om
    some (object, { om := om, mem := writeSized h.mem object classPtr format size })

/-! ## §3. The arithmetic. -/

/-- The words a body of that size takes. -/
def bodyWords (format size : UInt64) : Nat :=
  if format = formatBytes then (size.toNat + 7) / 8 else size.toNat

/-- The bytes of the whole object. -/
def objectBytes (format size : UInt64) : Nat := 8 * (3 + bodyWords format size)

theorem basicNewSize_lt {sizeOop : Oop} {size : UInt64} (h : basicNewSize sizeOop = some size) :
    size.toNat < 2 ^ 61 := by
  unfold basicNewSize at h
  split at h
  · cases h
  split at h
  · cases h
  next hsign =>
  cases h
  have hupper := BitVec.two_mul_toInt_lt (x := sizeOop.toBitVec)
  have hlt : (untagSmallint sizeOop).toNat < 2 ^ 61 := by
    unfold untagSmallint at hsign ⊢
    omega
  rw [toNat_ofNat64 (by omega)]
  exact hlt

theorem Asked.size_lt {format size : UInt64} (h : Asked format size) : size.toNat < 2 ^ 61 := by
  cases h with
  | basicNew _ hsize => exact basicNewSize_lt hsize
  | basicNewSize _ _ hsize _ => exact basicNewSize_lt hsize

section Sizes

variable {format size : UInt64}

/-- Rounding a byte size up to words does not wrap. -/
theorem slotWords_eq (h : size.toNat < 2 ^ 61) : slotWords format size = bodyWords format size := by
  unfold slotWords bodyWords
  split
  · rw [wrap64_of_lt (by unfold wordSize; omega)]
    rfl
  · rfl

theorem bodyWords_lt (h : size.toNat < 2 ^ 61) : bodyWords format size < 2 ^ 61 := by
  unfold bodyWords
  split <;> omega

/-- The word count does not wrap, and the byte count does for the three largest sizes
only. -/
theorem totalBytes_eq (h : size.toNat < 2 ^ 61) :
    totalBytes format size = wrap64 (objectBytes format size) := by
  have hlt : bodyWords format size < 2 ^ 61 := bodyWords_lt h
  unfold totalBytes totalWords objectBytes
  have hwords : wrap64 (objHeaderWords + bodyWords format size) = 3 + bodyWords format size := by
    unfold objHeaderWords
    exact wrap64_of_lt (by omega)
  rw [slotWords_eq h, hwords, Nat.mul_comm]
  rfl

theorem totalBytes_of_lt (h : size.toNat < 2 ^ 61) (hbytes : objectBytes format size < 2 ^ 64) :
    totalBytes format size = objectBytes format size := by
  rw [totalBytes_eq h, wrap64_of_lt hbytes]

end Sizes

/-! ## §4. Where the object goes. -/

/-- A large object goes to the free pointer. -/
theorem place_of_large {om : Om} {bytes : Nat} (registered : Bool) (h : pageBytes < bytes) :
    place registered om bytes = om.free := by
  have hreuse : reusePage registered om bytes = none := by
    unfold reusePage reusablePage
    rw [if_neg (Nat.not_le_of_lt h)]
    exact ite_self _
  unfold place
  rw [hreuse]
  cases registered with
  | false => rfl
  | true =>
    show bumpObject om bytes = om.free
    rcases bumpObject_cases om bytes with heq | ⟨-, hsmall, -, -⟩
    · exact heq
    · omega

/-- Any object goes to the heap or to the page behind it. -/
theorem place_bounds {om : Om} (hp : Placed om) (registered : Bool) (bytes : Nat) :
    om.start ≤ place registered om bytes ∧ place registered om bytes ≤ om.free + pageBytes := by
  have hstart := hp.startFree
  unfold place
  cases registered with
  | false => exact ⟨hstart, Nat.le_add_right _ _⟩
  | true =>
    rcases hreuse : reusePage true om bytes with _ | pageId
    · show om.start ≤ bumpObject om bytes ∧ bumpObject om bytes ≤ om.free + pageBytes
      rcases bumpObject_cases om bytes with heq | ⟨-, -, -, heq⟩
      · rw [heq]
        exact ⟨hstart, Nat.le_add_right _ _⟩
      · rw [heq]
        unfold Om.pageStart Om.pageOf pageBytes
        omega
    · obtain ⟨hlt, -, -, hbelow, -⟩ := reusablePage_some hreuse
      show om.start ≤ omPageStart om pageId ∧ omPageStart om pageId ≤ om.free + pageBytes
      rw [hp.pageStart hlt] at hbelow ⊢
      unfold Om.pageStart at hbelow ⊢
      omega

/-! ## §5. Outcomes. -/

/-- The end address `om_alloc` compares with the end of the heap. -/
def newFree (registered : Bool) (om : Om) (format size : UInt64) : Nat :=
  wrap64 (place registered om (totalBytes format size) + totalBytes format size)

theorem omAllocSized_none_iff (registered : Bool) (h : Heap) (classPtr format size : UInt64) :
    omAllocSized registered h classPtr format size = none ↔
      h.om.limit < newFree registered h.om format size := by
  unfold omAllocSized newFree
  simp only
  split
  · next hover => exact ⟨fun _ => hover, fun _ => rfl⟩
  · next hroom => exact ⟨fun hnone => (by cases hnone), fun hover => absurd hover hroom⟩

theorem omAllocSized_some {registered : Bool} {h h' : Heap} {classPtr format size : UInt64}
    {object : Nat} (ha : omAllocSized registered h classPtr format size = some (object, h')) :
    object = place registered h.om (totalBytes format size) ∧
      h'.mem = writeSized h.mem object classPtr format size := by
  unfold omAllocSized at ha
  simp only at ha
  split at ha
  · cases ha
  · cases ha
    exact ⟨rfl, rfl⟩

/-- The header of an object whose body does not reach round to it. -/
theorem writeSized_header (m : Mem) (object : Nat) (classPtr format size : UInt64) :
    objClass (writeSized m object classPtr format size) object = classPtr ∧
      objFormat (writeSized m object classPtr format size) object = format ∧
      objSize (writeSized m object classPtr format size) object = size := by
  unfold writeSized objClass objFormat objSize
  simp only [objFieldAddr]
  refine ⟨?_, ?_, ?_⟩
  · rw [load64_zeroFill_of_disjoint _ (by omega), load64_store64_of_disjoint _ _ (by omega),
      load64_store64_of_disjoint _ _ (by omega), load64_store64_self]
  · rw [load64_zeroFill_of_disjoint _ (by omega), load64_store64_of_disjoint _ _ (by omega),
      load64_store64_self]
  · rw [load64_zeroFill_of_disjoint _ (by omega), load64_store64_self]

/-- Where nothing wraps, this is the allocation of the object memory. -/
theorem omAllocSized_eq (h : Heap) (req : AllocRequest)
    (hsize : req.size.toNat < 2 ^ 61)
    (hend : place true h.om req.totalBytes + req.totalBytes < 2 ^ 64) :
    omAllocSized true h req.classPtr req.format req.size = omAlloc h req := by
  have hbytes : totalBytes req.format req.size = req.totalBytes := by
    have hfits := req.fits
    unfold AllocRequest.totalBytes
    rw [totalBytes_eq hsize]
    unfold objectBytes
    rw [← slotWords_eq hsize]
    exact wrap64_of_lt (by omega)
  have hobject : place true h.om req.totalBytes = match reusablePage h.om req.totalBytes with
      | some pageId => omPageStart h.om pageId
      | none => bumpObject h.om req.totalBytes := rfl
  have hwords : wrap64 (totalWords req.format req.size * wordSize) = req.totalBytes := hbytes
  have hbody : wrap64 (slotWords req.format req.size * wordSize)
      = slotWords req.format req.size * wordSize := by
    have hlt : bodyWords req.format req.size < 2 ^ 61 := bodyWords_lt hsize
    rw [slotWords_eq hsize]
    unfold wordSize
    exact wrap64_of_lt (by omega)
  unfold omAllocSized omAlloc writeSized writeObject reusePage
  simp only [hbytes, hwords, wrap64_of_lt hend, hbody, if_true]
  exact hobject ▸ rfl

/-! ## §6. Which sizes are handled. -/

/-- The allocation of a size is as it should be: neither the words nor the bytes wrap, and
an object that is returned has its header and its whole body in the heap.  With `NULL` the
heap is as it was. -/
structure Handled (registered : Bool) (h : Heap) (classPtr format size : UInt64) : Prop where
  words : totalWords format size = 3 + bodyWords format size
  bytes : totalBytes format size = objectBytes format size
  placed : ∀ object h', omAllocSized registered h classPtr format size = some (object, h') →
    h.om.start ≤ object ∧ object + objectBytes format size ≤ h.om.limit ∧
      objClass h'.mem object = classPtr ∧ objFormat h'.mem object = format ∧
      objSize h'.mem object = size

/-- **The sizes of `basicNew` and `basicNew:`.**  On every heap and for every format and size
that is asked for, the allocation is as it should be exactly if the object, laid at the
free pointer, would end inside the address space: the comparison with the end of the heap
does not see an end address that has wrapped. -/
theorem basicNew_sizes_iff {h : Heap} (hp : Placed h.om) (registered : Bool) (classPtr : Oop)
    {format size : UInt64} (hasked : Asked format size) :
    Handled registered h classPtr format size ↔
      h.om.free + objectBytes format size < 2 ^ 64 := by
  have hsize := hasked.size_lt
  have hlt : bodyWords format size < 2 ^ 61 := bodyWords_lt hsize
  have hfree := hp.freeLimit
  have hlimit := hp.limitStop
  have hstop := hp.stopBound
  constructor
  · -- an object that ends outside the address space is returned all the same
    intro hhandled
    by_contra hwraps
    have hbytes := hhandled.bytes
    have hlarge : pageBytes < totalBytes format size := by
      unfold pageBytes
      omega
    have hfits : totalBytes format size < 2 ^ 64 := by
      unfold totalBytes wrap64
      exact Nat.mod_lt _ (by decide)
    have hend : newFree registered h.om format size ≤ h.om.limit := by
      unfold newFree
      rw [place_of_large registered hlarge]
      unfold wrap64
      omega
    rcases hrun : omAllocSized registered h classPtr format size with _ | ⟨object, h'⟩
    · have hover := (omAllocSized_none_iff registered h classPtr format size).mp hrun
      omega
    · obtain ⟨hobject, -⟩ := omAllocSized_some hrun
      obtain ⟨-, hinside, -⟩ := hhandled.placed object h' hrun
      rw [hobject, place_of_large registered hlarge] at hinside
      omega
  · intro hends
    have hbytes : totalBytes format size = objectBytes format size :=
      totalBytes_of_lt hsize (by omega)
    refine ⟨?_, hbytes, ?_⟩
    · unfold totalWords
      rw [slotWords_eq hsize]
      unfold objHeaderWords
      exact wrap64_of_lt (by omega)
    · intro object h' hrun
      obtain ⟨hobject, hmem⟩ := omAllocSized_some hrun
      have hroom : ¬ h.om.limit < newFree registered h.om format size := by
        rw [← omAllocSized_none_iff registered h classPtr, hrun]
        exact Option.some_ne_none _
      obtain ⟨habove, hbelow⟩ := place_bounds hp registered (totalBytes format size)
      -- small objects may go to the next page, large ones stay at the free pointer
      have hnowrap : place registered h.om (totalBytes format size) + totalBytes format size
          < 2 ^ 64 := by
        by_cases hlarge : pageBytes < totalBytes format size
        · rw [place_of_large registered hlarge, hbytes]
          exact hends
        · unfold pageBytes at hlarge hbelow
          omega
      unfold newFree at hroom
      rw [wrap64_of_lt hnowrap, ← hobject, hbytes] at hroom
      rw [← hobject] at habove
      rw [hmem]
      exact ⟨habove, by omega, writeSized_header h.mem object classPtr format size⟩

/-- A heap of one page. -/
def onePage : Heap := { om := omInit 65536 4096, mem := fun _ => 0 }

theorem onePage_placed : Placed onePage.om := by
  constructor <;> decide

/-- An Array of 2305843009213693949 elements: its byte count wraps to 0. -/
def wrappingSize : UInt64 := 2305843009213693949

theorem wrappingSize_asked : Asked formatIndexable wrappingSize := by
  refine .basicNewSize 9223372036854775797 5 ?_ ?_
  · decide
  · decide

theorem wrappingSize_not_handled : Asked formatIndexable wrappingSize ∧
    ¬ Handled true onePage 65536 formatIndexable wrappingSize := by
  refine ⟨wrappingSize_asked, fun hhandled => ?_⟩
  have hbytes := hhandled.bytes
  revert hbytes
  decide

theorem onePage_handles_two : Handled true onePage 65536 formatIndexable 2 ↔
    onePage.om.free + objectBytes formatIndexable 2 < 2 ^ 64 :=
  basicNew_sizes_iff onePage_placed true 65536
    (.basicNewSize 9 5 (by decide) (by decide))

end LivingObjects.Interp
