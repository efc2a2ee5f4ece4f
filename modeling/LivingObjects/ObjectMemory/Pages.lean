/-
  LivingObjects.ObjectMemory.Pages — registered object memories and page tables.

  The page half of `object.c`: `om_init` registers an object memory and gives
  it six tables with one entry a page; the accessors return a default outside
  the page range; the `om_mark_*_dirty` family raises the dirty bits of the
  pages an update touches.  An object memory here is always a registered one
  (the first 128 are); the registration table itself is a list, in order.
-/
import LivingObjects.VM.Object

namespace LivingObjects.ObjectMemory

open LivingObjects.Lib
open LivingObjects.VM

/-- `OM_PAGE_BYTES`. -/
def pageBytes : Nat := 4096

/-! ## §1. Tables. -/

/-- `OM_PAGE_STATE_*`. -/
inductive PageState where
  | free
  | head
  | continuation
  deriving DecidableEq, Repr

/-- The word a page state is stored as. -/
def PageState.word : PageState → UInt64
  | .free => 0
  | .head => 1
  | .continuation => 2

/-- One page's entries in the six tables. -/
structure Page where
  used : Nat
  first : Nat
  covering : Nat
  dirty : Bool
  state : PageState
  reusable : Bool
  deriving DecidableEq, Repr

/-- A page as `calloc` leaves it. -/
def Page.fresh : Page :=
  { used := 0, first := 0, covering := 0, dirty := false, state := .free, reusable := false }

/-- A registered object memory: the two words of the `Om` itself (free pointer
and limit) and its registration. -/
structure Om where
  free : Nat
  limit : Nat
  start : Nat
  stop : Nat
  pageCount : Nat
  page : Nat → Page

/-- `om_init`. -/
def omInit (buffer size : Nat) : Om :=
  { free := buffer
    limit := buffer + size
    start := buffer
    stop := buffer + size
    pageCount := (size + pageBytes - 1) / pageBytes
    page := fun _ => Page.fresh }

/-- Change one page's entries. -/
def Om.setPage (om : Om) (pageId : Nat) (p : Page) : Om :=
  { om with page := Function.update om.page pageId p }

/-! ## §2. Accessors. -/

/-- `om_page_id_for_address`; `none` is `UINT64_MAX`. -/
def omPageIdForAddress (om : Om) (address : Nat) : Option Nat :=
  if om.start = 0 ∨ address < om.start ∨ om.stop ≤ address then none
  else some ((address - om.start) / pageBytes)

/-- `om_page_start`. -/
def omPageStart (om : Om) (pageId : Nat) : Nat :=
  if om.start = 0 ∨ om.pageCount ≤ pageId then 0 else om.start + pageId * pageBytes

/-- `om_page_used_bytes`. -/
def omPageUsedBytes (om : Om) (pageId : Nat) : Nat :=
  if pageId < om.pageCount then (om.page pageId).used else 0

/-- `om_page_state`. -/
def omPageState (om : Om) (pageId : Nat) : PageState :=
  if pageId < om.pageCount then (om.page pageId).state else .free

/-- `om_page_is_dirty`. -/
def omPageIsDirty (om : Om) (pageId : Nat) : Bool :=
  if pageId < om.pageCount then (om.page pageId).dirty else false

/-- `om_page_first_object_start`; 0 is `NULL`. -/
def omPageFirstObjectStart (om : Om) (pageId : Nat) : Nat :=
  if pageId < om.pageCount then (om.page pageId).first else 0

/-- `om_page_covering_object`; 0 is `NULL`. -/
def omPageCoveringObject (om : Om) (pageId : Nat) : Nat :=
  if pageId < om.pageCount then (om.page pageId).covering else 0

/-- `om_page_starts_with_continuation`. -/
def omPageStartsWithContinuation (om : Om) (pageId : Nat) : Bool :=
  if omPageCoveringObject om pageId = 0 ∨ omPageStart om pageId = 0 then false
  else omPageCoveringObject om pageId < omPageStart om pageId

/-- `om_release_page`. -/
def omReleasePage (om : Om) (pageId : Nat) : Om :=
  if pageId < om.pageCount then om.setPage pageId { Page.fresh with reusable := true } else om

/-! ## §3. Dirty pages. -/

/-- `om_clear_dirty_pages`. -/
def omClearDirtyPages (om : Om) : Om :=
  { om with page := fun i => { om.page i with dirty := false } }

/-- Raise the dirty bit of the pages `first … last`. -/
def Om.raiseDirty (om : Om) (first last : Nat) : Om :=
  { om with
    page := fun i =>
      if first ≤ i ∧ i ≤ last then { om.page i with dirty := true } else om.page i }

/-- `om_mark_address_range_dirty`. -/
def omMarkAddressRangeDirty (om : Om) (startAddress sizeBytes : Nat) : Om :=
  if startAddress = 0 ∨ sizeBytes = 0 then om
  else
    match omPageIdForAddress om startAddress,
        omPageIdForAddress om (wrap64 (startAddress + sizeBytes - 1)) with
    | some startPage, some endPage => om.raiseDirty startPage endPage
    | _, _ => om

/-- `om_mark_object_dirty`. -/
def omMarkObjectDirty (m : Mem) (om : Om) (object : Nat) : Om :=
  if object = 0 then om else omMarkAddressRangeDirty om object (omObjectBytes m object)

/-- `om_mark_field_dirty`. -/
def omMarkFieldDirty (om : Om) (object fieldIndex : Nat) : Om :=
  if object = 0 then om
  else omMarkAddressRangeDirty om (wrap64 (objFieldAddr object fieldIndex)) wordSize

/-- `om_mark_byte_dirty`. -/
def omMarkByteDirty (om : Om) (object byteIndex : Nat) : Om :=
  if object = 0 then om
  else omMarkAddressRangeDirty om (wrap64 (objFieldAddr object 0 + byteIndex)) 1

/-- Two object memories are registered on the same buffer. -/
structure SameBuffer (om om' : Om) : Prop where
  start : om'.start = om.start
  limit : om'.limit = om.limit
  stop : om'.stop = om.stop
  pageCount : om'.pageCount = om.pageCount

/-- Two object memories differ in dirty bits only. -/
structure SameButDirty (om om' : Om) : Prop where
  free : om'.free = om.free
  limit : om'.limit = om.limit
  start : om'.start = om.start
  stop : om'.stop = om.stop
  pageCount : om'.pageCount = om.pageCount
  used : ∀ i, (om'.page i).used = (om.page i).used
  first : ∀ i, (om'.page i).first = (om.page i).first
  covering : ∀ i, (om'.page i).covering = (om.page i).covering
  state : ∀ i, (om'.page i).state = (om.page i).state
  reusable : ∀ i, (om'.page i).reusable = (om.page i).reusable

theorem SameButDirty.refl (om : Om) : SameButDirty om om :=
  ⟨rfl, rfl, rfl, rfl, rfl, fun _ => rfl, fun _ => rfl, fun _ => rfl, fun _ => rfl, fun _ => rfl⟩

theorem SameButDirty.symm {om om' : Om} (h : SameButDirty om om') : SameButDirty om' om :=
  ⟨h.free.symm, h.limit.symm, h.start.symm, h.stop.symm, h.pageCount.symm,
    fun i => (h.used i).symm, fun i => (h.first i).symm, fun i => (h.covering i).symm,
    fun i => (h.state i).symm, fun i => (h.reusable i).symm⟩

theorem SameButDirty.trans {om om' om'' : Om} (h : SameButDirty om om')
    (h' : SameButDirty om' om'') : SameButDirty om om'' :=
  ⟨h'.free.trans h.free, h'.limit.trans h.limit, h'.start.trans h.start, h'.stop.trans h.stop,
    h'.pageCount.trans h.pageCount, fun i => (h'.used i).trans (h.used i),
    fun i => (h'.first i).trans (h.first i), fun i => (h'.covering i).trans (h.covering i),
    fun i => (h'.state i).trans (h.state i), fun i => (h'.reusable i).trans (h.reusable i)⟩

theorem omClearDirtyPages_same (om : Om) : SameButDirty om (omClearDirtyPages om) :=
  ⟨rfl, rfl, rfl, rfl, rfl, fun _ => rfl, fun _ => rfl, fun _ => rfl, fun _ => rfl, fun _ => rfl⟩

theorem raiseDirty_same (om : Om) (first last : Nat) :
    SameButDirty om (om.raiseDirty first last) := by
  unfold Om.raiseDirty
  refine ⟨rfl, rfl, rfl, rfl, rfl, fun i => ?_, fun i => ?_, fun i => ?_, fun i => ?_,
    fun i => ?_⟩ <;> simp only <;> split <;> rfl

/-- Marking touches dirty bits only. -/
theorem omMarkAddressRangeDirty_same (om : Om) (a n : Nat) :
    SameButDirty om (omMarkAddressRangeDirty om a n) := by
  unfold omMarkAddressRangeDirty
  split
  · exact SameButDirty.refl om
  · split
    · exact raiseDirty_same om _ _
    · exact SameButDirty.refl om

theorem omMarkFieldDirty_same (om : Om) (object i : Nat) :
    SameButDirty om (omMarkFieldDirty om object i) := by
  unfold omMarkFieldDirty
  split
  · exact SameButDirty.refl om
  · exact omMarkAddressRangeDirty_same om _ _

theorem omMarkByteDirty_same (om : Om) (object i : Nat) :
    SameButDirty om (omMarkByteDirty om object i) := by
  unfold omMarkByteDirty
  split
  · exact SameButDirty.refl om
  · exact omMarkAddressRangeDirty_same om _ _

/-- Marking never lowers a dirty bit. -/
theorem omMarkAddressRangeDirty_mono (om : Om) (a n : Nat) {i : Nat}
    (h : (om.page i).dirty = true) : ((omMarkAddressRangeDirty om a n).page i).dirty = true := by
  unfold omMarkAddressRangeDirty
  split
  · exact h
  · split
    · unfold Om.raiseDirty
      simp only
      split
      · rfl
      · exact h
    · exact h

/-- A marked range inside the heap leaves every page it touches dirty. -/
theorem omMarkAddressRangeDirty_covers (om : Om) {a n b : Nat} (hstart : om.start ≠ 0)
    (ha : om.start ≤ a) (hn : a + n ≤ om.stop) (hstop : om.stop ≤ 2 ^ 64)
    (hab : a ≤ b) (hb : b < a + n) :
    ((omMarkAddressRangeDirty om a n).page ((b - om.start) / pageBytes)).dirty = true := by
  have hlast : wrap64 (a + n - 1) = a + n - 1 := wrap64_of_lt (by omega)
  have hfirst : omPageIdForAddress om a = some ((a - om.start) / pageBytes) := by
    unfold omPageIdForAddress
    rw [if_neg (by omega)]
  have hend : omPageIdForAddress om (a + n - 1) = some ((a + n - 1 - om.start) / pageBytes) := by
    unfold omPageIdForAddress
    rw [if_neg (by omega)]
  unfold omMarkAddressRangeDirty
  rw [if_neg (by omega), hlast, hfirst, hend]
  have hlo : (a - om.start) / pageBytes ≤ (b - om.start) / pageBytes :=
    Nat.div_le_div_right (by omega)
  have hhi : (b - om.start) / pageBytes ≤ (a + n - 1 - om.start) / pageBytes :=
    Nat.div_le_div_right (by omega)
  simp only [Om.raiseDirty]
  rw [if_pos ⟨hlo, hhi⟩]

/-! ## §4. The registration table. -/

/-- `om_registered_for_address`: the position of the first registered object
memory whose buffer holds the address. -/
def omRegisteredForAddress (oms : List Om) (address : Nat) : Option Nat :=
  oms.findIdx? (fun om => om.start ≤ address && address < om.stop)

/-- Mark in the object memory registered for an address, when there is one. -/
def markRegistered (oms : List Om) (address : Nat) (mark : Om → Om) : List Om :=
  match omRegisteredForAddress oms address with
  | some index => oms.modify index mark
  | none => oms

end LivingObjects.ObjectMemory
