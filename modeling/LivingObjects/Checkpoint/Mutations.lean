/-
  LivingObjects.Checkpoint.Mutations — what changes a heap between checkpoints.

  Instance-variable stores, `at:put:` and transaction commits mark the page they
  write to; allocation, page release, and the stores that build closures,
  contexts, symbols and method dictionaries do not.  Each mutation keeps the
  layout of the heap, and each page it does not mark either keeps its contents
  and then serializes as before, or counts as changed behind the dirty bits.
-/
import LivingObjects.Checkpoint.CleanPages
import LivingObjects.Journal.Append

namespace LivingObjects.Checkpoint

open LivingObjects.Lib
open LivingObjects.VM
open LivingObjects.ObjectMemory
open LivingObjects.Journal

/-! ## §1. Mutations. -/

/-- A store into the body of an object. -/
inductive BodyWrite where
  /-- `OBJ_FIELD(object, index) = value`. -/
  | word (object index : Nat) (value : Oop)
  /-- `((uint8_t *)&OBJ_FIELD(object, 0))[index] = value`. -/
  | byte (object index : Nat) (value : UInt8)

/-- The store. -/
def BodyWrite.store (m : Mem) : BodyWrite → Mem
  | .word object index value => store64 m (wrap64 (objFieldAddr object index)) value
  | .byte object index value => store8 m (wrap64 (objFieldAddr object 0 + index)) value

/-- Where the store goes. -/
def BodyWrite.address : BodyWrite → Nat
  | .word object index _ => wrap64 (objFieldAddr object index)
  | .byte object index _ => wrap64 (objFieldAddr object 0 + index)

/-- How many bytes it writes. -/
def BodyWrite.size : BodyWrite → Nat
  | .word .. => 8
  | .byte .. => 1

/-- The mark that goes with it. -/
def BodyWrite.mark (om : Om) : BodyWrite → Om
  | .word object index _ => omMarkFieldDirty om object index
  | .byte object index _ => omMarkByteDirty om object index

/-- The store an entry of a transaction log stands for. -/
def entryWrite (e : LogEntry) : BodyWrite :=
  if e.fieldIndex >>> 63 ≠ 0 then
    .byte e.object.toNat (e.fieldIndex &&& ~~~byteFieldMarker).toNat (untagSmallintByte e.value)
  else .word e.object.toNat e.fieldIndex.toNat e.value

/-- The loop body of `mark_dirty_pages_for_txn_log`. -/
def markEntry (om : Om) (e : LogEntry) : Om :=
  if isObjectPtr e.object then
    if e.fieldIndex >>> 63 ≠ 0 then
      omMarkByteDirty om e.object.toNat (e.fieldIndex &&& ~~~byteFieldMarker).toNat
    else omMarkFieldDirty om e.object.toNat e.fieldIndex.toNat
  else om

/-- `mark_dirty_pages_for_txn_log`. -/
def markDirtyPagesForTxnLog (om : Om) (log : TxnLog) : Om :=
  log.entries.foldl markEntry om

/-- A mutation of the heap. -/
inductive Mutation where
  /-- `om_alloc`. -/
  | alloc (req : AllocRequest)
  /-- `om_release_page`. -/
  | release (pageId : Nat)
  /-- An instance-variable store or an `at:put:` outside a transaction. -/
  | marked (w : BodyWrite)
  /-- A commit: mark the pages of the log, then install it. -/
  | commit (log : TxnLog)
  /-- A store of closure or context creation, symbol interning or method
  installation. -/
  | unmarked (w : BodyWrite)

/-- The heap after a mutation. -/
def Mutation.run (h : Heap) : Mutation → Heap
  | .alloc req =>
    match omAlloc h req with
    | some (_, h') => h'
    | none => h
  | .release pageId => { h with om := omReleasePage h.om pageId }
  | .marked w => { om := w.mark h.om, mem := w.store h.mem }
  | .commit log => { om := markDirtyPagesForTxnLog h.om log, mem := txnCommit h.mem log }
  | .unmarked w => { h with mem := w.store h.mem }

/-- The live objects after a mutation. -/
def Mutation.lives (h : Heap) (live : Set Extent) : Mutation → Set Extent
  | .alloc req =>
    match omAlloc h req with
    | some (obj, _) => insert ⟨obj, req.totalBytes⟩ live
    | none => live
  | .release pageId => if pageId < h.om.pageCount then {e ∈ live | h.om.pageOf e.addr ≠ pageId}
    else live
  | .marked _ | .commit _ | .unmarked _ => live

/-- A store stays inside the body of a live object: words go to slots and hold
settled values, bytes go to byte objects. -/
def BodyWrite.Inside (h : Heap) (live : Set Extent) : BodyWrite → Prop
  | .word object index value =>
    ∃ e ∈ live, e.addr = object ∧ 24 + 8 * index + 8 ≤ e.bytes ∧ Settled h.om value
  | .byte object index _ =>
    ∃ e ∈ live, e.addr = object ∧ 24 + index + 1 ≤ e.bytes ∧ objFormat h.mem object = formatBytes

/-- The mutations the VM performs. -/
def Mutation.Legal (h : Heap) (live : Set Extent) : Mutation → Prop
  | .alloc req => Settled h.om req.classPtr
  | .release pageId => pageId < h.om.pageCount → Releasable h.om pageId
  | .marked w | .unmarked w => w.Inside h live
  | .commit log => ∀ e ∈ log.entries, isObjectPtr e.object = true ∧ (entryWrite e).Inside h live

/-- The pages a store writes in. -/
def BodyWrite.pages (om : Om) (w : BodyWrite) : Set Nat :=
  {p | om.pageOf w.address ≤ p ∧ p ≤ om.pageOf (w.address + w.size - 1)}

/-- The pages a mutation changes behind the dirty bits.  For an allocation these
are the pages of the new object and the page of the free pointer, whose rest
counts as live once the free pointer has left it. -/
def Mutation.behind (h : Heap) : Mutation → Set Nat
  | .alloc req =>
    match omAlloc h req with
    | some (obj, _) =>
      {p | p = h.om.pageOf h.om.free ∨
        (h.om.pageOf obj ≤ p ∧ p ≤ h.om.pageOf (obj + req.totalBytes - 1))}
    | none => ∅
  | .release pageId => {pageId}
  | .marked _ | .commit _ => ∅
  | .unmarked w => w.pages h.om

/-- A commit is its marked stores, one after the other. -/
theorem commit_run (h : Heap) (log : TxnLog)
    (hptr : ∀ e ∈ log.entries, isObjectPtr e.object = true) :
    (Mutation.commit log).run h
      = (log.entries.map entryWrite).foldl (fun h w => (Mutation.marked w).run h) h := by
  obtain ⟨om, m⟩ := h
  show ({ om := log.entries.foldl markEntry om, mem := log.entries.foldl commitEntry m } : Heap) = _
  generalize log.entries = entries at hptr
  induction entries generalizing om m with
  | nil => rfl
  | cons e es ih =>
    have hentry : (Mutation.marked (entryWrite e)).run { om := om, mem := m }
        = { om := markEntry om e, mem := commitEntry m e } := by
      unfold Mutation.run markEntry commitEntry entryWrite
      rw [if_pos (hptr e List.mem_cons_self)]
      by_cases hbyte : e.fieldIndex >>> 63 ≠ 0
      · simp only [if_pos hbyte]
        rfl
      · simp only [if_neg hbyte]
        rfl
    rw [List.foldl_cons, List.foldl_cons, List.map_cons, List.foldl_cons, hentry]
    exact ih _ _ (fun e' he' => hptr e' (List.mem_cons_of_mem e he'))

/-! ## §2. One store. -/

section Write

variable {h : Heap} {live : Set Extent} {w : BodyWrite}

/-- The bytes a store inside an object writes. -/
theorem BodyWrite.Inside.place (hl : Layout h live) (hw : w.Inside h live) :
    ∃ e ∈ live, e.addr + 24 ≤ w.address ∧ w.address + w.size ≤ e.addr + e.bytes ∧
      (∀ b, b < w.address ∨ w.address + w.size ≤ b → w.store h.mem b = h.mem b) ∧
      w.mark h.om = omMarkAddressRangeDirty h.om w.address w.size := by
  have hstart := hl.placed.aboveFirstPage
  have hfree := hl.placed.freeLimit
  have hlimit := hl.placed.limitStop
  have hbound := hl.placed.stopBound
  unfold pageBytes at hstart
  cases w with
  | word object index value =>
    obtain ⟨e, he, rfl, hin, -⟩ := hw
    have habove := (hl.objects e he).above
    have hbelow := (hl.objects e he).below
    have haddress : wrap64 (objFieldAddr e.addr index) = e.addr + 24 + 8 * index := by
      unfold objFieldAddr
      exact wrap64_of_lt (by omega)
    refine ⟨e, he, ?_, ?_, ?_, ?_⟩
    · show e.addr + 24 ≤ wrap64 (objFieldAddr e.addr index)
      omega
    · show wrap64 (objFieldAddr e.addr index) + 8 ≤ e.addr + e.bytes
      omega
    · intro b hb
      exact store64_of_out h.mem value hb
    · show omMarkFieldDirty h.om e.addr index = _
      unfold omMarkFieldDirty
      rw [if_neg (by omega)]
      rfl
  | byte object index value =>
    obtain ⟨e, he, rfl, hin, -⟩ := hw
    have habove := (hl.objects e he).above
    have hbelow := (hl.objects e he).below
    have haddress : wrap64 (objFieldAddr e.addr 0 + index) = e.addr + 24 + index := by
      unfold objFieldAddr
      exact wrap64_of_lt (by omega)
    refine ⟨e, he, ?_, ?_, ?_, ?_⟩
    · show e.addr + 24 ≤ wrap64 (objFieldAddr e.addr 0 + index)
      omega
    · show wrap64 (objFieldAddr e.addr 0 + index) + 1 ≤ e.addr + e.bytes
      omega
    · intro b hb
      have hout : b < wrap64 (objFieldAddr e.addr 0 + index)
          ∨ wrap64 (objFieldAddr e.addr 0 + index) + 1 ≤ b := hb
      exact store8_of_ne h.mem value (by omega)
    · show omMarkByteDirty h.om e.addr index = _
      unfold omMarkByteDirty
      rw [if_neg (by omega)]
      rfl

/-- A store inside an object leaves every header alone. -/
theorem BodyWrite.Inside.headers (hl : Layout h live) (hw : w.Inside h live) {e : Extent}
    (he : e ∈ live) {i : Nat} (hi : i < 24) : w.store h.mem (e.addr + i) = h.mem (e.addr + i) := by
  obtain ⟨e₀, he₀, hlo, hhi, hkeep, -⟩ := hw.place hl
  have hsize := (hl.objects e he).nonempty
  apply hkeep
  by_contra hin
  have hsame := hl.disjoint e he e₀ he₀ (e.addr + i) ⟨by omega, by omega⟩ ⟨by omega, by omega⟩
  subst hsame
  omega

theorem BodyWrite.Inside.format (hl : Layout h live) (hw : w.Inside h live) {e : Extent}
    (he : e ∈ live) : objFormat (w.store h.mem) e.addr = objFormat h.mem e.addr := by
  apply load64_congr
  intro i hi
  rw [Nat.add_assoc]
  exact hw.headers hl he (by omega)

theorem BodyWrite.Inside.slotCount (hl : Layout h live) (hw : w.Inside h live) {e : Extent}
    (he : e ∈ live) : objectSlotCount (w.store h.mem) e.addr = objectSlotCount h.mem e.addr := by
  apply objectSlotCount_congr (hw.format hl he)
  apply load64_congr
  intro i hi
  rw [Nat.add_assoc]
  exact hw.headers hl he (by omega)

theorem BodyWrite.mark_same (om : Om) (w : BodyWrite) : SameButDirty om (w.mark om) := by
  cases w with
  | word object index value => exact omMarkFieldDirty_same om object index
  | byte object index value => exact omMarkByteDirty_same om object index

/-- A store inside an object keeps the layout, whatever dirty bits change with it. -/
theorem BodyWrite.Inside.layout (hl : Layout h live) (hw : w.Inside h live) {om : Om}
    (hom : SameButDirty h.om om) : Layout { om := om, mem := w.store h.mem } live :=
  hl.congr hom (fun _ he => hw.slotCount hl he)

/-- A store inside an object keeps references settled. -/
theorem BodyWrite.Inside.refsBelow (hl : Layout h live) (hrefs : RefsBelow h live)
    (hw : w.Inside h live) {om : Om} (hom : SameButDirty h.om om) :
    RefsBelow { om := om, mem := w.store h.mem } live := by
  intro e he a hslot
  have hslot' : SlotOf h.mem e a := by
    rcases hslot with hclass | ⟨k, hk, hfields, haddr⟩
    · exact .inl hclass
    · refine .inr ⟨k, ?_, ?_, haddr⟩
      · rw [← hw.slotCount hl he]
        exact hk
      · rw [← hw.format hl he]
        exact hfields
  have hold := hrefs e he a hslot'
  have hsettled : ∀ v, Settled h.om v → Settled om v := by
    intro v hv hptr
    rw [hom.free, hom.stop]
    exact hv hptr
  apply hsettled
  have hbound := (hl.objects e he).header
  have hsize := (hl.objects e he).nonempty
  have hfree := hl.placed.freeLimit
  have hlimit := hl.placed.limitStop
  have hstop := hl.placed.stopBound
  have hwordIn : e.addr ≤ a ∧ a + 8 ≤ e.addr + e.bytes ∧ (a = e.addr ∨ e.addr + 24 ≤ a) := by
    rcases hslot' with rfl | ⟨k, hk, -, rfl⟩
    · exact ⟨Nat.le_refl _, by omega, .inl rfl⟩
    · exact ⟨by omega, by omega, .inr (by omega)⟩
  cases w with
  | word object index value =>
    obtain ⟨e₀, he₀, rfl, hin, hvalue⟩ := hw
    have hbelow := (hl.objects e₀ he₀).below
    have hwrap : wrap64 (objFieldAddr e₀.addr index) = e₀.addr + 24 + 8 * index := by
      unfold objFieldAddr
      exact wrap64_of_lt (by omega)
    show Settled h.om (load64 (store64 h.mem (wrap64 (objFieldAddr e₀.addr index)) value) a)
    rw [hwrap]
    by_cases hsame : e = e₀
    · subst hsame
      rcases hslot' with rfl | ⟨k, hk, -, rfl⟩
      · rw [load64_store64_of_disjoint _ _ (by omega)]
        exact hold
      · rcases Nat.lt_trichotomy k index with hlt | rfl | hgt
        · rw [load64_store64_of_disjoint _ _ (by omega)]
          exact hold
        · rw [load64_store64_self]
          exact hvalue
        · rw [load64_store64_of_disjoint _ _ (by omega)]
          exact hold
    · rw [load64_store64_of_disjoint]
      · exact hold
      · by_contra hover
        apply hsame
        have hmeet : ∃ b, (a ≤ b ∧ b < a + 8) ∧
            (e₀.addr + 24 + 8 * index ≤ b ∧ b < e₀.addr + 24 + 8 * index + 8) :=
          ⟨max a (e₀.addr + 24 + 8 * index), by omega, by omega⟩
        obtain ⟨b, hb, hb'⟩ := hmeet
        exact hl.disjoint e he e₀ he₀ b ⟨by omega, by omega⟩ ⟨by omega, by omega⟩
  | byte object index value =>
    obtain ⟨e₀, he₀, rfl, hin, hformat⟩ := hw
    have hbelow := (hl.objects e₀ he₀).below
    have hwrap : wrap64 (objFieldAddr e₀.addr 0 + index) = e₀.addr + 24 + index := by
      unfold objFieldAddr
      exact wrap64_of_lt (by omega)
    show Settled h.om (load64 (store8 h.mem (wrap64 (objFieldAddr e₀.addr 0 + index)) value) a)
    rw [hwrap, load64_store8_of_disjoint]
    · exact hold
    · by_contra hover
      have hsame := hl.disjoint e he e₀ he₀ (e₀.addr + 24 + index) ⟨by omega, by omega⟩
        ⟨by omega, by omega⟩
      subst hsame
      -- the class word lies below the body, and a byte object has no slots
      rcases hslot' with rfl | ⟨k, hk, hfields, rfl⟩
      · omega
      · exact hfields hformat

/-- A store in other pages leaves a page as it was. -/
theorem BodyWrite.Inside.samePage (hl : Layout h live) (hw : w.Inside h live) {om : Om}
    (hom : SameButDirty h.om om) {p : Nat} (hout : p ∉ w.pages h.om) :
    SamePage h { om := om, mem := w.store h.mem } live live p := by
  obtain ⟨e₀, he₀, hlo, hhi, hkeep, -⟩ := hw.place hl
  have habove := (hl.objects e₀ he₀).above
  have hle := checkpointPageLiveBytes_le (h.om.free - h.om.start) p
  constructor
  · exact ⟨hom.start, hom.limit, hom.stop, hom.pageCount⟩
  · exact hom.state p
  · exact hom.used p
  · exact hom.covering p
  · unfold liveBytes
    rw [hom.free, hom.start]
  · intro a ha hend
    apply hkeep
    by_contra hin
    apply hout
    have hpage : h.om.pageOf a = p := by
      unfold liveBytes Om.pageStart Om.pageOf pageBytes at *
      omega
    show h.om.pageOf w.address ≤ p ∧ p ≤ h.om.pageOf (w.address + w.size - 1)
    rw [← hpage]
    unfold Om.pageOf
    exact ⟨Nat.div_le_div_right (by omega), Nat.div_le_div_right (by omega)⟩
  · exact fun e _ => Iff.rfl
  · exact fun e he _ => ⟨hw.format hl he, hw.slotCount hl he⟩

/-- A marked store leaves the pages it writes in dirty. -/
theorem BodyWrite.Inside.marks (hl : Layout h live) (hw : w.Inside h live) {p : Nat}
    (hp : p ∈ w.pages h.om) : ((w.mark h.om).page p).dirty = true := by
  obtain ⟨e₀, he₀, hlo, hhi, -, hmark⟩ := hw.place hl
  have hstart := hl.placed.aboveFirstPage
  have hfree := hl.placed.freeLimit
  have hlimit := hl.placed.limitStop
  have hbound := hl.placed.stopBound
  have habove := (hl.objects e₀ he₀).above
  have hbelow := (hl.objects e₀ he₀).below
  have hsize : 1 ≤ w.size ∧ w.size ≤ 8 := by
    cases w with
    | word object index value =>
      show 1 ≤ 8 ∧ 8 ≤ 8
      omega
    | byte object index value =>
      show 1 ≤ 1 ∧ 1 ≤ 8
      omega
  have hcovers := fun b => omMarkAddressRangeDirty_covers h.om (a := w.address) (n := w.size)
    (b := b) (by unfold pageBytes at hstart; omega) (by omega) (by omega) (by omega)
  rw [hmark]
  -- at most eight bytes: the page is that of the first or that of the last of them
  have hends : p = h.om.pageOf w.address ∨ p = h.om.pageOf (w.address + w.size - 1) := by
    obtain ⟨hfirst, hlast⟩ := hp
    unfold Om.pageOf pageBytes at *
    omega
  rcases hends with rfl | rfl
  · exact hcovers _ (by omega) (by omega)
  · exact hcovers _ (by omega) (by omega)

/-- A marked store leaves the pages that stay clean as they were. -/
theorem BodyWrite.Inside.markedPage (hl : Layout h live) (hw : w.Inside h live) {p : Nat}
    (hclean : ((w.mark h.om).page p).dirty = false) :
    SamePage h ((Mutation.marked w).run h) live live p := by
  refine hw.samePage hl (w.mark_same h.om) ?_
  intro hin
  rw [hw.marks hl hin] at hclean
  cases hclean

theorem BodyWrite.mark_mono (om : Om) (w : BodyWrite) {p : Nat}
    (hdirty : (om.page p).dirty = true) : ((w.mark om).page p).dirty = true := by
  cases w with
  | word object index value =>
    show ((omMarkFieldDirty om object index).page p).dirty = true
    unfold omMarkFieldDirty
    split
    · exact hdirty
    · exact omMarkAddressRangeDirty_mono om _ _ hdirty
  | byte object index value =>
    show ((omMarkByteDirty om object index).page p).dirty = true
    unfold omMarkByteDirty
    split
    · exact hdirty
    · exact omMarkAddressRangeDirty_mono om _ _ hdirty

/-- Other stores stay inside. -/
theorem BodyWrite.Inside.keep (hl : Layout h live) (hw : w.Inside h live) {w' : BodyWrite}
    (hw' : w'.Inside h live) {om : Om} (hom : SameButDirty h.om om) :
    w'.Inside { om := om, mem := w.store h.mem } live := by
  cases w' with
  | word object index value =>
    obtain ⟨e, he, haddr, hin, hvalue⟩ := hw'
    refine ⟨e, he, haddr, hin, fun hptr => ?_⟩
    rw [hom.free, hom.stop]
    exact hvalue hptr
  | byte object index value =>
    obtain ⟨e, he, rfl, hin, hformat⟩ := hw'
    exact ⟨e, he, rfl, hin, (hw.format hl he).trans hformat⟩

end Write

/-! ## §3. A sequence of marked stores. -/

/-- What a mutation keeps of a heap: its layout, its settled references and its buffer. -/
structure Kept (h h' : Heap) (live' : Set Extent) : Prop where
  layout : Layout h' live'
  refs : RefsBelow h' live'
  buffer : SameBuffer h.om h'.om
  grows : h.om.free ≤ h'.om.free

/-- Marked stores inside objects, one after the other. -/
theorem markedStores_kept (ws : List BodyWrite) {h : Heap} {live : Set Extent}
    (hl : Layout h live) (hrefs : RefsBelow h live) (hws : ∀ w ∈ ws, w.Inside h live) :
    Kept h (ws.foldl (fun h w => (Mutation.marked w).run h) h) live ∧
    (∀ p, ((ws.foldl (fun h w => (Mutation.marked w).run h) h).om.page p).dirty = false →
      (h.om.page p).dirty = false ∧
      SamePage h (ws.foldl (fun h w => (Mutation.marked w).run h) h) live live p) := by
  induction ws generalizing h with
  | nil => exact ⟨⟨hl, hrefs, ⟨rfl, rfl, rfl, rfl⟩, Nat.le_refl _⟩,
      fun p hclean => ⟨hclean, SamePage.refl h live p⟩⟩
  | cons w ws ih =>
    have hw := hws w List.mem_cons_self
    have hom := w.mark_same h.om
    have hl' : Layout ((Mutation.marked w).run h) live := hw.layout hl hom
    have hrefs' : RefsBelow ((Mutation.marked w).run h) live := hw.refsBelow hl hrefs hom
    have hws' : ∀ w' ∈ ws, w'.Inside ((Mutation.marked w).run h) live := fun w' hw' =>
      hw.keep hl (hws w' (List.mem_cons_of_mem w hw')) hom
    obtain ⟨hkept, hpages⟩ := ih hl' hrefs' hws'
    rw [List.foldl_cons]
    refine ⟨⟨hkept.layout, hkept.refs, ?_, ?_⟩, ?_⟩
    · exact ⟨hkept.buffer.start.trans hom.start, hkept.buffer.limit.trans hom.limit,
        hkept.buffer.stop.trans hom.stop, hkept.buffer.pageCount.trans hom.pageCount⟩
    · have hfree : ((Mutation.marked w).run h).om.free = h.om.free := hom.free
      have hgrows := hkept.grows
      omega
    · intro p hclean
      obtain ⟨hclean', hsame⟩ := hpages p hclean
      have hmarked : ((w.mark h.om).page p).dirty = false := hclean'
      refine ⟨?_, (hw.markedPage hl hmarked).trans hsame⟩
      cases hbefore : (h.om.page p).dirty with
      | false => rfl
      | true =>
        rw [w.mark_mono h.om hbefore] at hmarked
        cases hmarked

/-! ## §4. Allocation and release. -/

section Tables

variable {h h' : Heap} {live : Set Extent}

/-- An allocation leaves the bytes of live objects alone. -/
theorem omAlloc_keeps (hl : Layout h live) {req : AllocRequest} {obj : Nat}
    (ha : omAlloc h req = some (obj, h')) {e : Extent} (he : e ∈ live) {b : Nat}
    (hlo : e.addr ≤ b) (hhi : b < e.addr + e.bytes) : h'.mem b = h.mem b := by
  obtain ⟨-, hunused, -, -⟩ := omAlloc_layout hl ha
  obtain ⟨-, hmem, -⟩ := omAlloc_cases ha
  rw [hmem]
  apply writeObject_of_out
  by_contra hin
  exact hunused b (by omega) (by omega) ⟨e, he, hlo, hhi⟩

theorem omAlloc_headers (hl : Layout h live) {req : AllocRequest} {obj : Nat}
    (ha : omAlloc h req = some (obj, h')) {e : Extent} (he : e ∈ live) :
    objFormat h'.mem e.addr = objFormat h.mem e.addr ∧
      objectSlotCount h'.mem e.addr = objectSlotCount h.mem e.addr := by
  have hsize := (hl.objects e he).nonempty
  have hformat : objFormat h'.mem e.addr = objFormat h.mem e.addr :=
    load64_congr (fun i hi => omAlloc_keeps hl ha he (by omega) (by omega))
  exact ⟨hformat, objectSlotCount_congr hformat
    (load64_congr (fun i hi => omAlloc_keeps hl ha he (by omega) (by omega)))⟩

/-- A new object refers to its class only. -/
theorem omAlloc_refsBelow (hl : Layout h live) (hrefs : RefsBelow h live) {req : AllocRequest}
    {obj : Nat} (ha : omAlloc h req = some (obj, h')) (hclass : Settled h.om req.classPtr) :
    RefsBelow h' (insert ⟨obj, req.totalBytes⟩ live) := by
  obtain ⟨hlayout, -, hbuffer, hgrows⟩ := omAlloc_layout hl ha
  obtain ⟨-, hmem, -⟩ := omAlloc_cases ha
  have hsettled : ∀ v, Settled h.om v → Settled h'.om v := by
    intro v hv hptr
    rw [hbuffer.stop]
    rcases hv hptr with hbelow | habove
    · exact .inl (by omega)
    · exact .inr habove
  intro e he a hslot
  rcases he with rfl | he
  · -- the class word, or a slot the allocation has cleared
    rcases hslot with haddr | ⟨k, hk, -, rfl⟩
    · rw [haddr]
      show Settled h'.om (objClass h'.mem obj)
      rw [hmem, objClass_writeObject]
      exact hsettled _ hclass
    · rw [hmem, objectSlotCount_writeObject] at hk
      have hzero : load64 h'.mem (obj + 24 + 8 * k) = 0 := by
        rw [hmem]
        unfold writeObject
        simp only [objFieldAddr, wordSize]
        exact load64_zeroFill_of_mem _ (by omega) (by omega)
      have hstart := hlayout.placed.aboveFirstPage
      have hfree := hlayout.placed.startFree
      unfold pageBytes at hstart
      rw [hzero]
      intro _
      exact .inl (by show 0 < h'.om.free; omega)
  · have hobj := hl.objects e he
    have hheader := hobj.header
    have hsize := hobj.nonempty
    obtain ⟨hformat, hcount⟩ := omAlloc_headers hl ha he
    have hword : e.addr ≤ a ∧ a + 8 ≤ e.addr + e.bytes := by
      rcases hslot with rfl | ⟨k, hk, -, rfl⟩
      · omega
      · rw [hcount] at hk
        omega
    rw [load64_congr (fun i hi => omAlloc_keeps hl ha he (b := a + i) (by omega) (by omega))]
    apply hsettled
    apply hrefs e he a
    rcases hslot with rfl | ⟨k, hk, hfields, rfl⟩
    · exact .inl rfl
    · exact .inr ⟨k, by rw [← hcount]; exact hk, by rw [← hformat]; exact hfields, rfl⟩

/-- The pages an allocation is not noted in keep their entries. -/
theorem omAlloc_page (hl : Layout h live) {req : AllocRequest} {obj : Nat}
    (ha : omAlloc h req = some (obj, h')) {p : Nat}
    (hout : ¬ (h.om.pageOf obj ≤ p ∧ p ≤ h.om.pageOf (obj + req.totalBytes - 1))) :
    h'.om.page p = h.om.page p := by
  obtain ⟨hlayout, -, hbuffer, -⟩ := omAlloc_layout hl ha
  obtain ⟨hfits, -, hcase⟩ := omAlloc_cases ha
  have hnew := hlayout.objects _ (Set.mem_insert _ _)
  have habove : h.om.start ≤ obj := by
    rw [← hbuffer.start]
    exact hnew.above
  have hsize : 24 ≤ req.totalBytes := hnew.nonempty
  have hlimit := hl.placed.limitStop
  have hnote : (noteObject h.om obj req.totalBytes).page p = h.om.page p := by
    unfold noteObject
    rw [hl.placed.pageId habove (by omega), hl.placed.pageId (by omega) (by omega)]
    exact if_neg hout
  rcases hcase with ⟨-, -, -, -, -, -, -, hom⟩ | ⟨-, hom⟩
  · rw [hom]
    exact hnote
  · rw [hom]
    exact hnote

/-- Neither page nor free pointer: the page is none of those an allocation changes. -/
theorem alloc_notBehind {req : AllocRequest} {obj : Nat} (ha : omAlloc h req = some (obj, h'))
    {p : Nat} (hp : p ∉ (Mutation.alloc req).behind h) :
    p ≠ h.om.pageOf h.om.free ∧
      ¬ (h.om.pageOf obj ≤ p ∧ p ≤ h.om.pageOf (obj + req.totalBytes - 1)) := by
  unfold Mutation.behind at hp
  simp only [ha] at hp
  exact not_or.mp hp

/-- An allocation leaves the pages it is not noted in as they were. -/
theorem omAlloc_samePage (hl : Layout h live) {req : AllocRequest} {obj : Nat}
    (ha : omAlloc h req = some (obj, h')) {p : Nat} (hp : p ∉ (Mutation.alloc req).behind h) :
    SamePage h h' live (insert ⟨obj, req.totalBytes⟩ live) p := by
  obtain ⟨hlayout, -, hbuffer, hgrows⟩ := omAlloc_layout hl ha
  obtain ⟨-, hmem, hcase⟩ := omAlloc_cases ha
  have hout := alloc_notBehind ha hp
  have hpage := omAlloc_page hl ha hout.2
  have hstartFree := hl.placed.startFree
  have hnew := hlayout.objects _ (Set.mem_insert _ _)
  have habove : h.om.start ≤ obj := by
    rw [← hbuffer.start]
    exact hnew.above
  have hkeep : ∀ a, a < obj ∨ obj + req.totalBytes ≤ a → h'.mem a = h.mem a := by
    intro a ha'
    rw [hmem]
    exact writeObject_of_out h.mem obj req ha'
  constructor
  · exact hbuffer
  · rw [hpage]
  · rw [hpage]
  · rw [hpage]
  · -- the free pointer has not moved across this page
    have hbump : h'.om.free = h.om.free ∨ (h'.om.free = obj + req.totalBytes ∧
        (obj = h.om.free ∨ obj = h.om.pageStart (h.om.pageOf h.om.free + 1))) := by
      rcases hcase with ⟨p₀, hp₀, -, -, -, -, -, hom⟩ | ⟨hobj, hom⟩
      · refine .inl ?_
        rw [hom]
        unfold noteObject
        split <;> rfl
      · refine .inr ⟨by rw [hom], ?_⟩
        rw [hobj]
        rcases bumpObject_cases h.om req.totalBytes with heq | ⟨-, -, -, heq⟩
        · exact .inl heq
        · exact .inr heq
    clear hcase
    unfold liveBytes
    rw [hbuffer.start]
    rcases hbump with hsame | ⟨hfree, hobj⟩
    · rw [hsame]
    · rw [hfree]
      unfold checkpointPageLiveBytes Om.pageStart Om.pageOf pageBytes at *
      rcases hobj with hobj | hobj <;> split <;> split <;> omega
  · intro a hlo hhi
    apply hkeep
    by_contra hin
    have hle := checkpointPageLiveBytes_le (h.om.free - h.om.start) p
    have hpa : h.om.pageOf a = p := by
      unfold liveBytes Om.pageStart Om.pageOf pageBytes at *
      omega
    apply hout.2
    rw [← hpa]
    unfold Om.pageOf
    exact ⟨Nat.div_le_div_right (by omega), Nat.div_le_div_right (by omega)⟩
  · intro e ht
    refine ⟨Set.mem_insert_of_mem _, fun he => ?_⟩
    rcases he with rfl | he
    · obtain ⟨hstart, hend⟩ := ht
      simp only at hstart hend
      exact absurd ⟨by unfold Om.pageStart Om.pageOf pageBytes at *; omega,
        by unfold Om.pageStart Om.pageOf pageBytes at *; omega⟩ hout.2
    · exact he
  · exact fun e he _ => omAlloc_headers hl ha he

/-- A release leaves the other pages as they were. -/
theorem omReleasePage_samePage (hl : Layout h live) {p : Nat} (hp : p < h.om.pageCount)
    (hrel : Releasable h.om p) {q : Nat} (hq : q ≠ p) :
    SamePage h { h with om := omReleasePage h.om p } live {e ∈ live | h.om.pageOf e.addr ≠ p} q := by
  have hpage : (omReleasePage h.om p).page q = h.om.page q := by
    rw [omReleasePage, if_pos hp, Om.setPage]
    exact Function.update_of_ne hq _ _
  have hbuffer : SameBuffer h.om (omReleasePage h.om p) := by
    rw [omReleasePage, if_pos hp]
    exact ⟨rfl, rfl, rfl, rfl⟩
  have hfree : (omReleasePage h.om p).free = h.om.free := by
    rw [omReleasePage, if_pos hp]
    rfl
  constructor
  · exact hbuffer
  · exact congrArg Page.state hpage
  · exact congrArg Page.used hpage
  · exact congrArg Page.covering hpage
  · unfold liveBytes
    rw [hbuffer.start, hfree]
  · exact fun a _ _ => rfl
  · intro e ht
    refine ⟨fun he => ⟨he, fun hin => ?_⟩, fun he => he.1⟩
    -- an object that starts in the released page ends there
    have habove := (hl.objects e he).above
    have hsize := (hl.objects e he).nonempty
    have hends := releasable_ends hl hp hrel he
    have hwithin := pageStart_pageOf_le h.om habove
    have hbefore := lt_pageStart_pageOf_succ h.om habove
    rw [hin] at hwithin hbefore
    obtain ⟨hlo, hhi⟩ := ht
    unfold Om.pageStart pageBytes at *
    omega
  · exact fun e _ _ => ⟨rfl, rfl⟩

end Tables

/-! ## §5. Any mutation. -/

section Any

variable {h : Heap} {live : Set Extent} {mu : Mutation}

/-- **A mutation keeps the layout**, and with it settled references. -/
theorem Mutation.Legal.kept (hl : Layout h live) (hrefs : RefsBelow h live)
    (hmu : mu.Legal h live) : Kept h (mu.run h) (mu.lives h live) := by
  cases mu with
  | alloc req =>
    rcases ha : omAlloc h req with _ | ⟨obj, h'⟩
    · simp only [Mutation.run, Mutation.lives, ha]
      exact ⟨hl, hrefs, ⟨rfl, rfl, rfl, rfl⟩, Nat.le_refl _⟩
    · simp only [Mutation.run, Mutation.lives, ha]
      obtain ⟨hlayout, -, hbuffer, hgrows⟩ := omAlloc_layout hl ha
      exact ⟨hlayout, omAlloc_refsBelow hl hrefs ha hmu, hbuffer, hgrows⟩
  | release pageId =>
    unfold Mutation.run Mutation.lives
    by_cases hp : pageId < h.om.pageCount
    · simp only [if_pos hp]
      refine ⟨omReleasePage_layout hl hp (hmu hp), ?_, ?_, ?_⟩
      · intro e he a hslot
        have hold := hrefs e he.1 a hslot
        intro hptr
        unfold omReleasePage
        rw [if_pos hp]
        exact hold hptr
      · unfold omReleasePage
        rw [if_pos hp]
        exact ⟨rfl, rfl, rfl, rfl⟩
      · unfold omReleasePage
        rw [if_pos hp]
        exact Nat.le_refl _
    · simp only [if_neg hp]
      unfold omReleasePage
      rw [if_neg hp]
      exact ⟨hl, hrefs, ⟨rfl, rfl, rfl, rfl⟩, Nat.le_refl _⟩
  | marked w => exact (markedStores_kept [w] hl hrefs (fun w' hw' => by
      rw [List.mem_singleton.mp hw']
      exact hmu)).1
  | commit log =>
    rw [commit_run h log (fun e he => (hmu e he).1)]
    refine (markedStores_kept _ hl hrefs ?_).1
    intro w hw
    obtain ⟨e, he, rfl⟩ := List.mem_map.mp hw
    exact (hmu e he).2
  | unmarked w =>
    have hsame := SameButDirty.refl h.om
    exact ⟨BodyWrite.Inside.layout hl hmu hsame, BodyWrite.Inside.refsBelow hl hrefs hmu hsame,
      ⟨rfl, rfl, rfl, rfl⟩, Nat.le_refl _⟩

/-- **A page a mutation leaves clean and does not change behind the dirty bits
was clean before and stays as it was.** -/
theorem Mutation.Legal.samePage (hl : Layout h live) (hrefs : RefsBelow h live)
    (hmu : mu.Legal h live) {p : Nat} (hclean : ((mu.run h).om.page p).dirty = false)
    (hbehind : p ∉ mu.behind h) :
    (h.om.page p).dirty = false ∧ SamePage h (mu.run h) live (mu.lives h live) p := by
  cases mu with
  | alloc req =>
    rcases ha : omAlloc h req with _ | ⟨obj, h'⟩
    · simp only [Mutation.run, Mutation.lives, ha] at hclean ⊢
      exact ⟨hclean, SamePage.refl h live p⟩
    · have hpage := omAlloc_page hl ha (alloc_notBehind ha hbehind).2
      have hsame := omAlloc_samePage hl ha hbehind
      simp only [Mutation.run, Mutation.lives, ha] at hclean ⊢
      rw [hpage] at hclean
      exact ⟨hclean, hsame⟩
  | release pageId =>
    have hne : p ≠ pageId := hbehind
    simp only [Mutation.run, Mutation.lives] at hclean ⊢
    by_cases hp : pageId < h.om.pageCount
    · rw [if_pos hp]
      refine ⟨?_, omReleasePage_samePage hl hp (hmu hp) hne⟩
      rw [omReleasePage, if_pos hp, Om.setPage] at hclean
      simpa only [Function.update_of_ne hne] using hclean
    · rw [if_neg hp]
      rw [omReleasePage, if_neg hp] at hclean ⊢
      exact ⟨hclean, SamePage.refl h live p⟩
  | marked w =>
    have hws : ∀ w' ∈ [w], w'.Inside h live := by
      intro w' hw'
      rw [List.mem_singleton.mp hw']
      exact hmu
    exact (markedStores_kept [w] hl hrefs hws).2 p hclean
  | commit log =>
    have hws : ∀ w ∈ log.entries.map entryWrite, w.Inside h live := by
      intro w hw
      obtain ⟨e, he, rfl⟩ := List.mem_map.mp hw
      exact (hmu e he).2
    rw [commit_run h log (fun e he => (hmu e he).1)] at hclean ⊢
    exact (markedStores_kept _ hl hrefs hws).2 p hclean
  | unmarked w =>
    exact ⟨hclean, BodyWrite.Inside.samePage hl hmu (SameButDirty.refl h.om) hbehind⟩

end Any

end LivingObjects.Checkpoint
