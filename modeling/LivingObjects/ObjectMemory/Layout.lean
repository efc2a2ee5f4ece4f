/-
  LivingObjects.ObjectMemory.Layout — what the page tables say about the objects.

  `Layout h live` ties the page tables of a heap to the set of extents of its
  live objects: the extents are disjoint and carry their headers, the used
  counts cover exactly their bytes, and the first and covering entries point at
  them.  It holds after `om_init` and is kept by `om_alloc`, by the release of a
  page that shares no object with its neighbours, and by every store that leaves
  the headers alone.  The walks of the checkpoint writer and of the restart
  terminate because of it (`omNextObject_live`).
-/
import Mathlib
import LivingObjects.ObjectMemory.Alloc

namespace LivingObjects.ObjectMemory

open LivingObjects.Lib
open LivingObjects.VM

/-! ## §1. Extents and the layout invariant. -/

/-- The bytes an object occupies. -/
structure Extent where
  addr : Nat
  bytes : Nat

/-- The address lies in the extent. -/
def Extent.Holds (e : Extent) (a : Nat) : Prop := e.addr ≤ a ∧ a < e.addr + e.bytes

/-- Where a page begins. -/
def Om.pageStart (om : Om) (pageId : Nat) : Nat := om.start + pageId * pageBytes

/-- The page of an address. -/
def Om.pageOf (om : Om) (a : Nat) : Nat := (a - om.start) / pageBytes

/-- A page no object has been entered in. -/
def Page.Blank (p : Page) : Prop := p.used = 0 ∧ p.first = 0 ∧ p.covering = 0

/-- A registered object memory in user address space. -/
structure Placed (om : Om) : Prop where
  aboveFirstPage : pageBytes ≤ om.start
  startAligned : om.start % 8 = 0
  freeAligned : om.free % 8 = 0
  startFree : om.start ≤ om.free
  freeLimit : om.free ≤ om.limit
  limitStop : om.limit = om.stop
  stopBound : om.stop ≤ 2 ^ 63
  pages : om.pageCount = (om.stop - om.start + pageBytes - 1) / pageBytes

/-- A live object: its header gives its extent, which lies below the free pointer. -/
structure LiveAt (h : Heap) (e : Extent) : Prop where
  header : 8 * (3 + objectSlotCount h.mem e.addr) = e.bytes
  nonempty : 24 ≤ e.bytes
  above : h.om.start ≤ e.addr
  below : e.addr + e.bytes ≤ h.om.free
  aligned : e.addr % 8 = 0
  wordSized : e.bytes % 8 = 0

/-- Objects lie in memory and do not meet. -/
structure Separate (live : Set Extent) : Prop where
  disjoint : ∀ e ∈ live, ∀ e' ∈ live, ∀ a, e.Holds a → e'.Holds a → e = e'
  inMemory : ∀ e ∈ live, e.addr + e.bytes ≤ 2 ^ 64

/-- The page tables describe exactly the live objects. -/
structure Layout (h : Heap) (live : Set Extent) : Prop where
  placed : Placed h.om
  objects : ∀ e ∈ live, LiveAt h e
  disjoint : ∀ e ∈ live, ∀ e' ∈ live, ∀ a, e.Holds a → e'.Holds a → e = e'
  covered : ∀ a, h.om.start ≤ a →
    ((∃ e ∈ live, e.Holds a) ↔ (a - h.om.start) % pageBytes < (h.om.page (h.om.pageOf a)).used)
  first : ∀ p, (h.om.page p).first ≠ 0 →
    ∃ e ∈ live, e.addr = (h.om.page p).first ∧ h.om.pageOf e.addr = p
  covering : ∀ p, (h.om.page p).covering ≠ 0 →
    ∃ e ∈ live, e.addr = (h.om.page p).covering ∧ h.om.pageOf e.addr ≤ p ∧
      h.om.pageStart p < e.addr + e.bytes
  straddle : ∀ e ∈ live, ∀ p, e.addr < h.om.pageStart p → h.om.pageStart p < e.addr + e.bytes →
    (h.om.page p).covering = e.addr
  free : ∀ p, (h.om.page p).state = .free → (h.om.page p).Blank
  usedBound : ∀ p, (h.om.page p).used ≤ pageBytes
  bump : (h.om.page (h.om.pageOf h.om.free)).used = (h.om.free - h.om.start) % pageBytes
  blank : ∀ p, h.om.free ≤ h.om.pageStart p → (h.om.page p).Blank
  closed : ∀ p, (h.om.page p).reusable = true → (h.om.page p).state = .free →
    h.om.pageStart p < h.om.free → h.om.pageStart (p + 1) ≤ h.om.free

theorem Layout.separate {h : Heap} {live : Set Extent} (hl : Layout h live) : Separate live where
  disjoint := hl.disjoint
  inMemory e he := by
    have hbelow := (hl.objects e he).below
    have hfree := hl.placed.freeLimit
    have hlimit := hl.placed.limitStop
    have hstop := hl.placed.stopBound
    omega

/-! ## §2. Page arithmetic. -/

theorem Placed.pageId {om : Om} (hp : Placed om) {a : Nat} (hlo : om.start ≤ a)
    (hhi : a < om.stop) : omPageIdForAddress om a = some (om.pageOf a) := by
  have hstart := hp.aboveFirstPage
  unfold pageBytes at hstart
  unfold omPageIdForAddress Om.pageOf
  rw [if_neg (by omega)]

theorem Placed.pageStart {om : Om} (hp : Placed om) {p : Nat} (h : p < om.pageCount) :
    omPageStart om p = om.pageStart p := by
  have hstart := hp.aboveFirstPage
  unfold pageBytes at hstart
  unfold omPageStart Om.pageStart
  rw [if_neg (by omega)]

theorem Placed.pageOf_lt {om : Om} (hp : Placed om) {a : Nat} (hlo : om.start ≤ a)
    (hhi : a < om.stop) : om.pageOf a < om.pageCount := by
  have hpages := hp.pages
  unfold Om.pageOf
  unfold pageBytes at hpages ⊢
  omega

/-- The page table loop for an object inside the heap. -/
theorem Placed.noteObject {om : Om} (hp : Placed om) {obj total : Nat} (hlo : om.start ≤ obj)
    (hpos : 0 < total) (hhi : obj + total ≤ om.stop) :
    noteObject om obj total
      = { om with
          page := fun p =>
            if om.pageOf obj ≤ p ∧ p ≤ om.pageOf (obj + total - 1) then
              notedPage om obj total (om.pageOf obj) p
            else om.page p } := by
  unfold ObjectMemory.noteObject
  rw [hp.pageId hlo (by omega), hp.pageId (by omega) (by omega)]

theorem pageStart_pageOf_le (om : Om) {a : Nat} (h : om.start ≤ a) :
    om.pageStart (om.pageOf a) ≤ a := by
  unfold Om.pageStart Om.pageOf pageBytes
  omega

theorem lt_pageStart_pageOf_succ (om : Om) {a : Nat} (h : om.start ≤ a) :
    a < om.pageStart (om.pageOf a + 1) := by
  unfold Om.pageStart Om.pageOf pageBytes
  omega

theorem sub_pageStart (om : Om) {a : Nat} (h : om.start ≤ a) :
    a - om.pageStart (om.pageOf a) = (a - om.start) % pageBytes := by
  unfold Om.pageStart Om.pageOf pageBytes
  omega

/-! ## §3. The walk visits live objects. -/

theorem Layout.objectBytes {h : Heap} {live : Set Extent} (hl : Layout h live) {e : Extent}
    (he : e ∈ live) : omObjectBytes h.mem e.addr = e.bytes := by
  have hobj := hl.objects e he
  have hbound := hl.placed.stopBound
  have hfree := hl.placed.freeLimit
  have hlimit := hl.placed.limitStop
  have hbelow := hobj.below
  have hheader := hobj.header
  unfold omObjectBytes omObjectWords wrap64 objHeaderWords wordSize
  omega

/-- An object that starts above another one starts behind its end. -/
theorem Layout.le_of_addr_lt {h : Heap} {live : Set Extent} (hl : Layout h live) {e e' : Extent}
    (he : e ∈ live) (he' : e' ∈ live) (hlt : e.addr < e'.addr) : e.addr + e.bytes ≤ e'.addr := by
  have hsize' := (hl.objects e' he').nonempty
  by_contra hin
  have hsame := hl.disjoint e he e' he' e'.addr ⟨by omega, by omega⟩ ⟨Nat.le_refl _, by omega⟩
  subst hsame
  omega

/-- Live objects are told apart by their addresses. -/
theorem Layout.eq_of_addr {h : Heap} {live : Set Extent} (hl : Layout h live) {e e' : Extent}
    (he : e ∈ live) (he' : e' ∈ live) (haddr : e.addr = e'.addr) : e = e' := by
  have hsize := (hl.objects e he).nonempty
  have hsize' := (hl.objects e' he').nonempty
  exact hl.disjoint e he e' he' e.addr ⟨Nat.le_refl _, by omega⟩ ⟨by omega, by omega⟩

/-- The step of the walk from a live object that is not the last. -/
theorem omNextObject_eq {h : Heap} {live : Set Extent} (hl : Layout h live) {e : Extent}
    (he : e ∈ live) (hend : e.addr + e.bytes < h.om.free) :
    omNextObject h.om h.mem e.addr
      = if (e.addr + e.bytes - h.om.start) % pageBytes
          < (h.om.page (h.om.pageOf (e.addr + e.bytes))).used then e.addr + e.bytes
        else firstObjectAfter h.om (h.om.pageOf (e.addr + e.bytes)) := by
  have hobj := hl.objects e he
  have hp := hl.placed
  have habove := hobj.above
  have hstart := hp.aboveFirstPage
  have hbound := hp.stopBound
  have hlimit := hp.limitStop
  have hfree := hp.freeLimit
  have hnext : wrap64 (e.addr + omObjectBytes h.mem e.addr) = e.addr + e.bytes := by
    rw [hl.objectBytes he]
    exact wrap64_of_lt (by omega)
  have hlo : h.om.start ≤ e.addr + e.bytes := by omega
  have hhi : e.addr + e.bytes < h.om.stop := by omega
  have hpage := hp.pageOf_lt hlo hhi
  unfold pageBytes at hstart
  unfold omNextObject
  rw [if_neg (by omega), hnext]
  simp only
  rw [if_neg (by omega), hp.pageId hlo hhi]
  simp only
  rw [hp.pageStart hpage, sub_pageStart h.om hlo, omPageUsedBytes, if_pos hpage]

/-- From the last live object the walk ends. -/
theorem omNextObject_last {h : Heap} {live : Set Extent} (hl : Layout h live) {e : Extent}
    (he : e ∈ live) (hend : h.om.free ≤ e.addr + e.bytes) :
    omNextObject h.om h.mem e.addr = 0 := by
  have hbelow := (hl.objects e he).below
  have hbound := hl.placed.stopBound
  have hlimit := hl.placed.limitStop
  have hfree := hl.placed.freeLimit
  have hnext : wrap64 (e.addr + omObjectBytes h.mem e.addr) = e.addr + e.bytes := by
    rw [hl.objectBytes he]
    exact wrap64_of_lt (by omega)
  unfold omNextObject
  split
  · rfl
  · rw [hnext]
    simp only
    rw [if_pos hend]

/-- The first object recorded after a page is none or a live one on a later page. -/
theorem firstObjectAfter_live {h : Heap} {live : Set Extent} (hl : Layout h live) (p : Nat) :
    firstObjectAfter h.om p = 0 ∨
    ∃ e ∈ live, firstObjectAfter h.om p = e.addr ∧ h.om.pageStart (p + 1) ≤ e.addr := by
  unfold firstObjectAfter
  split
  · next q hq =>
    have hfound := List.find?_some hq
    simp only [Bool.and_eq_true, decide_eq_true_eq, bne_iff_ne] at hfound
    obtain ⟨hlater, hfirst⟩ := hfound
    obtain ⟨e, he, haddr, hpage⟩ := hl.first q hfirst
    refine .inr ⟨e, he, haddr.symm, ?_⟩
    have habove := (hl.objects e he).above
    unfold Om.pageStart Om.pageOf pageBytes at *
    omega
  · exact .inl rfl

/-- A used byte right after a live object starts the next one. -/
theorem live_at_end {h : Heap} {live : Set Extent} (hl : Layout h live) {e : Extent}
    (he : e ∈ live)
    (hused : (e.addr + e.bytes - h.om.start) % pageBytes
      < (h.om.page (h.om.pageOf (e.addr + e.bytes))).used) :
    ∃ e' ∈ live, e'.addr = e.addr + e.bytes := by
  have habove := (hl.objects e he).above
  have hsize := (hl.objects e he).nonempty
  obtain ⟨e', he', hlo', hhi'⟩ := (hl.covered (e.addr + e.bytes) (by omega)).mpr hused
  refine ⟨e', he', ?_⟩
  by_contra hne
  have hsame := hl.disjoint e he e' he' (e.addr + e.bytes - 1) ⟨by omega, by omega⟩
    ⟨by omega, by omega⟩
  subst hsame
  omega

/-- **One step of the walk** from a live object ends or leads to a live object
further up. -/
theorem omNextObject_live {h : Heap} {live : Set Extent} (hl : Layout h live) {e : Extent}
    (he : e ∈ live) :
    omNextObject h.om h.mem e.addr = 0 ∨
    ∃ e' ∈ live, omNextObject h.om h.mem e.addr = e'.addr ∧ e.addr + e.bytes ≤ e'.addr := by
  have habove := (hl.objects e he).above
  by_cases hend : h.om.free ≤ e.addr + e.bytes
  · exact .inl (omNextObject_last hl he hend)
  rw [omNextObject_eq hl he (by omega)]
  split
  · next hused =>
    obtain ⟨e', he', haddr⟩ := live_at_end hl he hused
    exact .inr ⟨e', he', haddr.symm, by omega⟩
  · rcases firstObjectAfter_live hl (h.om.pageOf (e.addr + e.bytes)) with hzero | ⟨e', he', haddr, hup⟩
    · exact .inl hzero
    · have hlt := lt_pageStart_pageOf_succ h.om (a := e.addr + e.bytes) (by omega)
      exact .inr ⟨e', he', haddr, by omega⟩

/-! ## §4. Stores. -/

/-- A heap with the same tables and the same extents has the same layout. -/
theorem Layout.congr {h h' : Heap} {live : Set Extent} (hl : Layout h live)
    (hom : SameButDirty h.om h'.om)
    (hheader : ∀ e ∈ live, objectSlotCount h'.mem e.addr = objectSlotCount h.mem e.addr) :
    Layout h' live := by
  have hps : ∀ p, h'.om.pageStart p = h.om.pageStart p := by
    intro p
    unfold Om.pageStart
    rw [hom.start]
  have hpo : ∀ a, h'.om.pageOf a = h.om.pageOf a := by
    intro a
    unfold Om.pageOf
    rw [hom.start]
  have hblank : ∀ p, (h.om.page p).Blank → (h'.om.page p).Blank := by
    rintro p ⟨hu, hf, hc⟩
    exact ⟨(hom.used p).trans hu, (hom.first p).trans hf, (hom.covering p).trans hc⟩
  constructor
  · have hp := hl.placed
    constructor
    · rw [hom.start]; exact hp.aboveFirstPage
    · rw [hom.start]; exact hp.startAligned
    · rw [hom.free]; exact hp.freeAligned
    · rw [hom.start, hom.free]; exact hp.startFree
    · rw [hom.free, hom.limit]; exact hp.freeLimit
    · rw [hom.limit, hom.stop]; exact hp.limitStop
    · rw [hom.stop]; exact hp.stopBound
    · rw [hom.pageCount, hom.start, hom.stop]; exact hp.pages
  · intro e he
    obtain ⟨hheader', hne, habove, hbelow, halign, hword⟩ := hl.objects e he
    exact ⟨by rw [hheader e he]; exact hheader', hne, by rw [hom.start]; exact habove,
      by rw [hom.free]; exact hbelow, halign, hword⟩
  · exact hl.disjoint
  · intro a ha
    rw [hom.start] at ha
    rw [hpo, hom.start, hom.used]
    exact hl.covered a ha
  · intro p hp
    rw [hom.first] at hp ⊢
    obtain ⟨e, he, haddr, hpage⟩ := hl.first p hp
    exact ⟨e, he, haddr, by rw [hpo]; exact hpage⟩
  · intro p hp
    rw [hom.covering] at hp ⊢
    obtain ⟨e, he, haddr, hpage, hend⟩ := hl.covering p hp
    exact ⟨e, he, haddr, by rw [hpo]; exact hpage, by rw [hps]; exact hend⟩
  · intro e he p
    rw [hps, hom.covering]
    exact hl.straddle e he p
  · intro p hp
    rw [hom.state] at hp
    exact hblank p (hl.free p hp)
  · intro p
    rw [hom.used]
    exact hl.usedBound p
  · rw [hpo, hom.free, hom.used, hom.start]
    exact hl.bump
  · intro p hp
    rw [hps, hom.free] at hp
    exact hblank p (hl.blank p hp)
  · intro p
    rw [hps, hps, hom.reusable, hom.state, hom.free]
    exact hl.closed p

/-! ## §5. Initialisation. -/

/-- A buffer an object memory can be registered on. -/
structure Buffer where
  addr : Nat
  size : Nat
  aboveFirstPage : pageBytes ≤ addr
  aligned : addr % 8 = 0
  inUserSpace : addr + size ≤ 2 ^ 63

/-- A fresh object memory has no objects. -/
theorem omInit_layout (buffer : Buffer) (m : Mem) :
    Layout { om := omInit buffer.addr buffer.size, mem := m } ∅ := by
  have hbound := buffer.inUserSpace
  constructor
  · constructor
    · exact buffer.aboveFirstPage
    · exact buffer.aligned
    · exact buffer.aligned
    · exact Nat.le_refl _
    · exact Nat.le_add_right _ _
    · rfl
    · exact hbound
    · show (buffer.size + pageBytes - 1) / pageBytes
        = (buffer.addr + buffer.size - buffer.addr + pageBytes - 1) / pageBytes
      rw [Nat.add_sub_cancel_left]
  · exact fun e he => absurd he (Set.notMem_empty e)
  · exact fun e he => absurd he (Set.notMem_empty e)
  · intro a ha
    simp [omInit, Page.fresh]
  · exact fun p hp => absurd rfl hp
  · exact fun p hp => absurd rfl hp
  · exact fun e he => absurd he (Set.notMem_empty e)
  · exact fun p _ => ⟨rfl, rfl, rfl⟩
  · exact fun p => Nat.zero_le _
  · simp [omInit, Page.fresh]
  · exact fun p _ => ⟨rfl, rfl, rfl⟩
  · exact fun p hp => absurd hp (by simp [omInit, Page.fresh])

/-! ## §6. Release. -/

/-- A page that can be released without breaking its neighbours: it lies above
the free pointer, or it is closed and no object crosses either of its ends. -/
def Releasable (om : Om) (pageId : Nat) : Prop :=
  om.free ≤ om.pageStart pageId ∨
  (om.pageStart (pageId + 1) ≤ om.free ∧ omPageStartsWithContinuation om pageId = false ∧
    omPageStartsWithContinuation om (pageId + 1) = false)

/-- A page that does not start with a continuation has no object across its start. -/
theorem no_straddle {h : Heap} {live : Set Extent} (hl : Layout h live) {p : Nat}
    (hp : p < h.om.pageCount) (hcont : omPageStartsWithContinuation h.om p = false)
    {e : Extent} (he : e ∈ live) (hlo : e.addr < h.om.pageStart p) :
    e.addr + e.bytes ≤ h.om.pageStart p := by
  by_contra hacross
  have hcover := hl.straddle e he p hlo (by omega)
  have hstart := hl.placed.aboveFirstPage
  have habove := (hl.objects e he).above
  have hps := hl.placed.pageStart hp
  unfold pageBytes at hstart
  unfold omPageStartsWithContinuation omPageCoveringObject at hcont
  rw [if_pos hp, hcover, hps, if_neg (by omega)] at hcont
  simp only [decide_eq_false_iff_not] at hcont
  omega

/-- No object crosses the end of a releasable page. -/
theorem releasable_ends {h : Heap} {live : Set Extent} (hl : Layout h live) {p : Nat}
    (hp : p < h.om.pageCount) (hrel : Releasable h.om p) {e : Extent} (he : e ∈ live) :
    e.addr + e.bytes ≤ h.om.pageStart p ∨
    (h.om.pageStart p ≤ e.addr ∧ e.addr + e.bytes ≤ h.om.pageStart (p + 1)) ∨
    h.om.pageStart (p + 1) ≤ e.addr := by
  have hbelow := (hl.objects e he).below
  rcases hrel with hfree | ⟨hclosed, hcont, hcont'⟩
  · exact .inl (by omega)
  have hlast : e.addr < h.om.pageStart (p + 1) →
      e.addr + e.bytes ≤ h.om.pageStart (p + 1) := by
    intro hlo
    by_cases hp' : p + 1 < h.om.pageCount
    · exact no_straddle hl hp' hcont' he hlo
    · -- the last page: no object reaches beyond the buffer
      have hpages := hl.placed.pages
      have hfreeLimit := hl.placed.freeLimit
      have hlimit := hl.placed.limitStop
      have hstartFree := hl.placed.startFree
      unfold Om.pageStart pageBytes at *
      omega
  rcases Nat.lt_or_ge e.addr (h.om.pageStart p) with hlo | hlo
  · exact .inl (no_straddle hl hp hcont he hlo)
  · rcases Nat.lt_or_ge e.addr (h.om.pageStart (p + 1)) with hhi | hhi
    · exact .inr (.inl ⟨hlo, hlast hhi⟩)
    · exact .inr (.inr hhi)

/-- `om_release_page` on one page after the other. -/
def omReleasePages (om : Om) (pages : List Nat) : Om := pages.foldl omReleasePage om

/-- The tables after some pages are released. -/
structure Released (om : Om) (pages : List Nat) (om' : Om) : Prop where
  start : om'.start = om.start
  free : om'.free = om.free
  limit : om'.limit = om.limit
  stop : om'.stop = om.stop
  pageCount : om'.pageCount = om.pageCount
  inside : ∀ p ∈ pages, p < om.pageCount → om'.page p = { Page.fresh with reusable := true }
  outside : ∀ p, p ∉ pages → om'.page p = om.page p

theorem omReleasePage_released (om : Om) (p : Nat) : Released om [p] (omReleasePage om p) := by
  unfold omReleasePage
  split
  · refine ⟨rfl, rfl, rfl, rfl, rfl, ?_, ?_⟩
    · intro q hq _
      rw [List.mem_singleton] at hq
      rw [hq]
      exact Function.update_self _ _ _
    · intro q hq
      rw [List.mem_singleton] at hq
      exact Function.update_of_ne hq _ _
  · next hp =>
    refine ⟨rfl, rfl, rfl, rfl, rfl, ?_, fun q _ => rfl⟩
    intro q hq hlt
    rw [List.mem_singleton] at hq
    omega

theorem omReleasePages_released (pages : List Nat) (om : Om) :
    Released om pages (omReleasePages om pages) := by
  induction pages generalizing om with
  | nil => exact ⟨rfl, rfl, rfl, rfl, rfl, fun p hp => (nomatch hp), fun p _ => rfl⟩
  | cons q pages ih =>
    have hfirst := omReleasePage_released om q
    have hrest := ih (omReleasePage om q)
    refine ⟨hrest.start.trans hfirst.start, hrest.free.trans hfirst.free,
      hrest.limit.trans hfirst.limit, hrest.stop.trans hfirst.stop,
      hrest.pageCount.trans hfirst.pageCount, ?_, ?_⟩
    · intro p hp hlt
      by_cases hmem : p ∈ pages
      · exact hrest.inside p hmem (by rw [hfirst.pageCount]; exact hlt)
      · have hpq : p = q := (List.mem_cons.mp hp).resolve_right hmem
        exact (hrest.outside p hmem).trans (hfirst.inside p (List.mem_singleton.mpr hpq) hlt)
    · intro p hp
      rw [List.mem_cons, not_or] at hp
      exact (hrest.outside p hp.2).trans
        (hfirst.outside p (fun hpq => hp.1 (List.mem_singleton.mp hpq)))

/-- Pages that can be released together: none of them is the one the bump pointer
stands in, and an object on one of them has all its pages among them. -/
structure Separable (h : Heap) (live : Set Extent) (pages : List Nat) : Prop where
  closed : ∀ p ∈ pages, h.om.free ≤ h.om.pageStart p ∨ h.om.pageStart (p + 1) ≤ h.om.free
  whole : ∀ e ∈ live, ∀ a b, e.Holds a → e.Holds b → h.om.pageOf a ∈ pages → h.om.pageOf b ∈ pages

/-- A page an object reaches holds one of its addresses. -/
theorem exists_on_page {om : Om} {e : Extent} (hsize : 0 < e.bytes) (habove : om.start ≤ e.addr)
    {q : Nat} (hlo : om.pageOf e.addr ≤ q) (hhi : om.pageStart q < e.addr + e.bytes) :
    ∃ b, e.Holds b ∧ om.pageOf b = q := by
  by_cases hstart : e.addr < om.pageStart q
  · refine ⟨om.pageStart q, ⟨by omega, hhi⟩, ?_⟩
    unfold Om.pageOf Om.pageStart pageBytes
    omega
  · refine ⟨e.addr, ⟨Nat.le_refl _, by omega⟩, ?_⟩
    unfold Om.pageOf Om.pageStart pageBytes at *
    omega

/-- **Releasing pages that share no object with the others** removes the objects on
them and keeps the layout. -/
theorem omReleasePages_layout {h : Heap} {live : Set Extent} (hl : Layout h live)
    {pages : List Nat} (hin : ∀ p ∈ pages, p < h.om.pageCount) (hsep : Separable h live pages)
    {om : Om} (hom : Released h.om pages om) :
    Layout { h with om := om } {e ∈ live | h.om.pageOf e.addr ∉ pages} := by
  have hself : ∀ p ∈ pages, om.page p = { Page.fresh with reusable := true } :=
    fun p hp => hom.inside p hp (hin p hp)
  have hother := hom.outside
  have hps : ∀ q, om.pageStart q = h.om.pageStart q := by
    intro q
    unfold Om.pageStart
    rw [hom.start]
  have hpo : ∀ a, om.pageOf a = h.om.pageOf a := by
    intro a
    unfold Om.pageOf
    rw [hom.start]
  constructor
  · have hpl := hl.placed
    exact ⟨by rw [hom.start]; exact hpl.aboveFirstPage, by rw [hom.start]; exact hpl.startAligned,
      by rw [hom.free]; exact hpl.freeAligned, by rw [hom.start, hom.free]; exact hpl.startFree,
      by rw [hom.free, hom.limit]; exact hpl.freeLimit,
      by rw [hom.limit, hom.stop]; exact hpl.limitStop, by rw [hom.stop]; exact hpl.stopBound,
      by rw [hom.pageCount, hom.start, hom.stop]; exact hpl.pages⟩
  · rintro e ⟨he, -⟩
    obtain ⟨hheader, hne, habove, hbelow, halign, hword⟩ := hl.objects e he
    exact ⟨hheader, hne, by rw [hom.start]; exact habove, by rw [hom.free]; exact hbelow, halign,
      hword⟩
  · rintro e ⟨he, -⟩ e' ⟨he', -⟩
    exact hl.disjoint e he e' he'
  · intro a ha
    rw [hom.start] at ha
    rw [hpo, hom.start]
    by_cases hpage : h.om.pageOf a ∈ pages
    · -- a released page has no used byte and no object left
      rw [hself _ hpage]
      simp only [Page.fresh, Nat.not_lt_zero, iff_false]
      rintro ⟨e, ⟨he, hne⟩, hh⟩
      have hsize := (hl.objects e he).nonempty
      exact hne (hsep.whole e he a e.addr hh ⟨Nat.le_refl _, by omega⟩ hpage)
    · rw [hother _ hpage, ← hl.covered a ha]
      constructor
      · rintro ⟨e, ⟨he, -⟩, hholds⟩
        exact ⟨e, he, hholds⟩
      · rintro ⟨e, he, hh⟩
        have hsize := (hl.objects e he).nonempty
        exact ⟨e, ⟨he, fun hpage' =>
          hpage (hsep.whole e he e.addr a ⟨Nat.le_refl _, by omega⟩ hh hpage')⟩, hh⟩
  · intro q hq
    by_cases hpage : q ∈ pages
    · rw [hself q hpage] at hq
      exact absurd rfl hq
    · rw [hother q hpage] at hq ⊢
      obtain ⟨e, he, haddr, hpo'⟩ := hl.first q hq
      exact ⟨e, ⟨he, by rw [hpo']; exact hpage⟩, haddr, by rw [hpo]; exact hpo'⟩
  · intro q hq
    by_cases hpage : q ∈ pages
    · rw [hself q hpage] at hq
      exact absurd rfl hq
    · rw [hother q hpage] at hq ⊢
      obtain ⟨e, he, haddr, hpo', hend⟩ := hl.covering q hq
      refine ⟨e, ⟨he, fun hin' => hpage ?_⟩, haddr, by rw [hpo]; exact hpo',
        by rw [hps]; exact hend⟩
      -- the object reaches into the page, which would be released with it
      have hsize := (hl.objects e he).nonempty
      obtain ⟨b, hb, rfl⟩ := exists_on_page (by omega) (hl.objects e he).above hpo' hend
      exact hsep.whole e he e.addr b ⟨Nat.le_refl _, by omega⟩ hb hin'
  · rintro e ⟨he, hout⟩ q
    rw [hps]
    intro hlo hhi
    have hsize := (hl.objects e he).nonempty
    have hpage : q ∉ pages := by
      intro hq
      have hpo' : h.om.pageOf (h.om.pageStart q) = q := by
        unfold Om.pageOf Om.pageStart pageBytes
        omega
      exact hout (hsep.whole e he (h.om.pageStart q) e.addr ⟨by omega, hhi⟩
        ⟨Nat.le_refl _, by omega⟩ (by rw [hpo']; exact hq))
    rw [hother q hpage]
    exact hl.straddle e he q hlo hhi
  · intro q hq
    by_cases hpage : q ∈ pages
    · rw [hself q hpage]
      exact ⟨rfl, rfl, rfl⟩
    · rw [hother q hpage] at hq ⊢
      exact hl.free q hq
  · intro q
    by_cases hpage : q ∈ pages
    · rw [hself q hpage]
      exact Nat.zero_le _
    · rw [hother q hpage]
      exact hl.usedBound q
  · rw [hpo, hom.free, hom.start]
    by_cases hpage : h.om.pageOf h.om.free ∈ pages
    · rw [hself _ hpage]
      have hstartFree := hl.placed.startFree
      simp only [Page.fresh]
      rcases hsep.closed _ hpage with hrel | hrel <;>
        unfold Om.pageStart Om.pageOf pageBytes at * <;> omega
    · rw [hother _ hpage]
      exact hl.bump
  · intro q hq
    rw [hps, hom.free] at hq
    by_cases hpage : q ∈ pages
    · rw [hself q hpage]
      exact ⟨rfl, rfl, rfl⟩
    · rw [hother q hpage]
      exact hl.blank q hq
  · intro q
    rw [hps, hps, hom.free]
    by_cases hpage : q ∈ pages
    · intro _ _ hlt
      rcases hsep.closed q hpage with hrel | hrel
      · omega
      · exact hrel
    · rw [hother q hpage]
      exact hl.closed q

/-- **Releasing a page that shares no object with its neighbours** removes the
objects of the page and keeps the layout. -/
theorem omReleasePage_layout {h : Heap} {live : Set Extent} (hl : Layout h live) {p : Nat}
    (hp : p < h.om.pageCount) (hrel : Releasable h.om p) :
    Layout { h with om := omReleasePage h.om p } {e ∈ live | h.om.pageOf e.addr ≠ p} := by
  have hsep : Separable h live [p] := by
    constructor
    · intro q hq
      rw [List.mem_singleton] at hq
      rcases hrel with hrel | ⟨hrel, -, -⟩
      · exact .inl (by rw [hq]; exact hrel)
      · exact .inr (by rw [hq]; exact hrel)
    · rintro e he a b ⟨hlo, hhi⟩ ⟨hlo', hhi'⟩ hpage
      rw [List.mem_singleton] at hpage ⊢
      have hsides := releasable_ends hl hp hrel he
      have habove := (hl.objects e he).above
      unfold Om.pageStart Om.pageOf pageBytes at *
      omega
  have hlayout := omReleasePages_layout hl (by simpa using hp) hsep (omReleasePage_released h.om p)
  simpa only [List.mem_singleton] using hlayout

/-! ## §7. Allocation. -/

/-- Room for an object of `total` bytes at `obj`: everything in `[obj, obj+total)`
is unused, and the tables of its pages are ready for it. -/
structure Room (h : Heap) (obj total newFree : Nat) : Prop where
  above : h.om.start ≤ obj
  aligned : obj % 8 = 0
  size : 24 ≤ total
  wordSized : total % 8 = 0
  fits : obj + total ≤ newFree
  grows : h.om.free ≤ newFree
  newFreeLimit : newFree ≤ h.om.limit
  newFreeAligned : newFree % 8 = 0
  used : (h.om.page (h.om.pageOf obj)).used = (obj - h.om.start) % pageBytes
  first : h.om.pageStart (h.om.pageOf obj) = obj → (h.om.page (h.om.pageOf obj)).Blank
  later : ∀ p, h.om.pageOf obj < p → p ≤ h.om.pageOf (obj + total - 1) → (h.om.page p).Blank

section Note

variable {h : Heap} {live : Set Extent} {obj total newFree : Nat}

/-- Nothing lives where there is room. -/
theorem Room.unused (hl : Layout h live) (hr : Room h obj total newFree) {a : Nat}
    (hlo : obj ≤ a) (hhi : a < obj + total) : ¬ ∃ e ∈ live, e.Holds a := by
  have habove := hr.above
  rw [hl.covered a (by omega)]
  rcases Nat.lt_or_ge (h.om.pageOf obj) (h.om.pageOf a) with hlt | hge
  · have hlast : h.om.pageOf a ≤ h.om.pageOf (obj + total - 1) := by
      unfold Om.pageOf
      exact Nat.div_le_div_right (by omega)
    rw [(hr.later _ hlt hlast).1]
    exact Nat.not_lt_zero _
  · have hsame : h.om.pageOf a = h.om.pageOf obj := by
      have hmono : h.om.pageOf obj ≤ h.om.pageOf a := by
        unfold Om.pageOf
        exact Nat.div_le_div_right (by omega)
      omega
    have hused := hr.used
    rw [hsame, hused]
    unfold Om.pageOf pageBytes at *
    omega

/-- The pages of the object, as the table loop sees them. -/
theorem Room.pages (hl : Layout h live) (hr : Room h obj total newFree) :
    noteObject h.om obj total
      = { h.om with
          page := fun p =>
            if h.om.pageOf obj ≤ p ∧ p ≤ h.om.pageOf (obj + total - 1) then
              notedPage h.om obj total (h.om.pageOf obj) p
            else h.om.page p } := by
  have hsize := hr.size
  have hfits := hr.fits
  have hlim := hr.newFreeLimit
  have hstop := hl.placed.limitStop
  exact hl.placed.noteObject hr.above (by omega) (by omega)

/-- The used count a noted page ends up with. -/
theorem Room.noted_used (hl : Layout h live) (hr : Room h obj total newFree) {p : Nat}
    (hlo : h.om.pageOf obj ≤ p) (hhi : p ≤ h.om.pageOf (obj + total - 1)) :
    (notedPage h.om obj total (h.om.pageOf obj) p).used
      = min (obj + total) (h.om.pageStart (p + 1)) - h.om.pageStart p := by
  have hpl := hl.placed
  have habove := hr.above
  have hsize := hr.size
  have hfits := hr.fits
  have hlim := hr.newFreeLimit
  have hstop := hpl.limitStop
  have hcount := hpl.pageOf_lt (a := obj + total - 1) (by omega) (by omega)
  have hold : (h.om.page p).used = 0 ∨
      (p = h.om.pageOf obj ∧ (h.om.page p).used = (obj - h.om.start) % pageBytes) := by
    rcases Nat.eq_or_lt_of_le hlo with heq | hlt
    · exact .inr ⟨heq.symm, by rw [← heq]; exact hr.used⟩
    · exact .inl (hr.later p hlt hhi).1
  simp only [notedPage]
  rw [hpl.pageStart (by omega)]
  unfold Om.pageStart Om.pageOf pageBytes at *
  split <;> split <;> omega

/-- The tables after an object is entered. -/
structure Noted (h : Heap) (obj total newFree : Nat) (om : Om) : Prop where
  start : om.start = h.om.start
  free : om.free = newFree
  limit : om.limit = h.om.limit
  stop : om.stop = h.om.stop
  pageCount : om.pageCount = h.om.pageCount
  inside : ∀ p, h.om.pageOf obj ≤ p → p ≤ h.om.pageOf (obj + total - 1) →
    om.page p = notedPage h.om obj total (h.om.pageOf obj) p
  outside : ∀ p, ¬ (h.om.pageOf obj ≤ p ∧ p ≤ h.om.pageOf (obj + total - 1)) →
    om.page p = h.om.page p

theorem Room.noted (hl : Layout h live) (hr : Room h obj total newFree) :
    Noted h obj total newFree { noteObject h.om obj total with free := newFree } := by
  rw [hr.pages hl]
  exact ⟨rfl, rfl, rfl, rfl, rfl, fun p hlo hhi => if_pos ⟨hlo, hhi⟩, fun p hout => if_neg hout⟩

/-- **Entering an object where there is room** adds its extent to the layout. -/
theorem noted_layout (hl : Layout h live) (hr : Room h obj total newFree) {m : Mem} {om : Om}
    (hom : Noted h obj total newFree om) (hheader : 8 * (3 + objectSlotCount m obj) = total)
    (hkeep : ∀ a, a < obj ∨ obj + total ≤ a → m a = h.mem a)
    (hbump : (om.page (om.pageOf newFree)).used = (newFree - h.om.start) % pageBytes)
    (hclosed : ∀ p, h.om.pageStart p < newFree → (h.om.page p).reusable = true →
      (h.om.page p).state = .free →
      ¬ (h.om.pageOf obj ≤ p ∧ p ≤ h.om.pageOf (obj + total - 1)) →
      h.om.pageStart p < h.om.free) :
    Layout { om := om, mem := m } (insert ⟨obj, total⟩ live) := by
  have hpl := hl.placed
  have hu := fun p hlo hhi => hr.noted_used (p := p) hl hlo hhi
  have habove := hr.above
  have hsize := hr.size
  have hfits := hr.fits
  have hgrows := hr.grows
  have hps : ∀ p, om.pageStart p = h.om.pageStart p := by
    intro p
    unfold Om.pageStart
    rw [hom.start]
  have hpo : ∀ a, om.pageOf a = h.om.pageOf a := by
    intro a
    unfold Om.pageOf
    rw [hom.start]
  -- a page the object reaches is its own first page or was blank
  have hready : ∀ p, h.om.pageOf obj ≤ p → p ≤ h.om.pageOf (obj + total - 1) →
      p = h.om.pageOf obj ∨ ((h.om.page p).Blank ∧ obj ≤ h.om.pageStart p) := by
    intro p hlo hhi
    rcases Nat.eq_or_lt_of_le hlo with heq | hlt
    · exact .inl heq.symm
    · refine .inr ⟨hr.later p hlt hhi, ?_⟩
      unfold Om.pageStart Om.pageOf pageBytes at *
      omega
  constructor
  · exact ⟨by rw [hom.start]; exact hpl.aboveFirstPage, by rw [hom.start]; exact hpl.startAligned,
      by rw [hom.free]; exact hr.newFreeAligned,
      by rw [hom.start, hom.free]; exact Nat.le_trans hpl.startFree hgrows,
      by rw [hom.free, hom.limit]; exact hr.newFreeLimit, by rw [hom.limit, hom.stop]; exact hpl.limitStop,
      by rw [hom.stop]; exact hpl.stopBound, by rw [hom.pageCount, hom.start, hom.stop]; exact hpl.pages⟩
  · rintro e (rfl | he)
    · exact ⟨hheader, hsize, by rw [hom.start]; exact habove, by rw [hom.free]; exact hfits,
        hr.aligned, hr.wordSized⟩
    · obtain ⟨hheader', hne, habove', hbelow', halign, hword⟩ := hl.objects e he
      refine ⟨?_, hne, by rw [hom.start]; exact habove', ?_, halign, hword⟩
      · have hbytes : ∀ i, i < 24 → m (e.addr + i) = h.mem (e.addr + i) := by
          intro i hi
          apply hkeep
          by_contra hin
          exact hr.unused hl (a := e.addr + i) (by omega) (by omega)
            ⟨e, he, Nat.le_add_right _ _, by omega⟩
        rw [← hheader']
        congr 2
        apply objectSlotCount_congr
        · apply load64_congr
          intro i hi
          rw [Nat.add_assoc]
          exact hbytes (8 + i) (by omega)
        · apply load64_congr
          intro i hi
          rw [Nat.add_assoc]
          exact hbytes (16 + i) (by omega)
      · rw [hom.free]
        exact Nat.le_trans hbelow' hgrows
  · rintro e (rfl | he) e' (rfl | he') a ha ha'
    · rfl
    · exact absurd ⟨e', he', ha'⟩ (hr.unused hl ha.1 ha.2)
    · exact absurd ⟨e, he, ha⟩ (hr.unused hl ha'.1 ha'.2)
    · exact hl.disjoint e he e' he' a ha ha'
  · intro a ha
    have ha : h.om.start ≤ a := by rw [← hom.start]; exact ha
    have hsplit : (∃ e ∈ insert ⟨obj, total⟩ live, e.Holds a)
        ↔ (obj ≤ a ∧ a < obj + total) ∨ ∃ e ∈ live, e.Holds a := by
      constructor
      · rintro ⟨e, rfl | he, hh⟩
        · exact .inl hh
        · exact .inr ⟨e, he, hh⟩
      · rintro (hh | ⟨e, he, hh⟩)
        · exact ⟨⟨obj, total⟩, .inl rfl, hh⟩
        · exact ⟨e, .inr he, hh⟩
    rw [hsplit, hl.covered a ha, hpo, hom.start]
    by_cases hin : h.om.pageOf obj ≤ h.om.pageOf a ∧ h.om.pageOf a ≤ h.om.pageOf (obj + total - 1)
    · rw [hom.inside _ hin.1 hin.2, hu _ hin.1 hin.2]
      have hused := hr.used
      rcases hready _ hin.1 hin.2 with hpage | ⟨⟨hzero, -, -⟩, hps'⟩
      · rw [← hpage] at hused
        unfold Om.pageStart Om.pageOf pageBytes at *
        omega
      · unfold Om.pageStart Om.pageOf pageBytes at *
        omega
    · rw [hom.outside _ hin]
      unfold Om.pageOf pageBytes at *
      omega
  · intro p hp
    by_cases hin : h.om.pageOf obj ≤ p ∧ p ≤ h.om.pageOf (obj + total - 1)
    · have hpage := hom.inside p hin.1 hin.2
      by_cases hold : (h.om.page p).first = 0
      · by_cases hfirst : p = h.om.pageOf obj
        · refine ⟨⟨obj, total⟩, .inl rfl, ?_, by rw [hpo]; exact hfirst.symm⟩
          show obj = (om.page p).first
          rw [hpage]
          simp only [notedPage]
          rw [if_pos ⟨hfirst, hold⟩]
        · refine absurd ?_ hp
          show (om.page p).first = 0
          rw [hpage]
          simp only [notedPage]
          rw [if_neg (fun h => hfirst h.1), hold]
      · obtain ⟨e, he, haddr, hpo'⟩ := hl.first p hold
        refine ⟨e, .inr he, ?_, by rw [hpo]; exact hpo'⟩
        show e.addr = (om.page p).first
        rw [hpage, haddr]
        simp only [notedPage]
        rw [if_neg (fun h => hold h.2)]
    · have hpage := hom.outside p hin
      have hp : (om.page p).first ≠ 0 := hp
      rw [hpage] at hp
      obtain ⟨e, he, haddr, hpo'⟩ := hl.first p hp
      refine ⟨e, .inr he, ?_, by rw [hpo]; exact hpo'⟩
      show e.addr = (om.page p).first
      rw [hpage, haddr]
  · intro p hp
    by_cases hin : h.om.pageOf obj ≤ p ∧ p ≤ h.om.pageOf (obj + total - 1)
    · have hpage := hom.inside p hin.1 hin.2
      by_cases hold : (h.om.page p).covering = 0
      · refine ⟨⟨obj, total⟩, .inl rfl, ?_, by rw [hpo]; exact hin.1, ?_⟩
        · show obj = (om.page p).covering
          rw [hpage]
          simp only [notedPage]
          rw [if_pos hold]
        · show om.pageStart p < obj + total
          have hle := hin.2
          rw [hps]
          unfold Om.pageStart Om.pageOf pageBytes at *
          omega
      · obtain ⟨e, he, haddr, hpo', hend⟩ := hl.covering p hold
        refine ⟨e, .inr he, ?_, by rw [hpo]; exact hpo', by rw [hps]; exact hend⟩
        show e.addr = (om.page p).covering
        rw [hpage, haddr]
        simp only [notedPage]
        rw [if_neg hold]
    · have hpage := hom.outside p hin
      have hp : (om.page p).covering ≠ 0 := hp
      rw [hpage] at hp
      obtain ⟨e, he, haddr, hpo', hend⟩ := hl.covering p hp
      refine ⟨e, .inr he, ?_, by rw [hpo]; exact hpo', by rw [hps]; exact hend⟩
      show e.addr = (om.page p).covering
      rw [hpage, haddr]
  · rintro e (rfl | he) p
    · rw [hps]
      show obj < _ → _ < obj + total → (om.page p).covering = obj
      intro hlo hhi
      have hin : h.om.pageOf obj < p ∧ p ≤ h.om.pageOf (obj + total - 1) := by
        unfold Om.pageStart Om.pageOf pageBytes at *
        omega
      rw [hom.inside p (by omega) hin.2]
      simp only [notedPage]
      rw [if_pos (hr.later p hin.1 hin.2).2.2]
    · rw [hps]
      intro hlo hhi
      show (om.page p).covering = e.addr
      have hold := hl.straddle e he p hlo hhi
      have hne : (h.om.page p).covering ≠ 0 := by
        have habove' := (hl.objects e he).above
        have hfirstPage := hpl.aboveFirstPage
        unfold pageBytes at hfirstPage
        omega
      by_cases hin : h.om.pageOf obj ≤ p ∧ p ≤ h.om.pageOf (obj + total - 1)
      · rw [hom.inside p hin.1 hin.2]
        simp only [notedPage]
        rw [if_neg hne, hold]
      · rw [hom.outside p hin, hold]
  · intro p hp
    have hp : (om.page p).state = .free := hp
    by_cases hin : h.om.pageOf obj ≤ p ∧ p ≤ h.om.pageOf (obj + total - 1)
    · rw [hom.inside p hin.1 hin.2] at hp
      simp only [notedPage] at hp
      split at hp <;> cases hp
    · show (om.page p).Blank
      rw [hom.outside p hin] at hp ⊢
      exact hl.free p hp
  · intro p
    show (om.page p).used ≤ pageBytes
    by_cases hin : h.om.pageOf obj ≤ p ∧ p ≤ h.om.pageOf (obj + total - 1)
    · rw [hom.inside p hin.1 hin.2, hu p hin.1 hin.2]
      unfold Om.pageStart pageBytes
      omega
    · rw [hom.outside p hin]
      exact hl.usedBound p
  · show (om.page (om.pageOf om.free)).used = (om.free - om.start) % pageBytes
    rw [hom.free, hom.start]
    exact hbump
  · intro p hp
    have hp : newFree ≤ h.om.pageStart p := by rw [← hps, ← hom.free]; exact hp
    have hout : ¬ (h.om.pageOf obj ≤ p ∧ p ≤ h.om.pageOf (obj + total - 1)) := by
      unfold Om.pageStart Om.pageOf pageBytes at *
      omega
    show (om.page p).Blank
    rw [hom.outside p hout]
    exact hl.blank p (by omega)
  · intro p hreuse hstate hlt
    have hreuse : (om.page p).reusable = true := hreuse
    have hstate : (om.page p).state = .free := hstate
    have hlt : h.om.pageStart p < newFree := by rw [← hps, ← hom.free]; exact hlt
    by_cases hin : h.om.pageOf obj ≤ p ∧ p ≤ h.om.pageOf (obj + total - 1)
    · rw [hom.inside p hin.1 hin.2] at hreuse
      exact absurd hreuse (by simp [notedPage])
    · rw [hom.outside p hin] at hreuse hstate
      have hold := hl.closed p hreuse hstate (hclosed p hlt hreuse hstate hin)
      show om.pageStart (p + 1) ≤ om.free
      rw [hps, hom.free]
      omega

end Note

/-- The page an allocation reuses. -/
theorem reusablePage_some {om : Om} {total p : Nat} (h : reusablePage om total = some p) :
    p < om.pageCount ∧ (om.page p).reusable = true ∧ (om.page p).state = .free ∧
      omPageStart om p < om.free ∧ total ≤ pageBytes := by
  unfold reusablePage at h
  split at h
  · next htotal =>
    have hfound := List.find?_some h
    have hmem := List.mem_of_find?_eq_some h
    simp only [Bool.and_eq_true, beq_iff_eq, decide_eq_true_eq] at hfound
    exact ⟨List.mem_range.mp hmem, hfound.1, hfound.2.1, hfound.2.2, htotal⟩
  · cases h

/-- What an allocation does, by what the page scan finds. -/
theorem omAlloc_scan {h h' : Heap} {req : AllocRequest} {obj : Nat}
    (ha : omAlloc h req = some (obj, h')) :
    obj + req.totalBytes ≤ h.om.limit ∧ h'.mem = writeObject h.mem obj req ∧
    ((∃ p, reusablePage h.om req.totalBytes = some p ∧ obj = omPageStart h.om p ∧
        h'.om = noteObject h.om obj req.totalBytes) ∨
      (reusablePage h.om req.totalBytes = none ∧ obj = bumpObject h.om req.totalBytes ∧
        h'.om = { noteObject h.om obj req.totalBytes with free := obj + req.totalBytes })) := by
  unfold omAlloc at ha
  rcases hreuse : reusablePage h.om req.totalBytes with _ | p
  · simp only [hreuse, Option.isNone_none, if_true] at ha
    split at ha
    · cases ha
    next hfits =>
    simp only [Option.some.injEq, Prod.mk.injEq] at ha
    obtain ⟨rfl, rfl⟩ := ha
    exact ⟨by omega, rfl, .inr ⟨rfl, rfl, rfl⟩⟩
  · simp only [hreuse, Option.isNone_some, Bool.false_eq_true, if_false] at ha
    split at ha
    · cases ha
    next hfits =>
    simp only [Option.some.injEq, Prod.mk.injEq] at ha
    obtain ⟨rfl, rfl⟩ := ha
    exact ⟨by omega, rfl, .inl ⟨p, rfl, rfl, rfl⟩⟩

/-- What an allocation does: it enters a new object either in a released page or
at the bump pointer. -/
theorem omAlloc_cases {h h' : Heap} {req : AllocRequest} {obj : Nat}
    (ha : omAlloc h req = some (obj, h')) :
    obj + req.totalBytes ≤ h.om.limit ∧ h'.mem = writeObject h.mem obj req ∧
    ((∃ p, p < h.om.pageCount ∧ (h.om.page p).reusable = true ∧ (h.om.page p).state = .free ∧
        omPageStart h.om p < h.om.free ∧ req.totalBytes ≤ pageBytes ∧
        obj = omPageStart h.om p ∧ h'.om = noteObject h.om obj req.totalBytes) ∨
      (obj = bumpObject h.om req.totalBytes ∧
        h'.om = { noteObject h.om obj req.totalBytes with free := obj + req.totalBytes })) := by
  obtain ⟨hfits, hmem, ⟨p, hreuse, hobj, hom⟩ | ⟨-, hobj, hom⟩⟩ := omAlloc_scan ha
  · obtain ⟨hp, hflag, hstate, hlt, htotal⟩ := reusablePage_some hreuse
    exact ⟨hfits, hmem, .inl ⟨p, hp, hflag, hstate, hlt, htotal, hobj, hom⟩⟩
  · exact ⟨hfits, hmem, .inr ⟨hobj, hom⟩⟩

theorem bumpObject_cases (om : Om) (total : Nat) :
    bumpObject om total = om.free ∨
    ((om.free - om.start) % pageBytes ≠ 0 ∧ total ≤ pageBytes ∧
      pageBytes - (om.free - om.start) % pageBytes < total ∧
      bumpObject om total = om.pageStart (om.pageOf om.free + 1)) := by
  unfold bumpObject
  simp only
  split
  · next h =>
    refine .inr ⟨h.1, h.2.1, h.2.2, ?_⟩
    unfold Om.pageStart Om.pageOf pageBytes at *
    omega
  · exact .inl rfl

/-- **Allocation keeps the layout** and adds the new object to it. -/
theorem omAlloc_layout {h h' : Heap} {live : Set Extent} (hl : Layout h live)
    {req : AllocRequest} {obj : Nat} (ha : omAlloc h req = some (obj, h')) :
    Layout h' (insert ⟨obj, req.totalBytes⟩ live) ∧
      (∀ a, obj ≤ a → a < obj + req.totalBytes → ¬ ∃ e ∈ live, e.Holds a) ∧
      SameBuffer h.om h'.om ∧ h.om.free ≤ h'.om.free := by
  obtain ⟨hfits, hmem, hcase⟩ := omAlloc_cases ha
  have hpl := hl.placed
  have halign := hpl.startAligned
  have hfreeAlign := hpl.freeAligned
  have hstartFree := hpl.startFree
  have hfreeLimit := hpl.freeLimit
  have hlimit := hpl.limitStop
  have h24 := req.le_totalBytes
  have h8 := req.totalBytes_mod
  have hheader : 8 * (3 + objectSlotCount h'.mem obj) = req.totalBytes := by
    rw [hmem, objectSlotCount_writeObject]
    rfl
  have hkeep : ∀ a, a < obj ∨ obj + req.totalBytes ≤ a → h'.mem a = h.mem a := by
    intro a hout
    rw [hmem]
    exact writeObject_of_out h.mem obj req hout
  rcases hcase with ⟨p, hp, hreuse, hstate, hlt, htotal, hobj, hom⟩ | ⟨hobj, hom⟩
  · -- a released page: the object is alone on it
    rw [hpl.pageStart hp] at hlt hobj
    have hclosed := hl.closed p hreuse hstate hlt
    have hblank := hl.free p hstate
    have hpage : h.om.pageOf obj = p := by
      rw [hobj]
      unfold Om.pageStart Om.pageOf pageBytes
      omega
    have hlast : h.om.pageOf (obj + req.totalBytes - 1) = p := by
      rw [hobj]
      unfold Om.pageStart Om.pageOf pageBytes at *
      omega
    have hr : Room h obj req.totalBytes h.om.free := by
      constructor
      case used =>
        rw [hpage, hblank.1, hobj]
        unfold Om.pageStart pageBytes
        omega
      case first => exact fun _ => by rw [hpage]; exact hblank
      case later => exact fun q hlo hhi => absurd hlo (by omega)
      all_goals
        unfold Om.pageStart pageBytes at *
        omega
    have hnoted : Noted h obj req.totalBytes h.om.free h'.om := by
      have := hr.noted hl
      rw [hr.pages hl] at this
      rw [hom, hr.pages hl]
      exact this
    have hpo : ∀ a, h'.om.pageOf a = h.om.pageOf a := by
      intro a
      unfold Om.pageOf
      rw [hnoted.start]
    refine ⟨noted_layout hl hr hnoted hheader hkeep ?_ (fun q hq _ _ _ => hq),
      fun a hlo hhi => hr.unused hl hlo hhi, ?_⟩
    · rw [hpo, hnoted.outside _ ?_]
      · exact hl.bump
      · rw [hpage, hlast]
        unfold Om.pageStart Om.pageOf pageBytes at *
        omega
    · exact ⟨⟨hnoted.start, hnoted.limit, hnoted.stop, hnoted.pageCount⟩,
        by rw [hnoted.free]⟩
  · -- the bump pointer, or the page after it
    have hplace : (obj = h.om.free) ∨ ((h.om.free - h.om.start) % pageBytes ≠ 0 ∧
        req.totalBytes ≤ pageBytes ∧ obj = h.om.pageStart (h.om.pageOf h.om.free + 1)) := by
      rw [hobj]
      rcases bumpObject_cases h.om req.totalBytes with heq | ⟨hoff, htotal, -, heq⟩
      · exact .inl heq
      · exact .inr ⟨hoff, htotal, heq⟩
    have hr : Room h obj req.totalBytes (obj + req.totalBytes) := by
      constructor
      case used =>
        rcases hplace with heq | ⟨-, -, heq⟩
        · rw [heq]
          exact hl.bump
        · have hzero := (hl.blank (h.om.pageOf obj) (by
            rw [heq]
            unfold Om.pageStart Om.pageOf pageBytes
            omega)).1
          rw [hzero, heq]
          unfold Om.pageStart pageBytes
          omega
      case first =>
        intro hfirst
        apply hl.blank
        rw [hfirst]
        rcases hplace with heq | ⟨-, -, heq⟩
        · omega
        · rw [heq]
          unfold Om.pageStart Om.pageOf pageBytes
          omega
      case later =>
        intro q hlo hhi
        apply hl.blank
        rcases hplace with heq | ⟨-, -, heq⟩ <;> rw [heq] at hlo <;>
          unfold Om.pageStart Om.pageOf pageBytes at * <;> omega
      all_goals
        rcases hplace with heq | ⟨-, -, heq⟩
        · omega
        · unfold Om.pageStart Om.pageOf pageBytes at heq
          omega
    have hnoted : Noted h obj req.totalBytes (obj + req.totalBytes) h'.om := by
      rw [hom]
      exact hr.noted hl
    refine ⟨noted_layout hl hr hnoted hheader hkeep ?_ ?_,
      fun a hlo hhi => hr.unused hl hlo hhi, ?_⟩
    · have hpo : ∀ a, h'.om.pageOf a = h.om.pageOf a := by
        intro a
        unfold Om.pageOf
        rw [hnoted.start]
      have habove := hr.above
      rw [hpo]
      by_cases hin : h.om.pageOf (obj + req.totalBytes) ≤ h.om.pageOf (obj + req.totalBytes - 1)
      · have hlo : h.om.pageOf obj ≤ h.om.pageOf (obj + req.totalBytes) := by
          unfold Om.pageOf
          exact Nat.div_le_div_right (by omega)
        rw [hnoted.inside _ hlo hin, hr.noted_used hl hlo hin]
        unfold Om.pageStart Om.pageOf pageBytes at *
        omega
      · -- the new free pointer starts a page nothing has been entered in
        rw [hnoted.outside _ (by omega), (hl.blank _ ?_).1]
        · unfold Om.pageOf pageBytes at *
          omega
        · have hgrows := hr.grows
          unfold Om.pageStart Om.pageOf pageBytes at *
          omega
    · intro q hq _ _ hout
      rcases hplace with heq | ⟨hoff, -, heq⟩ <;> rw [heq] at hq hout <;>
        unfold Om.pageStart Om.pageOf pageBytes at * <;> omega
    · exact ⟨⟨hnoted.start, hnoted.limit, hnoted.stop, hnoted.pageCount⟩,
        by rw [hnoted.free]; exact hr.grows⟩

end LivingObjects.ObjectMemory
