/-
  LivingObjects.ObjectMemory.Apart — where `om_alloc` puts objects.

  A heap takes allocations, deaths of objects and releases of pages that hold no
  part of a live object.  Every object lies aligned inside the heap and shares no
  byte with a live one (`allocations_apart`), as long as no allocation takes the
  released page the bump pointer stands in and reaches past the bump pointer: the
  bump pointer does not move then, and the next object put there lies across the
  first (`overrun_overlaps`).
-/
import LivingObjects.ObjectMemory.Layout
import LivingObjects.Lib.Trace

namespace LivingObjects.ObjectMemory

open LivingObjects.Lib
open LivingObjects.VM

/-! ## §1. Events. -/

/-- A heap with the extents of the objects that are live. -/
structure Arena where
  heap : Heap
  live : Set Extent

/-- What happens to an object memory. -/
inductive ArenaEvent where
  | alloc (req : AllocRequest)
  /-- The objects of the set are not live any more. -/
  | die (dead : Set Extent)
  | release (pageId : Nat)

/-- One event; an allocation that returns `NULL` changes nothing. -/
def Arena.step (s : Arena) : ArenaEvent → Arena
  | .alloc req =>
    match omAlloc s.heap req with
    | some (object, heap) => { heap := heap, live := insert ⟨object, req.totalBytes⟩ s.live }
    | none => s
  | .die dead => { s with live := s.live \ dead }
  | .release pageId => { s with heap := { s.heap with om := omReleasePage s.heap.om pageId } }

/-- A fresh object memory on a buffer. -/
def Arena.initial (buffer : Buffer) (m : Mem) : Arena where
  heap := { om := omInit buffer.addr buffer.size, mem := m }
  live := ∅

/-- A released page holds no part of a live object. -/
def ArenaEvent.Legal (s : Arena) : ArenaEvent → Prop
  | .release pageId => ∀ e ∈ s.live, ∀ a, e.Holds a → s.heap.om.pageOf a ≠ pageId
  | _ => True

/-- An allocation that takes a released page, and returns, ends at or below the
bump pointer. -/
def ArenaEvent.BelowBump (s : Arena) : ArenaEvent → Prop
  | .alloc req => ∀ pageId, reusablePage s.heap.om req.totalBytes = some pageId →
      omPageStart s.heap.om pageId + req.totalBytes ≤ s.heap.om.limit →
      omPageStart s.heap.om pageId + req.totalBytes ≤ s.heap.om.free
  | _ => True

/-- An allocation returns an aligned object inside the heap that shares no byte with
a live one. -/
def ArenaEvent.Apart (s : Arena) : ArenaEvent → Prop
  | .alloc req => ∀ object heap, omAlloc s.heap req = some (object, heap) →
      object % 8 = 0 ∧ s.heap.om.start ≤ object ∧ object + req.totalBytes ≤ s.heap.om.stop ∧
      ∀ e ∈ s.live, ∀ a, e.Holds a → ¬ Extent.Holds ⟨object, req.totalBytes⟩ a
  | _ => True

/-! ## §2. The invariant. -/

/-- Live objects are apart, below the bump pointer and outside the released pages. -/
structure Arena.Inv (s : Arena) : Prop where
  placed : Placed s.heap.om
  inside : ∀ e ∈ s.live, s.heap.om.start ≤ e.addr ∧ e.addr + e.bytes ≤ s.heap.om.free
  apart : ∀ e ∈ s.live, ∀ e' ∈ s.live, ∀ a, e.Holds a → e'.Holds a → e = e'
  released : ∀ p, (s.heap.om.page p).reusable = true → (s.heap.om.page p).state = .free →
    ∀ e ∈ s.live, ∀ a, e.Holds a → s.heap.om.pageOf a ≠ p

/-- Entering an object leaves the released pages it does not touch, and no others. -/
theorem noteObject_released {om : Om} (hp : Placed om) {obj total : Nat} (hlo : om.start ≤ obj)
    (hpos : 0 < total) (hhi : obj + total ≤ om.stop) {p : Nat}
    (hreuse : ((noteObject om obj total).page p).reusable = true)
    (hstate : ((noteObject om obj total).page p).state = .free) :
    (om.page p).reusable = true ∧ (om.page p).state = .free ∧
      ¬ (om.pageOf obj ≤ p ∧ p ≤ om.pageOf (obj + total - 1)) := by
  rw [hp.noteObject hlo hpos hhi] at hreuse hstate
  simp only at hreuse hstate
  by_cases hin : om.pageOf obj ≤ p ∧ p ≤ om.pageOf (obj + total - 1)
  · rw [if_pos hin] at hreuse
    exact absurd hreuse (by simp [notedPage])
  · rw [if_neg hin] at hreuse hstate
    exact ⟨hreuse, hstate, hin⟩

/-- Every address of an object is on one of its pages. -/
theorem pageOf_between (om : Om) {obj total a : Nat} (hlo : obj ≤ a) (hhi : a < obj + total) :
    om.pageOf obj ≤ om.pageOf a ∧ om.pageOf a ≤ om.pageOf (obj + total - 1) := by
  unfold Om.pageOf
  exact ⟨Nat.div_le_div_right (by omega), Nat.div_le_div_right (by omega)⟩

/-! ## §3. Allocation. -/

/-- Where an object goes: into a released page, or to the bump pointer or above it,
which then moves behind the object. -/
theorem omAlloc_place {h h' : Heap} (hp : Placed h.om) {req : AllocRequest} {obj : Nat}
    (ha : omAlloc h req = some (obj, h')) :
    obj % 8 = 0 ∧ h.om.start ≤ obj ∧ obj + req.totalBytes ≤ h.om.limit ∧
    ((∃ p, reusablePage h.om req.totalBytes = some p ∧ obj = omPageStart h.om p ∧
        obj = h.om.pageStart p ∧ h'.om = noteObject h.om obj req.totalBytes) ∨
      (h.om.free ≤ obj ∧
        h'.om = { noteObject h.om obj req.totalBytes with free := obj + req.totalBytes })) := by
  have halign := hp.startAligned
  have hfree := hp.freeAligned
  have hstart := hp.startFree
  obtain ⟨hfits, -, ⟨p, hreuse, hobj, hom⟩ | ⟨-, hobj, hom⟩⟩ := omAlloc_scan ha
  · have hpage := (reusablePage_some hreuse).1
    have hstartPage := hobj.trans (hp.pageStart hpage)
    refine ⟨?_, ?_, hfits, .inl ⟨p, hreuse, hobj, hstartPage, hom⟩⟩ <;>
      rw [hstartPage] <;> unfold Om.pageStart pageBytes <;> omega
  · have hplace : obj % 8 = 0 ∧ h.om.free ≤ obj := by
      rcases bumpObject_cases h.om req.totalBytes with heq | ⟨-, -, -, heq⟩
      · rw [hobj, heq]
        exact ⟨hfree, Nat.le_refl _⟩
      · rw [hobj, heq]
        unfold Om.pageStart Om.pageOf pageBytes
        omega
    exact ⟨hplace.1, by omega, hfits, .inr ⟨hplace.2, hom⟩⟩

/-- A new object shares no byte with a live one. -/
theorem Arena.Inv.unshared {s : Arena} (hs : s.Inv) {req : AllocRequest} {obj : Nat} {h' : Heap}
    (ha : omAlloc s.heap req = some (obj, h')) {e : Extent} (he : e ∈ s.live) {a : Nat}
    (hh : e.Holds a) : ¬ Extent.Holds ⟨obj, req.totalBytes⟩ a := by
  rintro ⟨hlo, hhi⟩
  simp only at hlo hhi
  obtain ⟨-, -, -, ⟨p, hreuse, -, hobj, -⟩ | ⟨hbump, -⟩⟩ := omAlloc_place hs.placed ha
  · obtain ⟨-, hflag, hstate, -, htotal⟩ := reusablePage_some hreuse
    refine hs.released p hflag hstate e he a hh ?_
    rw [hobj] at hlo hhi
    unfold Om.pageStart Om.pageOf pageBytes at *
    omega
  · have hbelow := (hs.inside e he).2
    have hend := hh.2
    omega

/-- The registration after an allocation, for the placement invariant. -/
theorem placed_after {h h' : Heap} (hp : Placed h.om) {req : AllocRequest} {obj : Nat}
    (ha : omAlloc h req = some (obj, h')) :
    Placed h'.om ∧ h'.om.start = h.om.start ∧ h.om.free ≤ h'.om.free ∧
    ∀ p, (h'.om.page p).reusable = true → (h'.om.page p).state = .free →
      (h.om.page p).reusable = true ∧ (h.om.page p).state = .free ∧
      ¬ (h.om.pageOf obj ≤ p ∧ p ≤ h.om.pageOf (obj + req.totalBytes - 1)) := by
  have h24 := req.le_totalBytes
  have h8 := req.totalBytes_mod
  have hlimit := hp.limitStop
  obtain ⟨halign, hlo, hfits, hcase⟩ := omAlloc_place hp ha
  have hreleased := fun p => noteObject_released (p := p) hp hlo (by omega)
    (show obj + req.totalBytes ≤ h.om.stop by omega)
  have hnote := hp.noteObject hlo (show 0 < req.totalBytes by omega)
    (show obj + req.totalBytes ≤ h.om.stop by omega)
  rcases hcase with ⟨-, -, -, -, hom⟩ | ⟨hbump, hom⟩
  · refine ⟨?_, ?_, ?_, fun p => ?_⟩
    · rw [hom, hnote]
      exact ⟨hp.aboveFirstPage, hp.startAligned, hp.freeAligned, hp.startFree, hp.freeLimit,
        hp.limitStop, hp.stopBound, hp.pages⟩
    · rw [hom, hnote]
    · rw [hom, hnote]
    · rw [hom]
      exact hreleased p
  · refine ⟨?_, ?_, ?_, fun p => ?_⟩
    · rw [hom, hnote]
      exact ⟨hp.aboveFirstPage, hp.startAligned, by show (obj + req.totalBytes) % 8 = 0; omega,
        by show h.om.start ≤ obj + req.totalBytes; omega, hfits, hp.limitStop, hp.stopBound,
        hp.pages⟩
    · rw [hom, hnote]
    · rw [hom]
      show h.om.free ≤ obj + req.totalBytes
      omega
    · rw [hom]
      exact hreleased p

/-! ## §4. Runs. -/

/-- **An event that meets the conditions keeps the invariant.** -/
theorem Arena.Inv.step {s : Arena} (hs : s.Inv) (event : ArenaEvent)
    (hmeets : event.Legal s ∧ event.BelowBump s) : (s.step event).Inv := by
  obtain ⟨hlegal, hbelow⟩ := hmeets
  cases event with
  | alloc req =>
    unfold Arena.step
    simp only
    rcases ha : omAlloc s.heap req with _ | ⟨obj, h'⟩
    · exact hs
    obtain ⟨hplaced, hstart, hgrows, hreleased⟩ := placed_after hs.placed ha
    obtain ⟨-, hlo, hfits, hcase⟩ := omAlloc_place hs.placed ha
    have hpo : ∀ a, h'.om.pageOf a = s.heap.om.pageOf a := by
      intro a
      unfold Om.pageOf
      rw [hstart]
    refine ⟨hplaced, ?_, ?_, ?_⟩
    · rintro e (rfl | he)
      · refine ⟨by rw [hstart]; exact hlo, ?_⟩
        -- a reused page is where the condition is needed
        rcases hcase with ⟨p, hreuse, hobj, -, hom⟩ | ⟨-, hom⟩
        · rw [hobj] at hfits ⊢
          exact Nat.le_trans (hbelow p hreuse hfits) hgrows
        · rw [hom]
      · obtain ⟨hlo', hhi'⟩ := hs.inside e he
        exact ⟨by rw [hstart]; exact hlo', Nat.le_trans hhi' hgrows⟩
    · rintro e (rfl | he) e' (rfl | he') a hh hh'
      · rfl
      · exact absurd hh (hs.unshared ha he' hh')
      · exact absurd hh' (hs.unshared ha he hh)
      · exact hs.apart e he e' he' a hh hh'
    · intro p hflag hstate
      obtain ⟨hflag', hstate', hout⟩ := hreleased p hflag hstate
      rintro e (rfl | he) a hh
      · rw [hpo]
        rintro rfl
        exact hout (pageOf_between s.heap.om hh.1 hh.2)
      · rw [hpo]
        exact hs.released p hflag' hstate' e he a hh
  | die dead =>
    exact ⟨hs.placed, fun e he => hs.inside e he.1,
      fun e he e' he' => hs.apart e he.1 e' he'.1,
      fun p hflag hstate e he => hs.released p hflag hstate e he.1⟩
  | release pageId =>
    unfold Arena.step
    simp only
    unfold omReleasePage
    split
    · have hp := hs.placed
      refine ⟨⟨hp.aboveFirstPage, hp.startAligned, hp.freeAligned, hp.startFree, hp.freeLimit,
        hp.limitStop, hp.stopBound, hp.pages⟩, hs.inside, hs.apart, ?_⟩
      intro p hflag hstate e he a hh
      rcases eq_or_ne p pageId with rfl | hne
      · exact hlegal e he a hh
      · have hpage : (s.heap.om.setPage pageId { Page.fresh with reusable := true }).page p
            = s.heap.om.page p := Function.update_of_ne hne _ _
        simp only [hpage] at hflag hstate
        exact hs.released p hflag hstate e he a hh
    · exact hs

theorem Arena.initial_inv (buffer : Buffer) (m : Mem) : (Arena.initial buffer m).Inv :=
  ⟨(omInit_layout buffer m).placed, fun e he => absurd he (Set.notMem_empty e),
    fun e he => absurd he (Set.notMem_empty e),
    fun p hflag => absurd hflag (by simp [Arena.initial, omInit, Page.fresh])⟩

/-- What the invariant says of the next allocation. -/
theorem Arena.Inv.event {s : Arena} (hs : s.Inv) (event : ArenaEvent) : event.Apart s := by
  cases event with
  | alloc req =>
    intro obj h' ha
    obtain ⟨halign, hlo, hfits, -⟩ := omAlloc_place hs.placed ha
    exact ⟨halign, hlo, by rw [← hs.placed.limitStop]; exact hfits,
      fun e he a hh => hs.unshared ha he hh⟩
  | die dead => trivial
  | release pageId => trivial

/-- **Objects are apart.**  On a fresh object memory, in every run that releases only
pages without a part of a live object, and in which no allocation into a released
page reaches past the bump pointer, every object lies aligned inside the heap and
shares no byte with a live one. -/
theorem allocations_apart (buffer : Buffer) (m : Mem) (events : List ArenaEvent)
    (hlegal : AtEvery Arena.step (fun s e => e.Legal s) (Arena.initial buffer m) events)
    (hbelow : AtEvery Arena.step (fun s e => e.BelowBump s) (Arena.initial buffer m) events) :
    AtEvery Arena.step (fun s e => e.Apart s) (Arena.initial buffer m) events :=
  AtEvery.imp Arena.Inv (fun _ event hs hmeets => hs.step event hmeets) (fun _ event hs _ => hs.event event)
    (Arena.initial_inv buffer m) (hlegal.and hbelow)

/-! ## §5. A released page under the bump pointer. -/

theorem smallBuffer_aboveFirstPage : pageBytes ≤ 65536 := by decide

theorem smallBuffer_aligned : 65536 % 8 = 0 := by decide

theorem smallBuffer_inUserSpace : 65536 + 8192 ≤ 2 ^ 63 := by decide

/-- A buffer of two pages. -/
def smallBuffer : Buffer where
  addr := 65536
  size := 8192
  aboveFirstPage := smallBuffer_aboveFirstPage
  aligned := smallBuffer_aligned
  inUserSpace := smallBuffer_inUserSpace

/-- An object of three fields. -/
def threeFields : AllocRequest where
  classPtr := 0
  format := formatFields
  size := 3
  roundsUp := fun hf => absurd hf (by decide)
  fits := by decide

/-- An object of ten fields. -/
def tenFields : AllocRequest where
  classPtr := 0
  format := formatFields
  size := 10
  roundsUp := fun hf => absurd hf (by decide)
  fits := by decide

/-- The fresh memory on the buffer. -/
def smallArena : Arena := Arena.initial smallBuffer (fun _ => 0)

/-- The first object dies and its page is released. -/
def releaseBump : List ArenaEvent := [.alloc threeFields, .die Set.univ, .release 0]

/-- The released page takes a larger object than the one that was there. -/
def overrun : List ArenaEvent := releaseBump ++ [.alloc tenFields, .alloc threeFields]

/-- The released page takes an object of the same size. -/
def noOverrun : List ArenaEvent := releaseBump ++ [.alloc threeFields, .alloc tenFields]

theorem releaseBump_legal :
    AtEvery Arena.step (fun s e => e.Legal s) smallArena releaseBump := by
  refine ⟨trivial, trivial, ?_, trivial⟩
  intro e he
  exact absurd (Set.mem_univ e) he.2

/-- An allocation that takes a page known beforehand is below the bump pointer when
its end is. -/
theorem belowBump_of_scan {s : Arena} {req : AllocRequest} (scan : Option Nat)
    (hscan : reusablePage s.heap.om req.totalBytes = scan)
    (hend : ∀ p, scan = some p → omPageStart s.heap.om p + req.totalBytes ≤ s.heap.om.free) :
    (ArenaEvent.alloc req).BelowBump s := by
  intro p hreuse _
  exact hend p (hscan.symm.trans hreuse)

/-- Without the overrun the objects are apart. -/
theorem noOverrun_apart : AtEvery Arena.step (fun s e => e.Apart s) smallArena noOverrun := by
  refine allocations_apart smallBuffer (fun _ => 0) noOverrun ?_ ?_
  · exact AtEvery.append.mpr ⟨releaseBump_legal, trivial, trivial, trivial⟩
  · refine ⟨belowBump_of_scan none (by decide +kernel) (fun p hp => nomatch hp),
      trivial, trivial, belowBump_of_scan (some 0) (by decide +kernel) ?_,
      belowBump_of_scan none (by decide +kernel) (fun p hp => nomatch hp), trivial⟩
    rintro p hp
    obtain rfl : 0 = p := Option.some.inj hp
    decide +kernel

/-- The memory with its page released. -/
def releasedArena : Arena := releaseBump.foldl Arena.step smallArena

/-- An allocation at a known place. -/
theorem Arena.step_alloc (s : Arena) (req : AllocRequest) (obj : Nat)
    (hobj : (omAlloc s.heap req).map Prod.fst = some obj) :
    ∃ h', omAlloc s.heap req = some (obj, h') ∧
      s.step (.alloc req) = { heap := h', live := insert ⟨obj, req.totalBytes⟩ s.live } := by
  obtain ⟨⟨obj', h'⟩, halloc, rfl⟩ := Option.map_eq_some_iff.mp hobj
  refine ⟨h', halloc, ?_⟩
  simp only [Arena.step, halloc]

/-- With the overrun the last object lies across the one before it. -/
theorem overrun_overlaps : AtEvery Arena.step (fun s e => e.Legal s) smallArena overrun ∧
    ¬ AtEvery Arena.step (fun s e => e.Apart s) smallArena overrun := by
  refine ⟨AtEvery.append.mpr ⟨releaseBump_legal, trivial, trivial, trivial⟩, ?_⟩
  intro hapart
  obtain ⟨-, hlast, -⟩ := (AtEvery.append.mp hapart).2
  -- the object of ten fields begins the page, the next one goes to the old bump pointer
  obtain ⟨h', -, hstep⟩ := Arena.step_alloc releasedArena tenFields
    65536 (by decide +kernel)
  obtain ⟨h'', halloc, -⟩ := Arena.step_alloc (releasedArena.step (.alloc tenFields)) threeFields
    65584 (by decide +kernel)
  have hlive : (⟨65536, 104⟩ : Extent) ∈ (releasedArena.step (.alloc tenFields)).live := by
    rw [hstep]
    exact Set.mem_insert _ _
  have hshared := (hlast 65584 h'' halloc).2.2.2 ⟨65536, 104⟩ hlive 65600
  exact hshared ⟨by decide, by decide⟩ ⟨by decide, by decide⟩

end LivingObjects.ObjectMemory
