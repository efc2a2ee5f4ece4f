/-
  LivingObjects.ObjectMemory.Walkable — what keeps the walk over the heap going.

  `om_next_object` takes the size of an object from the object itself.  Code that only
  allocates and edits bodies (`Builds`) keeps the page tables and the sizes in step, so
  that the walk goes on to visit exactly the objects; an object whose size word says
  fewer words than were allocated sends the walk into its own old body
  (`not_walkable_of_truncated`).
-/
import LivingObjects.ObjectMemory.Bodies
import LivingObjects.ObjectMemory.HeapWalk

namespace LivingObjects.ObjectMemory

open LivingObjects.Lib
open LivingObjects.VM

/-! ## §1. Walkable heaps. -/

/-- The walk from the first object visits exactly the allocated objects, each once. -/
def Walkable (h : Heap) (live : Set Extent) : Prop :=
  ∃ addrs, Visits h.om h.mem (walkStart h.om) addrs ∧ addrs.Pairwise (· < ·) ∧
    ∀ a, a ∈ addrs ↔ ∃ e ∈ live, e.addr = a

/-- The tables and the headers describe the allocated objects, and no size of a byte
object wraps when it is rounded up to words. -/
structure Kept (h : Heap) (live : Set Extent) : Prop where
  layout : Layout h live
  entered : Entered h.om live
  sized : ∀ e ∈ live, objFormat h.mem e.addr = formatBytes →
    (objSize h.mem e.addr).toNat + 7 < 2 ^ 64

theorem Kept.walkable {h : Heap} {live : Set Extent} (hk : Kept h live) : Walkable h live :=
  visits_all hk.layout hk.entered

theorem omInit_kept (buffer : Buffer) (m : Mem) :
    Kept (Arena.initial buffer m).heap (Arena.initial buffer m).live where
  layout := (Arena.initial_tabled buffer m).layout
  entered := (Arena.initial_tabled buffer m).entered
  sized := fun e he => absurd he (Set.notMem_empty e)

/-! ## §2. Allocations and edits. -/

/-- The formats of the objects stay, and of the tables all but the dirty bits.  A size
may get smaller, but says as many words as before. -/
structure Edits (live : Set Extent) (h h' : Heap) : Prop where
  tables : SameButDirty h.om h'.om
  format : ∀ e ∈ live, objFormat h'.mem e.addr = objFormat h.mem e.addr
  size : ∀ e ∈ live, (objSize h'.mem e.addr).toNat ≤ (objSize h.mem e.addr).toNat
  words : ∀ e ∈ live, objectSlotCount h'.mem e.addr = objectSlotCount h.mem e.addr

/-- A heap and its objects after some allocations and edits. -/
inductive Builds : Heap → Set Extent → Heap → Set Extent → Prop
  | done {h : Heap} {live : Set Extent} : Builds h live h live
  | alloc {h h₁ h' : Heap} {live live' : Set Extent} {req : AllocRequest} {obj : Nat}
      (ha : omAlloc h req = some (obj, h₁))
      (rest : Builds h₁ (insert ⟨obj, req.totalBytes⟩ live) h' live') : Builds h live h' live'
  | edit {h h₁ h' : Heap} {live live' : Set Extent} (he : Edits live h h₁)
      (rest : Builds h₁ live h' live') : Builds h live h' live'

section Steps

variable {h h' h'' : Heap} {live live' live'' : Set Extent}

theorem Builds.of_edit (he : Edits live h h') : Builds h live h' live := .edit he .done

theorem Builds.trans (hb : Builds h live h' live') (hb' : Builds h' live' h'' live'') :
    Builds h live h'' live'' := by
  induction hb with
  | done => exact hb'
  | alloc ha _ ih => exact .alloc ha (ih hb')
  | edit he _ ih => exact .edit he (ih hb')

/-- Entries that differ in dirty bits say the same. -/
theorem Entered.congr {om om' : Om} (hent : Entered om live) (hom : SameButDirty om om') :
    Entered om' live := by
  have hpageOf : ∀ a, om'.pageOf a = om.pageOf a := by
    intro a
    unfold Om.pageOf
    rw [hom.start]
  have hon : ∀ (e : Extent) p, e.OnPage om' p ↔ e.OnPage om p := by
    intro e p
    unfold Extent.OnPage Om.pageStart
    rw [hom.start]
  constructor
  · intro e he
    rw [hpageOf, hom.first]
    exact hent.first e he
  · intro e he p hp
    rw [hom.covering]
    exact hent.covering e he p ((hon e p).mp hp)
  · intro p
    rw [hom.state, hent.head p]
    exact exists_congr fun e => and_congr_right fun _ => by rw [hpageOf]
  · intro p
    rw [hom.state, hent.free p]
    exact not_congr (exists_congr fun e => and_congr_right fun _ => (hon e p).symm)

theorem Kept.edit (hk : Kept h live) (he : Edits live h h') : Kept h' live where
  layout := hk.layout.congr he.tables he.words
  entered := hk.entered.congr he.tables
  sized := by
    intro e hlive hformat
    rw [he.format e hlive] at hformat
    have hold := hk.sized e hlive hformat
    have hsize := he.size e hlive
    omega

theorem Kept.alloc (hk : Kept h live) {req : AllocRequest} {obj : Nat}
    (ha : omAlloc h req = some (obj, h')) : Kept h' (insert ⟨obj, req.totalBytes⟩ live) := by
  have htabled := Arena.Tabled.sweep (s := ⟨h, live⟩) ⟨hk.layout, hk.entered⟩ (.alloc req) trivial
  have hstep : Arena.sweep ⟨h, live⟩ (.alloc req) = ⟨h', insert ⟨obj, req.totalBytes⟩ live⟩ := by
    simp only [Arena.sweep, Arena.step, ha]
  rw [hstep] at htabled
  refine ⟨htabled.layout, htabled.entered, ?_⟩
  obtain ⟨-, hwritten, -⟩ := omAlloc_scan ha
  rintro e (rfl | he) hformat
  · -- the new object has the size of the request
    show (objSize h'.mem obj).toNat + 7 < 2 ^ 64
    replace hformat : objFormat h'.mem obj = formatBytes := hformat
    rw [hwritten, objFormat_writeObject] at hformat
    rw [hwritten, objSize_writeObject]
    exact req.roundsUp hformat
  · have hsame := omAlloc_sameBytes hk.layout ha he
    have hroom := (hk.layout.objects e he).nonempty
    rw [hsame.format hroom] at hformat
    rw [hsame.size hroom]
    exact hk.sized e he hformat

/-- **Allocations and edits keep the heap in order.** -/
theorem Builds.kept (hb : Builds h live h' live') (hk : Kept h live) : Kept h' live' := by
  induction hb with
  | done => exact hk
  | alloc ha _ ih => exact ih (hk.alloc ha)
  | edit he _ ih => exact ih (hk.edit he)

/-- The old objects stay, with their formats. -/
theorem Builds.old (hb : Builds h live h' live') (hk : Kept h live) :
    live ⊆ live' ∧ ∀ e ∈ live, objFormat h'.mem e.addr = objFormat h.mem e.addr := by
  induction hb with
  | done => exact ⟨Set.Subset.rfl, fun _ _ => rfl⟩
  | alloc ha _ ih =>
    obtain ⟨hsub, hformat⟩ := ih (hk.alloc ha)
    refine ⟨(Set.subset_insert _ _).trans hsub, fun e he => ?_⟩
    rw [hformat e (Set.mem_insert_of_mem _ he)]
    exact (omAlloc_sameBytes hk.layout ha he).format (hk.layout.objects e he).nonempty
  | edit hedit _ ih =>
    obtain ⟨hsub, hformat⟩ := ih (hk.edit hedit)
    refine ⟨hsub, fun e he => ?_⟩
    rw [hformat e he]
    exact hedit.format e he

/-- Stores into class words and bodies are edits. -/
theorem edits_of_bodies (hk : Kept h live) {om : Om} (hom : SameButDirty h.om om) {m : Mem}
    (hm : ∀ a, (∀ e ∈ live, a < e.addr ∨ (e.addr + 8 ≤ a ∧ a < e.addr + 24) ∨
      e.addr + e.bytes ≤ a) → m a = h.mem a) :
    Edits live h { om := om, mem := m } where
  tables := hom
  format := fun _ he => (headers_kept hk.layout hm he).1
  size := fun _ he => Nat.le_of_eq (congrArg UInt64.toNat (headers_kept hk.layout hm he).2)
  words := by
    intro e he
    obtain ⟨hformat, hsize⟩ := headers_kept hk.layout hm he
    exact objectSlotCount_congr hformat hsize

/-- Stores into the body of one object are edits. -/
theorem edits_of_body (hk : Kept h live) {om : Om} (hom : SameButDirty h.om om) {m : Mem}
    {e : Extent} (he : e ∈ live)
    (hm : ∀ a, a < e.addr + 24 ∨ e.addr + e.bytes ≤ a → m a = h.mem a) :
    Edits live h { om := om, mem := m } := by
  refine edits_of_bodies hk hom fun a ha => hm a ?_
  rcases ha e he with hbelow | ⟨-, hheader⟩ | hbehind
  · exact .inl (by omega)
  · exact .inl hheader
  · exact .inr hbehind

end Steps

/-! ## §3. A size word that says too little. -/

theorem Visits.start {om : Om} {m : Mem} {start : Nat} {addrs : List Nat}
    (hv : Visits om m start addrs) : start = 0 ∨ start ∈ addrs := by
  cases hv with
  | stop => exact .inl rfl
  | visit => exact .inr List.mem_cons_self

/-- After a visited object comes the end or a visited object. -/
theorem Visits.next {om : Om} {m : Mem} {start : Nat} {addrs : List Nat}
    (hv : Visits om m start addrs) {a : Nat} (ha : a ∈ addrs) :
    omNextObject om m a = 0 ∨ omNextObject om m a ∈ addrs := by
  induction hv with
  | stop => exact absurd ha List.not_mem_nil
  | visit hne hrest ih =>
    rcases List.mem_cons.mp ha with rfl | hin
    · exact hrest.start.imp id fun hmem => List.mem_cons_of_mem _ hmem
    · exact (ih hin).imp id fun hmem => List.mem_cons_of_mem _ hmem

/-- From an object whose header says too little the walk goes into its old body. -/
theorem omNextObject_truncated {h : Heap} {live : Set Extent} (hl : Layout h live) {e : Extent}
    (he : e ∈ live) {m : Mem} (hshort : omObjectBytes m e.addr < e.bytes) :
    omNextObject h.om m e.addr = e.addr + omObjectBytes m e.addr := by
  have hobj := hl.objects e he
  have hp := hl.placed
  have habove := hobj.above
  have hbelow := hobj.below
  have hstart := hp.aboveFirstPage
  have hbound := hp.stopBound
  have hlimit := hp.limitStop
  have hfree := hp.freeLimit
  have hnext : wrap64 (e.addr + omObjectBytes m e.addr) = e.addr + omObjectBytes m e.addr :=
    wrap64_of_lt (by omega)
  have hlo : h.om.start ≤ e.addr + omObjectBytes m e.addr := by omega
  have hhi : e.addr + omObjectBytes m e.addr < h.om.stop := by omega
  have hpage := hp.pageOf_lt hlo hhi
  -- the old body is in the used part of its pages
  have hused := (hl.covered _ hlo).mp ⟨e, he, by omega, by omega⟩
  unfold pageBytes at hstart
  unfold omNextObject
  rw [if_neg (by omega), hnext]
  simp only
  rw [if_neg (by omega), hp.pageId hlo hhi]
  simp only
  rw [hp.pageStart hpage, sub_pageStart h.om hlo, omPageUsedBytes, if_pos hpage, if_pos hused]

/-- **A truncated object ends the walk's order**: one of the addresses it visits is no
object. -/
theorem not_walkable_of_truncated {h : Heap} {live : Set Extent} (hl : Layout h live) {e : Extent}
    (he : e ∈ live) {m : Mem} (hshort : omObjectBytes m e.addr < e.bytes)
    (hheader : 24 ≤ omObjectBytes m e.addr) : ¬ Walkable { h with mem := m } live := by
  rintro ⟨addrs, hvisits, -, hmem⟩
  have hnext := omNextObject_truncated hl he hshort
  rcases hvisits.next ((hmem e.addr).mpr ⟨e, he, rfl⟩) with hzero | hin
  · rw [hnext] at hzero
    omega
  · rw [hnext] at hin
    obtain ⟨e', he', haddr⟩ := (hmem _).mp hin
    -- the address lies inside the object and would be another one
    have hsize := (hl.objects e' he').nonempty
    have hsame := hl.disjoint e he e' he' e'.addr ⟨by omega, by omega⟩ ⟨by omega, by omega⟩
    rw [← hsame] at haddr
    omega

end LivingObjects.ObjectMemory
