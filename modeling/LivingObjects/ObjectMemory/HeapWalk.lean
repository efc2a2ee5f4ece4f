/-
  LivingObjects.ObjectMemory.HeapWalk — the page tables and the walk over the heap.

  A heap takes allocations and releases of sets of pages that lie below the bump
  pointer's page and hold every page of each object on them.  The page tables then
  describe the remaining objects exactly (`Describes`), and `om_next_object`, from
  the covering object of the lowest page in use, visits each of them once in the
  order of their addresses and stops (`heap_described`).

  `Layout` already ties the used counts to the bytes of the objects; `Entered` adds
  that the recorded objects are the lowest ones and what the states say.
-/
import Mathlib
import LivingObjects.ObjectMemory.Apart

namespace LivingObjects.ObjectMemory

open LivingObjects.Lib
open LivingObjects.VM

/-! ## §1. What the tables should say. -/

/-- The object has a byte on the page. -/
def Extent.OnPage (om : Om) (e : Extent) (p : Nat) : Prop :=
  e.addr < om.pageStart (p + 1) ∧ om.pageStart p < e.addr + e.bytes

/-- The object starts on the page. -/
def Extent.StartsOn (om : Om) (e : Extent) (p : Nat) : Prop :=
  om.pageStart p ≤ e.addr ∧ e.addr < om.pageStart (p + 1)

/-- An entry records the lowest of some addresses, or 0 when there is none. -/
def Records (addresses : Set Nat) (entry : Nat) : Prop :=
  (addresses = ∅ ∧ entry = 0) ∨ IsLeast addresses entry

/-- The bytes of the page up to the end of the object. -/
def Extent.reach (om : Om) (e : Extent) (p : Nat) : Nat :=
  min (e.addr + e.bytes) (om.pageStart (p + 1)) - om.pageStart p

/-- The entries of a page describe the objects. -/
structure Describes (om : Om) (objects : Set Extent) (p : Nat) : Prop where
  used : IsGreatest (insert 0 {n | ∃ e ∈ objects, e.OnPage om p ∧ e.reach om p = n})
    (omPageUsedBytes om p)
  first : Records {a | ∃ e ∈ objects, e.StartsOn om p ∧ e.addr = a} (omPageFirstObjectStart om p)
  covering : Records {a | ∃ e ∈ objects, e.OnPage om p ∧ e.addr = a} (omPageCoveringObject om p)
  head : omPageState om p = .head ↔ ∃ e ∈ objects, e.StartsOn om p
  continuation : omPageState om p = .continuation ↔
    (∃ e ∈ objects, e.OnPage om p) ∧ ¬ ∃ e ∈ objects, e.StartsOn om p
  free : omPageState om p = .free ↔ ¬ ∃ e ∈ objects, e.OnPage om p

/-- Iterating `om_next_object` from an address visits these addresses and stops. -/
inductive Visits (om : Om) (m : Mem) : Nat → List Nat → Prop
  | stop : Visits om m 0 []
  | visit {a : Nat} {rest : List Nat} (hne : a ≠ 0) (hrest : Visits om m (omNextObject om m a) rest) :
      Visits om m a (a :: rest)

/-- The covering object of the lowest page that is not free; 0 when all are. -/
def walkStart (om : Om) : Nat :=
  match (List.range om.pageCount).find? (fun p => omPageState om p != .free) with
  | some p => omPageCoveringObject om p
  | none => 0

/-! ## §2. Events. -/

/-- A call on the object memory; a release is of a set of pages. -/
inductive SweepEvent where
  | alloc (req : AllocRequest)
  | release (pages : List Nat)

/-- One event.  The objects that remain are those not on a released page. -/
def Arena.sweep (s : Arena) : SweepEvent → Arena
  | .alloc req => s.step (.alloc req)
  | .release pages =>
    { heap := { s.heap with om := omReleasePages s.heap.om pages }
      live := {e ∈ s.live | s.heap.om.pageOf e.addr ∉ pages} }

/-- Released pages lie below the bump pointer's page and hold every page of each
object on them. -/
def SweepEvent.Legal (s : Arena) : SweepEvent → Prop
  | .alloc _ => True
  | .release pages => (∀ p ∈ pages, p < s.heap.om.pageOf s.heap.om.free) ∧
      ∀ e ∈ s.live, ∀ p ∈ pages, e.OnPage s.heap.om p → ∀ q, e.OnPage s.heap.om q → q ∈ pages

/-! ## §3. The entries that are lowest. -/

/-- The recorded objects are the lowest ones, and the states say what is there. -/
structure Entered (om : Om) (live : Set Extent) : Prop where
  first : ∀ e ∈ live, (om.page (om.pageOf e.addr)).first ≠ 0 ∧
    (om.page (om.pageOf e.addr)).first ≤ e.addr
  covering : ∀ e ∈ live, ∀ p, e.OnPage om p →
    (om.page p).covering ≠ 0 ∧ (om.page p).covering ≤ e.addr
  head : ∀ p, (om.page p).state = .head ↔ ∃ e ∈ live, om.pageOf e.addr = p
  free : ∀ p, (om.page p).state = .free ↔ ¬ ∃ e ∈ live, e.OnPage om p

theorem onPage_iff {om : Om} {e : Extent} (habove : om.start ≤ e.addr) {p : Nat} :
    e.OnPage om p ↔ om.pageOf e.addr ≤ p ∧ om.pageStart p < e.addr + e.bytes := by
  unfold Extent.OnPage Om.pageOf Om.pageStart pageBytes
  omega

theorem startsOn_iff {om : Om} {e : Extent} (habove : om.start ≤ e.addr) {p : Nat} :
    e.StartsOn om p ↔ om.pageOf e.addr = p := by
  unfold Extent.StartsOn Om.pageOf Om.pageStart pageBytes
  omega

theorem onPage_of_holds {om : Om} {e : Extent} (habove : om.start ≤ e.addr) {a : Nat}
    (hh : e.Holds a) : e.OnPage om (om.pageOf a) := by
  obtain ⟨hlo, hhi⟩ := hh
  unfold Extent.OnPage Om.pageOf Om.pageStart pageBytes
  omega

section Tables

variable {h : Heap} {live : Set Extent}

/-- What lies below a live object on its page belongs to live objects. -/
theorem Layout.filled (hl : Layout h live) {e : Extent} (he : e ∈ live) {a b : Nat}
    (hb : e.Holds b) (ha : h.om.start ≤ a) (hab : a ≤ b)
    (hpage : h.om.pageOf a = h.om.pageOf b) : ∃ e' ∈ live, e'.Holds a := by
  have hused := (hl.covered b (by omega)).mp ⟨e, he, hb⟩
  refine (hl.covered a ha).mpr ?_
  rw [hpage]
  unfold Om.pageOf pageBytes at *
  omega

/-- A page that holds an object but is not its first one starts inside the object. -/
theorem holds_pageStart {om : Om} {e : Extent} (habove : om.start ≤ e.addr) {p : Nat}
    (hon : e.OnPage om p) (hne : om.pageOf e.addr ≠ p) : e.Holds (om.pageStart p) := by
  unfold Extent.OnPage Extent.Holds Om.pageOf Om.pageStart pageBytes at *
  omega

/-- The last byte of an object on a page it reaches. -/
theorem exists_top {om : Om} {e : Extent} (hsize : 0 < e.bytes) {p : Nat}
    (hon : e.OnPage om p) :
    ∃ b, e.Holds b ∧ om.pageOf b = p ∧ b + 1 = om.pageStart p + e.reach om p := by
  unfold Extent.OnPage Extent.reach Extent.Holds Om.pageOf Om.pageStart pageBytes at *
  refine ⟨om.start + p * 4096
    + (min (e.addr + e.bytes) (om.start + (p + 1) * 4096) - (om.start + p * 4096)) - 1, ?_, ?_, ?_⟩
  · omega
  · omega
  · omega

/-- Nothing live is above a new object on one of its pages. -/
theorem below_new (hl : Layout h live) {obj total : Nat} (hlo : h.om.start ≤ obj)
    (hpos : 0 < total)
    (hunused : ∀ a, obj ≤ a → a < obj + total → ¬ ∃ e ∈ live, e.Holds a) {e : Extent}
    (he : e ∈ live) (hpage : h.om.pageOf e.addr ≤ h.om.pageOf (obj + total - 1)) :
    e.addr < obj := by
  have hsize := (hl.objects e he).nonempty
  have hself : e.Holds e.addr := ⟨Nat.le_refl _, by omega⟩
  by_contra hge
  by_cases hin : e.addr < obj + total
  · exact hunused e.addr (by omega) hin ⟨e, he, hself⟩
  · -- the object starts behind the new one on its last page
    have hsame : h.om.pageOf (obj + total - 1) = h.om.pageOf e.addr := by
      refine Nat.le_antisymm ?_ hpage
      unfold Om.pageOf
      exact Nat.div_le_div_right (by omega)
    exact hunused (obj + total - 1) (by omega) (by omega)
      (hl.filled he hself (by omega) (by omega) hsame)

/-- A page a new object continues on has no live object. -/
theorem clear_new (hl : Layout h live) {obj total : Nat} (hlo : h.om.start ≤ obj)
    (hunused : ∀ a, obj ≤ a → a < obj + total → ¬ ∃ e ∈ live, e.Holds a) {p : Nat}
    (hafter : h.om.pageOf obj < p) (hlast : p ≤ h.om.pageOf (obj + total - 1)) {e : Extent}
    (he : e ∈ live) : ¬ e.OnPage h.om p := by
  intro hon
  have hsize := (hl.objects e he).nonempty
  have habove := (hl.objects e he).above
  obtain ⟨b, hb, hpage, -⟩ := exists_top (by omega) hon
  have hstart : h.om.pageOf (h.om.pageStart p) = p := by
    unfold Om.pageOf Om.pageStart pageBytes
    omega
  refine hunused (h.om.pageStart p) ?_ ?_ (hl.filled he hb ?_ ?_ (hstart.trans hpage.symm)) <;>
    unfold Om.pageOf Om.pageStart pageBytes at * <;> omega

/-- **Entering a new object** keeps the entries lowest. -/
theorem Entered.insert (hl : Layout h live) (hent : Entered h.om live) {obj total : Nat}
    (hlo : h.om.start ≤ obj) (hpos : 0 < total) (hhi : obj + total ≤ h.om.stop)
    (hunused : ∀ a, obj ≤ a → a < obj + total → ¬ ∃ e ∈ live, e.Holds a) {om : Om}
    (hstart : om.start = h.om.start) (hpages : om.page = (noteObject h.om obj total).page) :
    Entered om (insert ⟨obj, total⟩ live) := by
  have hnote := hl.placed.noteObject hlo hpos hhi
  have hpo : ∀ a, om.pageOf a = h.om.pageOf a := by
    intro a
    unfold Om.pageOf
    rw [hstart]
  have honpage : ∀ (e : Extent) (p : Nat), e.OnPage om p ↔ e.OnPage h.om p := by
    intro e p
    unfold Extent.OnPage Om.pageStart
    rw [hstart]
  have hinside : ∀ p, h.om.pageOf obj ≤ p → p ≤ h.om.pageOf (obj + total - 1) →
      om.page p = notedPage h.om obj total (h.om.pageOf obj) p := by
    intro p hfrom hto
    rw [hpages, hnote]
    exact if_pos ⟨hfrom, hto⟩
  have houtside : ∀ p, ¬ (h.om.pageOf obj ≤ p ∧ p ≤ h.om.pageOf (obj + total - 1)) →
      om.page p = h.om.page p := by
    intro p hout
    rw [hpages, hnote]
    exact if_neg hout
  have hnew : ∀ p, (⟨obj, total⟩ : Extent).OnPage h.om p ↔
      h.om.pageOf obj ≤ p ∧ p ≤ h.om.pageOf (obj + total - 1) := by
    intro p
    unfold Extent.OnPage Om.pageOf Om.pageStart pageBytes
    simp only
    omega
  have hspan : h.om.pageOf obj ≤ h.om.pageOf (obj + total - 1) := by
    unfold Om.pageOf
    exact Nat.div_le_div_right (by omega)
  have hobj : obj ≠ 0 := by
    have hfirstPage := hl.placed.aboveFirstPage
    unfold pageBytes at hfirstPage
    omega
  constructor
  · rintro e (rfl | he)
    · rw [hpo, hinside _ (Nat.le_refl _) hspan]
      simp only [notedPage]
      by_cases hold : (h.om.page (h.om.pageOf obj)).first = 0
      · rw [if_pos ⟨trivial, hold⟩]
        exact ⟨hobj, Nat.le_refl _⟩
      · rw [if_neg (fun hc => hold hc.2)]
        obtain ⟨e', he', haddr, hpage⟩ := hl.first _ hold
        have hbelow := below_new hl hlo hpos hunused he' (by omega)
        exact ⟨hold, by omega⟩
    · obtain ⟨hne, hle⟩ := hent.first e he
      rw [hpo]
      by_cases hin : h.om.pageOf obj ≤ h.om.pageOf e.addr ∧
          h.om.pageOf e.addr ≤ h.om.pageOf (obj + total - 1)
      · rw [hinside _ hin.1 hin.2]
        simp only [notedPage]
        rw [if_neg (fun hc => hne hc.2)]
        exact ⟨hne, hle⟩
      · rw [houtside _ hin]
        exact ⟨hne, hle⟩
  · rintro e (rfl | he) p
    · rw [honpage, hnew]
      rintro ⟨hfrom, hto⟩
      rw [hinside p hfrom hto]
      simp only [notedPage]
      by_cases hold : (h.om.page p).covering = 0
      · rw [if_pos hold]
        exact ⟨hobj, Nat.le_refl _⟩
      · rw [if_neg hold]
        obtain ⟨e', he', haddr, hpage, -⟩ := hl.covering p hold
        have hbelow := below_new hl hlo hpos hunused he' (by omega)
        exact ⟨hold, by omega⟩
    · rw [honpage]
      intro hon
      obtain ⟨hne, hle⟩ := hent.covering e he p hon
      by_cases hin : h.om.pageOf obj ≤ p ∧ p ≤ h.om.pageOf (obj + total - 1)
      · rw [hinside p hin.1 hin.2]
        simp only [notedPage]
        rw [if_neg hne]
        exact ⟨hne, hle⟩
      · rw [houtside p hin]
        exact ⟨hne, hle⟩
  · intro p
    simp only [hpo]
    by_cases hin : h.om.pageOf obj ≤ p ∧ p ≤ h.om.pageOf (obj + total - 1)
    · rw [hinside p hin.1 hin.2]
      simp only [notedPage]
      by_cases hfirst : p = h.om.pageOf obj
      · rw [if_pos hfirst]
        exact ⟨fun _ => ⟨⟨obj, total⟩, .inl rfl, hfirst.symm⟩, fun _ => rfl⟩
      · -- a page the object continues on: nothing starts there
        rw [if_neg hfirst]
        refine ⟨fun hc => (by cases hc), ?_⟩
        rintro ⟨e, rfl | he, rfl⟩
        · exact absurd rfl hfirst
        · have hsize := (hl.objects e he).nonempty
          exact absurd (onPage_of_holds (hl.objects e he).above ⟨Nat.le_refl _, by omega⟩)
            (clear_new hl hlo hunused (by omega) hin.2 he)
    · rw [houtside p hin, hent.head p]
      constructor
      · rintro ⟨e, he, hpage⟩
        exact ⟨e, .inr he, hpage⟩
      · rintro ⟨e, rfl | he, hpage⟩
        · exact absurd ⟨by rw [← hpage], by rw [← hpage]; exact hspan⟩ hin
        · exact ⟨e, he, hpage⟩
  · intro p
    simp only [honpage]
    by_cases hin : h.om.pageOf obj ≤ p ∧ p ≤ h.om.pageOf (obj + total - 1)
    · rw [hinside p hin.1 hin.2]
      refine ⟨fun hc => ?_, fun hno => absurd ⟨⟨obj, total⟩, .inl rfl, (hnew p).mpr hin⟩ hno⟩
      simp only [notedPage] at hc
      split at hc <;> cases hc
    · rw [houtside p hin, hent.free p]
      constructor
      · rintro hno ⟨e, rfl | he, hon⟩
        · exact hin ((hnew p).mp hon)
        · exact hno ⟨e, he, hon⟩
      · rintro hno ⟨e, he, hon⟩
        exact hno ⟨e, .inr he, hon⟩

/-- **Releasing pages** that hold every page of each object on them keeps the
entries lowest. -/
theorem Entered.release (hl : Layout h live) (hent : Entered h.om live) {pages : List Nat}
    (hin : ∀ p ∈ pages, p < h.om.pageCount)
    (hwhole : ∀ e ∈ live, ∀ p ∈ pages, e.OnPage h.om p → ∀ q, e.OnPage h.om q → q ∈ pages)
    {om : Om} (hom : Released h.om pages om) :
    Entered om {e ∈ live | h.om.pageOf e.addr ∉ pages} := by
  have hpo : ∀ a, om.pageOf a = h.om.pageOf a := by
    intro a
    unfold Om.pageOf
    rw [hom.start]
  have honpage : ∀ (e : Extent) (p : Nat), e.OnPage om p ↔ e.OnPage h.om p := by
    intro e p
    unfold Extent.OnPage Om.pageStart
    rw [hom.start]
  have hself : ∀ e ∈ live, e.OnPage h.om (h.om.pageOf e.addr) := by
    intro e he
    have hsize := (hl.objects e he).nonempty
    exact onPage_of_holds (hl.objects e he).above ⟨Nat.le_refl _, by omega⟩
  constructor
  · rintro e ⟨he, hout⟩
    rw [hpo, hom.outside _ hout]
    exact hent.first e he
  · rintro e ⟨he, hout⟩ p
    rw [honpage]
    intro hon
    have hpage : p ∉ pages := fun hp => hout (hwhole e he p hp hon _ (hself e he))
    rw [hom.outside p hpage]
    exact hent.covering e he p hon
  · intro p
    simp only [hpo]
    by_cases hpage : p ∈ pages
    · rw [hom.inside p hpage (hin p hpage)]
      refine ⟨fun hc => (nomatch hc), ?_⟩
      rintro ⟨e, ⟨-, hout⟩, rfl⟩
      exact absurd hpage hout
    · rw [hom.outside p hpage, hent.head p]
      constructor
      · rintro ⟨e, he, rfl⟩
        exact ⟨e, ⟨he, hpage⟩, rfl⟩
      · rintro ⟨e, ⟨he, -⟩, hstart⟩
        exact ⟨e, he, hstart⟩
  · intro p
    simp only [honpage]
    by_cases hpage : p ∈ pages
    · rw [hom.inside p hpage (hin p hpage)]
      refine ⟨fun _ => ?_, fun _ => rfl⟩
      rintro ⟨e, ⟨he, hout⟩, hon⟩
      exact hout (hwhole e he p hpage hon _ (hself e he))
    · rw [hom.outside p hpage, hent.free p]
      constructor
      · rintro hno ⟨e, ⟨he, -⟩, hon⟩
        exact hno ⟨e, he, hon⟩
      · rintro hno ⟨e, he, hon⟩
        refine hno ⟨e, ⟨he, fun hin' => hpage ?_⟩, hon⟩
        exact hwhole e he _ hin' (hself e he) p hon

/-! ## §4. The tables describe the objects. -/

theorem records_of_lowest {addresses : Set Nat} {entry : Nat}
    (hmem : entry ≠ 0 → entry ∈ addresses)
    (hle : ∀ a ∈ addresses, entry ≠ 0 ∧ entry ≤ a) : Records addresses entry := by
  by_cases hzero : entry = 0
  · refine .inl ⟨Set.eq_empty_iff_forall_notMem.mpr fun a ha => ?_, hzero⟩
    exact (hle a ha).1 hzero
  · exact .inr ⟨hmem hzero, fun a ha => (hle a ha).2⟩

/-- **The page tables describe the live objects.** -/
theorem Entered.describes (hl : Layout h live) (hent : Entered h.om live) {p : Nat}
    (hp : p < h.om.pageCount) : Describes h.om live p := by
  have habove := fun e he => (hl.objects e he).above
  constructor
  · rw [omPageUsedBytes, if_pos hp]
    have hreach : ∀ e ∈ live, e.OnPage h.om p → e.reach h.om p ≤ (h.om.page p).used := by
      intro e he hon
      have hsize := (hl.objects e he).nonempty
      obtain ⟨b, hb, hpage, htop⟩ := exists_top (by omega) hon
      have hused := (hl.covered b (by have := habove e he; have := hb.1; omega)).mp ⟨e, he, hb⟩
      rw [hpage] at hused
      unfold Om.pageOf Om.pageStart pageBytes at *
      omega
    constructor
    · rcases Nat.eq_zero_or_pos (h.om.page p).used with hzero | hpos
      · exact .inl hzero
      · -- the last used byte belongs to an object, which ends there
        have hbound := hl.usedBound p
        have hpage : h.om.pageOf (h.om.pageStart p + (h.om.page p).used - 1) = p := by
          unfold Om.pageOf Om.pageStart pageBytes at *
          omega
        have hge : h.om.start ≤ h.om.pageStart p + (h.om.page p).used - 1 := by
          unfold Om.pageStart
          omega
        obtain ⟨e, he, hh⟩ := (hl.covered _ hge).mpr (by
          rw [hpage]
          unfold Om.pageStart pageBytes at *
          omega)
        have hon := onPage_of_holds (habove e he) hh
        rw [hpage] at hon
        refine .inr ⟨e, he, hon, Nat.le_antisymm (hreach e he hon) ?_⟩
        have hend := hh.2
        unfold Extent.reach Om.pageStart pageBytes at *
        omega
    · rintro n (rfl | ⟨e, he, hon, rfl⟩)
      · exact Nat.zero_le _
      · exact hreach e he hon
  · rw [omPageFirstObjectStart, if_pos hp]
    apply records_of_lowest
    · intro hne
      obtain ⟨e, he, haddr, hpage⟩ := hl.first p hne
      exact ⟨e, he, (startsOn_iff (habove e he)).mpr hpage, haddr⟩
    · rintro a ⟨e, he, hstarts, rfl⟩
      have hpage := (startsOn_iff (habove e he)).mp hstarts
      rw [← hpage]
      exact hent.first e he
  · rw [omPageCoveringObject, if_pos hp]
    apply records_of_lowest
    · intro hne
      obtain ⟨e, he, haddr, hpage, hend⟩ := hl.covering p hne
      exact ⟨e, he, (onPage_iff (habove e he)).mpr ⟨hpage, hend⟩, haddr⟩
    · rintro a ⟨e, he, hon, rfl⟩
      exact hent.covering e he p hon
  · rw [omPageState, if_pos hp, hent.head p]
    exact exists_congr fun e => and_congr_right fun he => (startsOn_iff (habove e he)).symm
  · have hhead : (h.om.page p).state = .head ↔ ∃ e ∈ live, e.StartsOn h.om p := by
      rw [hent.head p]
      exact exists_congr fun e => and_congr_right fun he => (startsOn_iff (habove e he)).symm
    have hfree := hent.free p
    rw [omPageState, if_pos hp, ← hhead]
    rcases hstate : (h.om.page p).state with _ | _ | _
    · simp only [hstate, true_iff] at hfree
      simp [hfree]
    · simp
    · simp only [hstate, reduceCtorEq, false_iff, not_not] at hfree
      simp [hfree]
  · rw [omPageState, if_pos hp]
    exact hent.free p

/-! ## §5. The walk. -/

/-- The first object recorded after a page is the lowest one that starts later. -/
theorem firstObjectAfter_least (hl : Layout h live) (hent : Entered h.om live) (p : Nat) :
    (firstObjectAfter h.om p = 0 ∧ ∀ e ∈ live, h.om.pageOf e.addr ≤ p) ∨
    ∃ e ∈ live, firstObjectAfter h.om p = e.addr ∧
      ∀ e' ∈ live, p < h.om.pageOf e'.addr → e.addr ≤ e'.addr := by
  have hcount : ∀ e ∈ live, h.om.pageOf e.addr < h.om.pageCount := by
    intro e he
    have hsize := (hl.objects e he).nonempty
    have hbelow := (hl.objects e he).below
    have hfree := hl.placed.freeLimit
    have hlimit := hl.placed.limitStop
    exact hl.placed.pageOf_lt (hl.objects e he).above (by omega)
  unfold firstObjectAfter
  rcases hfind : (List.range h.om.pageCount).find?
      (fun q => p < q && (h.om.page q).first != 0) with _ | q
  · refine .inl ⟨rfl, fun e he => ?_⟩
    rw [List.find?_eq_none] at hfind
    by_contra hlater
    have hnone := hfind _ (List.mem_range.mpr (hcount e he))
    simp only [Bool.and_eq_true, decide_eq_true_eq, bne_iff_ne, not_and, not_not] at hnone
    exact (hent.first e he).1 (hnone (by omega))
  · rw [List.find?_range_eq_some] at hfind
    obtain ⟨hq, -, hbefore⟩ := hfind
    simp only [Bool.and_eq_true, decide_eq_true_eq, bne_iff_ne] at hq
    obtain ⟨e, he, haddr, hpage⟩ := hl.first q hq.2
    refine .inr ⟨e, he, haddr.symm, fun e' he' hlater => ?_⟩
    have hfirst := hent.first e' he'
    -- nothing starts on the pages between
    have hge : q ≤ h.om.pageOf e'.addr := by
      by_contra hlt
      have hnone := hbefore _ (Nat.lt_of_not_le hlt)
      simp only [Bool.not_eq_true', Bool.and_eq_false_iff, decide_eq_false_iff_not,
        bne_eq_false_iff_eq] at hnone
      rcases hnone with hnone | hnone
      · exact hnone hlater
      · exact hfirst.1 hnone
    rcases Nat.eq_or_lt_of_le hge with heq | hlt
    · rw [← heq] at hfirst
      rw [haddr]
      exact hfirst.2
    · rw [← hpage] at hlt
      unfold Om.pageOf pageBytes at hlt
      omega

/-- **A step of the walk** goes to the next live object, and ends after the last. -/
theorem omNextObject_least (hl : Layout h live) (hent : Entered h.om live) {e : Extent}
    (he : e ∈ live) :
    (omNextObject h.om h.mem e.addr = 0 ∧ ∀ e' ∈ live, e'.addr ≤ e.addr) ∨
    ∃ e' ∈ live, omNextObject h.om h.mem e.addr = e'.addr ∧ e.addr < e'.addr ∧
      ∀ e'' ∈ live, e.addr < e''.addr → e'.addr ≤ e''.addr := by
  have hsize := (hl.objects e he).nonempty
  have habove := (hl.objects e he).above
  have hbehind : ∀ e' ∈ live, e.addr < e'.addr → e.addr + e.bytes ≤ e'.addr :=
    fun e' he' hlt => hl.le_of_addr_lt he he' hlt
  by_cases hend : h.om.free ≤ e.addr + e.bytes
  · refine .inl ⟨omNextObject_last hl he hend, fun e' he' => ?_⟩
    have hsize' := (hl.objects e' he').nonempty
    have hbelow' := (hl.objects e' he').below
    by_contra hlt
    have := hbehind e' he' (by omega)
    omega
  rw [omNextObject_eq hl he (by omega)]
  split
  · next hused =>
    obtain ⟨e', he', haddr⟩ := live_at_end hl he hused
    refine .inr ⟨e', he', haddr.symm, by omega, fun e'' he'' hlt => ?_⟩
    rw [haddr]
    exact hbehind e'' he'' hlt
  · next hunused =>
    -- the rest of the page is empty: what comes next starts on a later page
    have hlater : ∀ e' ∈ live, e.addr < e'.addr →
        h.om.pageOf (e.addr + e.bytes) < h.om.pageOf e'.addr := by
      intro e' he' hlt
      have hsize' := (hl.objects e' he').nonempty
      have hge := hbehind e' he' hlt
      by_contra hnot
      have hsame : h.om.pageOf (e.addr + e.bytes) = h.om.pageOf e'.addr := by
        refine Nat.le_antisymm ?_ (Nat.le_of_not_lt hnot)
        unfold Om.pageOf
        exact Nat.div_le_div_right (by omega)
      obtain ⟨e'', he'', hh⟩ := hl.filled he' ⟨Nat.le_refl _, by omega⟩
        (show h.om.start ≤ e.addr + e.bytes by omega) hge hsame
      exact hunused ((hl.covered _ (by omega)).mp ⟨e'', he'', hh⟩)
    rcases firstObjectAfter_least hl hent (h.om.pageOf (e.addr + e.bytes)) with
      ⟨hzero, hnone⟩ | ⟨e', he', haddr, hleast⟩
    · refine .inl ⟨hzero, fun e' he' => ?_⟩
      by_contra hlt
      have := hlater e' he' (by omega)
      have := hnone e' he'
      omega
    · refine .inr ⟨e', he', haddr, ?_, fun e'' he'' hlt => hleast e'' he'' (hlater e'' he'' hlt)⟩
      rcases firstObjectAfter_live hl (h.om.pageOf (e.addr + e.bytes)) with hzero | ⟨x, -, hx, hup⟩
      · have := (hl.objects e' he').above
        have hfirstPage := hl.placed.aboveFirstPage
        unfold pageBytes at hfirstPage
        omega
      · have hlt := lt_pageStart_pageOf_succ h.om (a := e.addr + e.bytes) (by omega)
        omega

/-- From a live object the walk visits it and all live objects above, in order. -/
theorem visits_from (hl : Layout h live) (hent : Entered h.om live) :
    ∀ (room : Nat) (e : Extent), e ∈ live → h.om.free ≤ e.addr + room →
      ∃ addrs, Visits h.om h.mem e.addr addrs ∧ addrs.Pairwise (· < ·) ∧
        ∀ a, a ∈ addrs ↔ ∃ e' ∈ live, e'.addr = a ∧ e.addr ≤ a := by
  intro room
  induction room using Nat.strong_induction_on with
  | _ room ih =>
    intro e he hroom
    have hsize := (hl.objects e he).nonempty
    have hbelow := (hl.objects e he).below
    have hne : e.addr ≠ 0 := by
      have habove := (hl.objects e he).above
      have hfirstPage := hl.placed.aboveFirstPage
      unfold pageBytes at hfirstPage
      omega
    rcases omNextObject_least hl hent he with ⟨hzero, hlast⟩ | ⟨e', he', hnext, hlt, hleast⟩
    · refine ⟨[e.addr], .visit hne (by rw [hzero]; exact .stop), List.pairwise_singleton _ _, ?_⟩
      intro a
      rw [List.mem_singleton]
      constructor
      · rintro rfl
        exact ⟨e, he, rfl, Nat.le_refl _⟩
      · rintro ⟨e', he', rfl, hge⟩
        have := hlast e' he'
        omega
    · obtain ⟨addrs, hvisits, hsorted, hmem⟩ := ih (h.om.free - e'.addr) (by omega) e' he' (by omega)
      refine ⟨e.addr :: addrs, .visit hne (by rw [hnext]; exact hvisits), ?_, ?_⟩
      · refine List.pairwise_cons.mpr ⟨fun a ha => ?_, hsorted⟩
        obtain ⟨-, -, -, hge⟩ := (hmem a).mp ha
        omega
      · intro a
        rw [List.mem_cons, hmem]
        constructor
        · rintro (rfl | ⟨e'', he'', rfl, hge⟩)
          · exact ⟨e, he, rfl, Nat.le_refl _⟩
          · exact ⟨e'', he'', rfl, by omega⟩
        · rintro ⟨e'', he'', rfl, hge⟩
          rcases Nat.eq_or_lt_of_le hge with heq | hgt
          · exact .inl heq.symm
          · exact .inr ⟨e'', he'', rfl, hleast e'' he'' hgt⟩

/-- **The whole walk** visits every live object once, in the order of the addresses. -/
theorem visits_all (hl : Layout h live) (hent : Entered h.om live) :
    ∃ addrs, Visits h.om h.mem (walkStart h.om) addrs ∧ addrs.Pairwise (· < ·) ∧
      ∀ a, a ∈ addrs ↔ ∃ e ∈ live, e.addr = a := by
  have hcount : ∀ e ∈ live, h.om.pageOf e.addr < h.om.pageCount := by
    intro e he
    have hsize := (hl.objects e he).nonempty
    have hbelow := (hl.objects e he).below
    have hfree := hl.placed.freeLimit
    have hlimit := hl.placed.limitStop
    exact hl.placed.pageOf_lt (hl.objects e he).above (by omega)
  have hused : ∀ e ∈ live, omPageState h.om (h.om.pageOf e.addr) ≠ .free := by
    intro e he hfree
    rw [omPageState, if_pos (hcount e he), hent.free] at hfree
    have hsize := (hl.objects e he).nonempty
    exact hfree ⟨e, he, onPage_of_holds (hl.objects e he).above ⟨Nat.le_refl _, by omega⟩⟩
  unfold walkStart
  rcases hfind : (List.range h.om.pageCount).find? (fun p => omPageState h.om p != .free) with _ | p
  · refine ⟨[], .stop, List.Pairwise.nil, fun a => ⟨fun ha => (nomatch ha), ?_⟩⟩
    rintro ⟨e, he, -⟩
    rw [List.find?_eq_none] at hfind
    have hnone := hfind _ (List.mem_range.mpr (hcount e he))
    simp only [bne_iff_ne, not_not] at hnone
    exact absurd hnone (hused e he)
  · rw [List.find?_range_eq_some] at hfind
    obtain ⟨hstate, hp, hbefore⟩ := hfind
    have hp := List.mem_range.mp hp
    simp only [bne_iff_ne] at hstate
    rw [omPageState, if_pos hp, Ne, hent.free, not_not] at hstate
    obtain ⟨e, he, hon⟩ := hstate
    obtain ⟨hne, -⟩ := hent.covering e he p hon
    obtain ⟨e₀, he₀, haddr, hpage, -⟩ := hl.covering p hne
    simp only [omPageCoveringObject, if_pos hp]
    rw [← haddr]
    -- the covering object is the lowest of all
    have hlowest : ∀ e' ∈ live, e₀.addr ≤ e'.addr := by
      intro e' he'
      have habove' := (hl.objects e' he').above
      have hsize' := (hl.objects e' he').nonempty
      have hge : p ≤ h.om.pageOf e'.addr := by
        by_contra hlt
        have hfree := hbefore _ (Nat.lt_of_not_le hlt)
        simp only [Bool.not_eq_true', bne_eq_false_iff_eq] at hfree
        exact hused e' he' hfree
      rcases Nat.eq_or_lt_of_le hge with heq | hlt
      · have hself : e'.OnPage h.om (h.om.pageOf e'.addr) :=
          onPage_of_holds habove' ⟨Nat.le_refl _, by omega⟩
        rw [← heq] at hself
        rw [haddr]
        exact (hent.covering e' he' p hself).2
      · unfold Om.pageOf pageBytes at hpage hlt
        omega
    obtain ⟨addrs, hvisits, hsorted, hmem⟩ := visits_from hl hent _ e₀ he₀ (Nat.le_add_left _ _)
    refine ⟨addrs, hvisits, hsorted, fun a => (hmem a).trans ?_⟩
    constructor
    · rintro ⟨e', he', rfl, -⟩
      exact ⟨e', he', rfl⟩
    · rintro ⟨e', he', rfl⟩
      exact ⟨e', he', rfl, hlowest e' he'⟩

end Tables

/-! ## §6. Runs. -/

/-- The invariant of the runs. -/
structure Arena.Tabled (s : Arena) : Prop where
  layout : Layout s.heap s.live
  entered : Entered s.heap.om s.live

theorem Arena.initial_tabled (buffer : Buffer) (m : Mem) : (Arena.initial buffer m).Tabled := by
  refine ⟨omInit_layout buffer m, ?_⟩
  constructor
  · exact fun e he => absurd he (Set.notMem_empty e)
  · exact fun e he => absurd he (Set.notMem_empty e)
  · intro p
    refine ⟨fun hc => (nomatch hc), ?_⟩
    rintro ⟨e, he, -⟩
    exact absurd he (Set.notMem_empty e)
  · intro p
    refine ⟨fun _ => ?_, fun _ => rfl⟩
    rintro ⟨e, he, -⟩
    exact Set.notMem_empty e he

/-- **An event keeps the tables exact.** -/
theorem Arena.Tabled.sweep {s : Arena} (hs : s.Tabled) (event : SweepEvent)
    (hlegal : event.Legal s) : (s.sweep event).Tabled := by
  obtain ⟨hl, hent⟩ := hs
  cases event with
  | alloc req =>
    unfold Arena.sweep Arena.step
    simp only
    rcases ha : omAlloc s.heap req with _ | ⟨obj, h'⟩
    · exact ⟨hl, hent⟩
    obtain ⟨hl', hunused, -, -⟩ := omAlloc_layout hl ha
    obtain ⟨-, hlo, hfits, hcase⟩ := omAlloc_place hl.placed ha
    have h24 := req.le_totalBytes
    have hlimit := hl.placed.limitStop
    have hpages : h'.om.page = (noteObject s.heap.om obj req.totalBytes).page := by
      rcases hcase with ⟨-, -, -, -, hom⟩ | ⟨-, hom⟩
      · rw [hom]
      · rw [hom]
    have hstart := (placed_after hl.placed ha).2.1
    exact ⟨hl', hent.insert hl hlo (by omega) (by omega) hunused hstart hpages⟩
  | release pages =>
    obtain ⟨hbelow, hwhole⟩ := hlegal
    have hom := omReleasePages_released pages s.heap.om
    have hstartFree := hl.placed.startFree
    have hclosed : ∀ p ∈ pages, s.heap.om.pageStart (p + 1) ≤ s.heap.om.free := by
      intro p hp
      have hlt := hbelow p hp
      unfold Om.pageOf Om.pageStart pageBytes at *
      omega
    have hin : ∀ p ∈ pages, p < s.heap.om.pageCount := by
      intro p hp
      have hend := hclosed p hp
      have hfree := hl.placed.freeLimit
      have hlimit := hl.placed.limitStop
      have hpages := hl.placed.pages
      unfold Om.pageStart pageBytes at *
      omega
    have hsep : Separable s.heap s.live pages := by
      refine ⟨fun p hp => .inr (hclosed p hp), fun e he a b ha hb hpage => ?_⟩
      have habove := (hl.objects e he).above
      exact hwhole e he _ hpage (onPage_of_holds habove ha) _ (onPage_of_holds habove hb)
    exact ⟨omReleasePages_layout hl hin hsep hom, hent.release hl hin hwhole hom⟩

/-- **Page metadata and heap walk.**  After any run of allocations and releases of
sets of whole pages below the bump pointer's page, every page's entries describe the
remaining objects, and the walk from the covering object of the lowest page in use
visits each of them once, in the order of the addresses, and stops. -/
theorem heap_described (buffer : Buffer) (m : Mem) (events : List SweepEvent)
    (hlegal : AtEvery Arena.sweep (fun s e => e.Legal s) (Arena.initial buffer m) events)
    {s : Arena} (hrun : events.foldl Arena.sweep (Arena.initial buffer m) = s) :
    (∀ p, p < s.heap.om.pageCount → Describes s.heap.om s.live p) ∧
    ∃ addrs, Visits s.heap.om s.heap.mem (walkStart s.heap.om) addrs ∧
      addrs.Pairwise (· < ·) ∧ ∀ a, a ∈ addrs ↔ ∃ e ∈ s.live, e.addr = a := by
  have htabled : s.Tabled := by
    rw [← hrun]
    exact AtEvery.invariant (fun s event hs hmeets => hs.sweep event hmeets)
      (Arena.initial_tabled buffer m) hlegal
  exact ⟨fun p hp => htabled.entered.describes htabled.layout hp,
    visits_all htabled.layout htabled.entered⟩

theorem pageFields_roundsUp :
    formatFields = formatBytes → (509 : UInt64).toNat + 7 < 2 ^ 64 := fun hf => absurd hf (by decide)

theorem pageFields_fits : 8 * (3 + slotWords formatFields 509) ≤ 2 ^ 63 := by decide

/-- An object of a whole page. -/
def pageFields : AllocRequest where
  classPtr := 0
  format := formatFields
  size := 509
  roundsUp := pageFields_roundsUp
  fits := pageFields_fits

/-- A whole page is released and takes a small object. -/
def sweepFirst : List SweepEvent :=
  [.alloc pageFields, .alloc threeFields, .release [0], .alloc threeFields]

/-- The heap of that run. -/
theorem sweepFirst_described :
    (∀ p, p < (sweepFirst.foldl Arena.sweep smallArena).heap.om.pageCount →
      Describes (sweepFirst.foldl Arena.sweep smallArena).heap.om
        (sweepFirst.foldl Arena.sweep smallArena).live p) ∧
    ∃ addrs, Visits (sweepFirst.foldl Arena.sweep smallArena).heap.om
        (sweepFirst.foldl Arena.sweep smallArena).heap.mem
        (walkStart (sweepFirst.foldl Arena.sweep smallArena).heap.om) addrs ∧
      addrs.Pairwise (· < ·) ∧
      ∀ a, a ∈ addrs ↔ ∃ e ∈ (sweepFirst.foldl Arena.sweep smallArena).live, e.addr = a := by
  refine heap_described smallBuffer (fun _ => 0) sweepFirst ⟨trivial, trivial, ?_, trivial, trivial⟩
    rfl
  obtain ⟨h', -, hfirst⟩ := smallArena.step_alloc pageFields 65536 (by decide +kernel)
  obtain ⟨h'', -, hsecond⟩ := (smallArena.step (.alloc pageFields)).step_alloc threeFields
    69632 (by decide +kernel)
  have hstart : (((Arena.initial smallBuffer (fun _ => 0)).sweep (.alloc pageFields)).sweep
      (.alloc threeFields)).heap.om.start = 65536 := by decide +kernel
  have hlive : ((smallArena.step (.alloc pageFields)).step (.alloc threeFields)).live
      = insert ⟨69632, threeFields.totalBytes⟩ (insert ⟨65536, pageFields.totalBytes⟩ ∅) := by
    rw [hsecond, hfirst]
    rfl
  refine ⟨by decide +kernel, ?_⟩
  show ∀ e ∈ ((smallArena.step (.alloc pageFields)).step (.alloc threeFields)).live, _
  rw [hlive]
  have hpage : pageFields.totalBytes = 4096 := by decide
  have hthree : threeFields.totalBytes = 48 := by decide
  rintro e he p hp ⟨hlo, hhi⟩ q ⟨hlo', hhi'⟩
  rw [List.mem_singleton] at hp ⊢
  unfold Om.pageStart pageBytes at *
  -- the first object has page 0 for itself, the second one is not on it
  rcases he with rfl | rfl | he
  · simp only [hthree, hstart] at *
    omega
  · simp only [hpage, hstart] at *
    omega
  · exact absurd he (Set.notMem_empty e)

end LivingObjects.ObjectMemory
