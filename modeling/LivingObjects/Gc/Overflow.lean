/-
  LivingObjects.Gc.Overflow — a collection that cannot overflow.

  The objects of from-space lie apart from each other in its used part, so those that are
  copied, each once, take no more than the used part does.  A to-space with that much room
  is a ready one, and the collection ends without the trap.
-/
import Mathlib
import LivingObjects.Gc.Cheney

namespace LivingObjects.Gc

/-! ## §1. Stretches that lie apart. -/

/-- Stretches of memory that lie apart in a range take no more than the range. -/
theorem sum_le_of_apart (size : Nat → Nat) {l : List Nat} {lo hi : Nat} (hl : l.Nodup)
    (hin : ∀ o ∈ l, lo ≤ o ∧ o + size o ≤ hi)
    (hapart : ∀ o ∈ l, ∀ o' ∈ l, o ≠ o' → o + size o ≤ o' ∨ o' + size o' ≤ o) :
    (l.map size).sum ≤ hi - lo := by
  have hcard : ∀ o ∈ l.toFinset, size o = (Finset.Ico o (o + size o)).card := by
    intro o _
    rw [Nat.card_Ico, Nat.add_sub_cancel_left]
  have hdisjoint : (l.toFinset : Set Nat).PairwiseDisjoint fun o => Finset.Ico o (o + size o) := by
    intro o ho o' ho' hne
    have hsplit := hapart o (List.mem_toFinset.mp ho) o' (List.mem_toFinset.mp ho') hne
    refine Finset.disjoint_left.mpr fun a ha ha' => ?_
    rw [Finset.mem_Ico] at ha ha'
    omega
  have hsubset : l.toFinset.biUnion (fun o => Finset.Ico o (o + size o)) ⊆ Finset.Ico lo hi := by
    intro a ha
    obtain ⟨o, ho, hmem⟩ := Finset.mem_biUnion.mp ha
    have hbounds := hin o (List.mem_toFinset.mp ho)
    rw [Finset.mem_Ico] at hmem ⊢
    omega
  calc (l.map size).sum = ∑ o ∈ l.toFinset, size o := (List.sum_toFinset size hl).symm
    _ = ∑ o ∈ l.toFinset, (Finset.Ico o (o + size o)).card := Finset.sum_congr rfl hcard
    _ = (l.toFinset.biUnion fun o => Finset.Ico o (o + size o)).card :=
        (Finset.card_biUnion hdisjoint).symm
    _ ≤ (Finset.Ico lo hi).card := Finset.card_le_card hsubset
    _ = hi - lo := Nat.card_Ico lo hi

/-! ## §2. The collection. -/

section Run

variable {mem : Nat → Nat} {fromStart fromEnd fromFree free toEnd : Nat} {objs : Nat → Prop}
variable {roots : List Nat}

/-- Objects in the used part of from-space, each once, take no more than it does. -/
theorem WellFormed.bytesOf_le (h : WellFormed mem fromStart fromEnd objs)
    (hused : ∀ o, objs o → o + 8 * totalWords mem o ≤ fromFree) {l : List Nat} (hl : l.Nodup)
    (hobjs : ∀ o ∈ l, objs o) : bytesOf mem l ≤ fromFree - fromStart :=
  sum_le_of_apart (fun o => 8 * totalWords mem o) hl
    (fun o ho => ⟨(h.inside o (hobjs o ho)).1, hused o (hobjs o ho)⟩)
    fun o ho o' ho' hne => h.apart o o' (hobjs o ho) (hobjs o' ho') hne

/-- A to-space with as much room as from-space has in use is ready. -/
theorem ready_of_used (hheap : WellFormed mem fromStart fromEnd objs)
    (hused : ∀ o, objs o → o + 8 * totalWords mem o ≤ fromFree)
    (hroots : ∀ r ∈ roots, ValidWord fromStart fromEnd objs r) (haligned : free % 8 = 0)
    (hdisjoint : fromEnd ≤ free ∨ toEnd ≤ fromStart)
    (hroom : free + (fromFree - fromStart) ≤ toEnd) :
    Ready mem fromStart fromEnd free toEnd objs roots where
  heap := hheap
  validRoots := hroots
  aligned := haligned
  disjoint := hdisjoint
  room l hl hreached := by
    have hbytes := hheap.bytesOf_le hused hl fun o ho => hheap.reachable hroots (hreached o ho)
    omega

/-- **A collection cannot overflow**: with as much room in to-space as from-space has in use
it ends, no object is copied twice, and the free pointer has moved by the size of what was
copied. -/
theorem gcCollect_no_overflow (hheap : WellFormed mem fromStart fromEnd objs)
    (hused : ∀ o, objs o → o + 8 * totalWords mem o ≤ fromFree)
    (hroots : ∀ r ∈ roots, ValidWord fromStart fromEnd objs r) (haligned : free % 8 = 0)
    (hdisjoint : fromEnd ≤ free ∨ toEnd ≤ fromStart)
    (hroom : free + (fromFree - fromStart) ≤ toEnd) :
    ∃ roots' s', gcCollect fromStart fromEnd toEnd roots ⟨mem, free⟩ = some (roots', s') ∧
      (gcCopied fromStart fromEnd toEnd roots ⟨mem, free⟩).Nodup ∧
      (∀ o ∈ gcCopied fromStart fromEnd toEnd roots ⟨mem, free⟩, objs o) ∧
      s'.free = free + bytesOf mem (gcCopied fromStart fromEnd toEnd roots ⟨mem, free⟩) ∧
      s'.free ≤ toEnd := by
  have hready := ready_of_used hheap hused hroots haligned hdisjoint hroom
  obtain ⟨copied, s', hrun, hcopied, hf, _⟩ := hready.gcCollect_fingers
  have hfits := hf.fits hready
  rw [hcopied]
  refine ⟨_, s', hrun, hf.nodup, fun o ho => hready.obj (hf.reached o ho), hf.top, ?_⟩
  rw [hf.top]
  exact hfits

/-- The cyclic heap goes into a to-space of its own size. -/
theorem cyclicHeap_no_overflow :
    ∃ roots' s', gcCollect 64 136 1096 [64, 5] ⟨cyclicHeap, 1024⟩ = some (roots', s') ∧
      (gcCopied 64 136 1096 [64, 5] ⟨cyclicHeap, 1024⟩).Nodup ∧
      (∀ o ∈ gcCopied 64 136 1096 [64, 5] ⟨cyclicHeap, 1024⟩, o ∈ [64, 104]) ∧
      s'.free = 1024 + bytesOf cyclicHeap (gcCopied 64 136 1096 [64, 5] ⟨cyclicHeap, 1024⟩) ∧
      s'.free ≤ 1096 := by
  have hroots : ∀ r ∈ [64, 5], ValidWord 64 136 (· ∈ [64, 104]) r := by
    show ∀ r ∈ [64, 5], inFromSpace 64 136 r = true → r ∈ [64, 104]
    decide
  exact gcCollect_no_overflow cyclicHeap_wellFormed
    (fun o ho => (cyclicHeap_wellFormed.inside o ho).2) hroots rfl (Or.inl (by decide))
    (by decide)

end Run

end LivingObjects.Gc
