/-
  LivingObjects.Lib.WordPass — rewriting some words of a memory in place.

  A pass applies a function to the words at some addresses, the cells, and may come
  to a cell more than once and in any order.  As long as the function changes none
  of its own results a second visit does nothing (`Pass.convert`), and once every
  cell has been visited the memory is known (`Pass.word`, `Pass.other`).
-/
import Mathlib
import LivingObjects.Lib.ByteMem

namespace LivingObjects.Lib

/-- Rewrite the word at an address. -/
def convertWord (g : UInt64 → UInt64) (m : Mem) (a : Nat) : Mem := store64 m a (g (load64 m a))

/-- The words at two cells do not overlap. -/
def Apart (cells : Set Nat) : Prop :=
  ∀ a ∈ cells, ∀ b ∈ cells, a = b ∨ a + 8 ≤ b ∨ b + 8 ≤ a

/-- A memory on the way from `m`: the cells of `done` hold their results, every cell
its result or its old word, and nothing else has changed. -/
structure Pass (g : UInt64 → UInt64) (cells : Set Nat) (m : Mem) (done : Set Nat) (m' : Mem) :
    Prop where
  other : ∀ i, (∀ a ∈ cells, i < a ∨ a + 8 ≤ i) → m' i = m i
  pending : ∀ a ∈ cells, load64 m' a = load64 m a ∨ load64 m' a = g (load64 m a)
  word : ∀ a ∈ cells, a ∈ done → load64 m' a = g (load64 m a)

namespace Pass

variable {g : UInt64 → UInt64} {cells done : Set Nat} {m m' : Mem}

theorem refl (g : UInt64 → UInt64) (cells : Set Nat) (m : Mem) : Pass g cells m ∅ m :=
  ⟨fun _ _ => rfl, fun _ _ => .inl rfl, fun _ _ h => absurd h (Set.notMem_empty _)⟩

theorem mono {done' : Set Nat} (h : Pass g cells m done' m') (hsub : done ⊆ done') :
    Pass g cells m done m' :=
  ⟨h.other, h.pending, fun a ha hd => h.word a ha (hsub hd)⟩

/-- **One visit** of a cell. -/
theorem convert (h : Pass g cells m done m') (hapart : Apart cells)
    (hg : ∀ a ∈ cells, g (g (load64 m a)) = g (load64 m a)) {a : Nat} (ha : a ∈ cells) :
    Pass g cells m (insert a done) (convertWord g m' a) := by
  have hself : load64 (convertWord g m' a) a = g (load64 m a) := by
    unfold convertWord
    rw [load64_store64_self]
    rcases h.pending a ha with hold | hnew
    · rw [hold]
    · rw [hnew, hg a ha]
  have hrest : ∀ b ∈ cells, b ≠ a → load64 (convertWord g m' a) b = load64 m' b := by
    intro b hb hne
    rcases hapart a ha b hb with heq | hout | hout
    · exact absurd heq.symm hne
    · exact load64_store64_of_disjoint m' _ (.inr hout)
    · exact load64_store64_of_disjoint m' _ (.inl hout)
  refine ⟨fun i hi => ?_, fun b hb => ?_, fun b hb hd => ?_⟩
  · rw [← h.other i hi]
    exact store64_of_out m' _ (hi a ha)
  · by_cases hba : b = a
    · rw [hba]
      exact .inr hself
    · rw [hrest b hb hba]
      exact h.pending b hb
  · by_cases hba : b = a
    · rw [hba]
      exact hself
    · rw [hrest b hb hba]
      exact h.word b hb (hd.resolve_left hba)

/-- Visits of several cells. -/
theorem foldl {ι : Type} {f : Mem → ι → Mem} (at' : ι → Nat) (is : List ι)
    (hf : ∀ m i, f m i = convertWord g m (at' i)) (hapart : Apart cells)
    (hg : ∀ a ∈ cells, g (g (load64 m a)) = g (load64 m a))
    (his : ∀ i ∈ is, at' i ∈ cells) (h : Pass g cells m done m') :
    Pass g cells m (done ∪ {a | ∃ i ∈ is, at' i = a}) (is.foldl f m') := by
  induction is generalizing m' done with
  | nil =>
    refine h.mono ?_
    rintro a (ha | ⟨i, hi, -⟩)
    · exact ha
    · exact absurd hi List.not_mem_nil
  | cons i is ih =>
    rw [List.foldl_cons, hf]
    refine (ih (fun j hj => his j (List.mem_cons_of_mem i hj))
      (h.convert hapart hg (his i List.mem_cons_self))).mono ?_
    rintro a (ha | ⟨j, hj, rfl⟩)
    · exact .inl (.inr ha)
    · rcases List.mem_cons.mp hj with rfl | hj
      · exact .inl (.inl rfl)
      · exact .inr ⟨j, hj, rfl⟩

end Pass

/-- **A pass over words that lie one behind the other** rewrites each once. -/
theorem convertWords_ascending (g : UInt64 → UInt64) {cells : List Nat}
    (hcells : cells.Pairwise fun a b => a + 8 ≤ b) (m : Mem) :
    (∀ a ∈ cells, load64 (cells.foldl (convertWord g) m) a = g (load64 m a))
      ∧ ∀ i, (∀ a ∈ cells, i < a ∨ a + 8 ≤ i) → cells.foldl (convertWord g) m i = m i := by
  induction cells generalizing m with
  | nil => exact ⟨fun _ h => absurd h List.not_mem_nil, fun _ _ => rfl⟩
  | cons cell cells ih =>
    obtain ⟨hfirst, hrest⟩ := List.pairwise_cons.mp hcells
    obtain ⟨hword, hother⟩ := ih hrest (convertWord g m cell)
    rw [List.foldl_cons]
    refine ⟨?_, ?_⟩
    · intro a ha
      rcases List.mem_cons.mp ha with rfl | ha
      · have hkept : load64 (cells.foldl (convertWord g) (convertWord g m a)) a
            = load64 (convertWord g m a) a := by
          refine load64_congr fun i hi => hother _ fun b hb => ?_
          have habove := hfirst b hb
          omega
        rw [hkept, convertWord, load64_store64_self]
      · have habove := hfirst a ha
        rw [hword a ha, convertWord, load64_store64_of_disjoint m _ (by omega)]
    · intro i hi
      rw [hother i fun a ha => hi a (List.mem_cons_of_mem _ ha)]
      exact store64_of_out m _ (hi cell List.mem_cons_self)

end LivingObjects.Lib
