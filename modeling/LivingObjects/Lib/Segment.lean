/-
  LivingObjects.Lib.Segment — lists laid out in a memory of words.

  `Holds m p L`: from address `p` up, the memory `m` holds the list `L`.  A store
  outside the segment leaves it alone; one inside it sets an element.
-/
import Mathlib

namespace LivingObjects.Lib

variable {α : Type}

/-- From `p` up, the memory holds the list. -/
def Holds (m : Nat → α) : Nat → List α → Prop
  | _, [] => True
  | p, x :: L => m p = x ∧ Holds m (p + 1) L

instance decidableHolds [DecidableEq α] (m : Nat → α) :
    (p : Nat) → (L : List α) → Decidable (Holds m p L)
  | _, [] => .isTrue trivial
  | p, x :: L =>
    have := decidableHolds m (p + 1) L
    inferInstanceAs (Decidable (m p = x ∧ Holds m (p + 1) L))

@[simp] theorem holds_nil (m : Nat → α) (p : Nat) : Holds m p [] := trivial

@[simp] theorem holds_cons (m : Nat → α) (p : Nat) (x : α) (L : List α) :
    Holds m p (x :: L) ↔ m p = x ∧ Holds m (p + 1) L := Iff.rfl

theorem holds_append (m : Nat → α) (p : Nat) (L L' : List α) :
    Holds m p (L ++ L') ↔ Holds m p L ∧ Holds m (p + L.length) L' := by
  induction L generalizing p with
  | nil => simp
  | cons x L ih =>
    rw [List.cons_append, holds_cons, holds_cons, ih, and_assoc, List.length_cons,
      Nat.add_assoc p 1, Nat.add_comm 1]

/-- Only the words of the segment matter. -/
theorem Holds.congr {m m' : Nat → α} {p : Nat} {L : List α} (h : Holds m p L)
    (hsame : ∀ a, p ≤ a → a < p + L.length → m' a = m a) : Holds m' p L := by
  induction L generalizing p with
  | nil => trivial
  | cons x L ih =>
    rw [List.length_cons] at hsame
    refine ⟨(hsame p (Nat.le_refl p) (by omega)).trans h.1, ih h.2 (fun a hlo hhi => ?_)⟩
    exact hsame a (by omega) (by omega)

/-- A store outside the segment. -/
theorem Holds.update_out {m : Nat → α} {p a : Nat} {L : List α} (h : Holds m p L) (v : α)
    (hout : a < p ∨ p + L.length ≤ a) : Holds (Function.update m a v) p L := by
  refine h.congr (fun b hlo hhi => Function.update_of_ne ?_ v m)
  omega

/-- A word of the segment. -/
theorem Holds.get {m : Nat → α} {p i : Nat} {L : List α} (h : Holds m p L) (hi : i < L.length) :
    m (p + i) = L[i] := by
  induction L generalizing p i with
  | nil => exact absurd hi (Nat.not_lt_zero i)
  | cons x L ih =>
    cases i with
    | zero => exact h.1
    | succ i =>
      have hrest := ih h.2 (Nat.lt_of_succ_lt_succ hi)
      rw [Nat.add_assoc, Nat.add_comm 1 i] at hrest
      exact hrest

/-- A store inside the segment. -/
theorem Holds.update_set {m : Nat → α} {p i : Nat} {L : List α} (h : Holds m p L) (v : α)
    (hi : i < L.length) : Holds (Function.update m (p + i) v) p (L.set i v) := by
  induction L generalizing p i with
  | nil => exact absurd hi (Nat.not_lt_zero i)
  | cons x L ih =>
    cases i with
    | zero =>
      exact ⟨Function.update_self p v m, h.2.update_out v (by omega)⟩
    | succ i =>
      have hrest := ih h.2 (Nat.lt_of_succ_lt_succ hi)
      rw [Nat.add_assoc, Nat.add_comm 1 i] at hrest
      exact ⟨(Function.update_of_ne (by omega) v m).trans h.1, hrest⟩

/-- A store into a list that lies the other way round, its first element last. -/
theorem Holds.update_reverse {m : Nat → α} {p i : Nat} {L : List α} (h : Holds m p L.reverse)
    (v : α) (hi : i < L.length) :
    Holds (Function.update m (p + (L.length - 1 - i)) v) p (L.set i v).reverse := by
  have hset : L.reverse.set (L.length - 1 - i) v = (L.set i v).reverse := by
    refine List.ext_getElem (by simp) fun j hj _ => ?_
    rw [List.length_set, List.length_reverse] at hj
    simp only [List.getElem_set, List.getElem_reverse, List.length_set]
    exact if_congr (by omega) rfl rfl
  rw [← hset]
  exact h.update_set v (by rw [List.length_reverse]; omega)

/-- A store just below the segment. -/
theorem Holds.push {m : Nat → α} {p : Nat} {L : List α} (h : Holds m (p + 1) L) (v : α) :
    Holds (Function.update m p v) p (v :: L) :=
  ⟨Function.update_self p v m, h.update_out v (by omega)⟩

end LivingObjects.Lib
