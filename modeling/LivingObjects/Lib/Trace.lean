/-
  LivingObjects.Lib.Trace — runs of a step function over a list of events.

  A component takes one event after the other; `AtEvery` says that every event of a
  run meets a condition in the state it finds.  An invariant that holds at the start
  and is kept by every event that meets its condition holds in every state of the run.
-/
import Mathlib

namespace LivingObjects.Lib

variable {σ ε : Type}

/-- Every event of the run meets the condition in the state it finds. -/
def AtEvery (step : σ → ε → σ) (P : σ → ε → Prop) : σ → List ε → Prop
  | _, [] => True
  | s, e :: es => P s e ∧ AtEvery step P (step s e) es

namespace AtEvery

variable {step : σ → ε → σ} {P Q : σ → ε → Prop} {Inv : σ → Prop}

/-- **Invariants hold along runs.** -/
theorem invariant (hstep : ∀ s e, Inv s → P s e → Inv (step s e)) {es : List ε} {s : σ}
    (hs : Inv s) (h : AtEvery step P s es) : Inv (es.foldl step s) := by
  induction es generalizing s with
  | nil => exact hs
  | cons e es ih => exact ih (hstep s e hs h.1) h.2

/-- What follows from the invariant and the condition holds of every event. -/
theorem imp (Inv : σ → Prop) (hstep : ∀ s e, Inv s → P s e → Inv (step s e))
    (hPQ : ∀ s e, Inv s → P s e → Q s e) {es : List ε} {s : σ}
    (hs : Inv s) (h : AtEvery step P s es) : AtEvery step Q s es := by
  induction es generalizing s with
  | nil => trivial
  | cons e es ih => exact ⟨hPQ s e hs h.1, ih (hstep s e hs h.1) h.2⟩

theorem and {es : List ε} {s : σ} (h : AtEvery step P s es) (h' : AtEvery step Q s es) :
    AtEvery step (fun s e => P s e ∧ Q s e) s es := by
  induction es generalizing s with
  | nil => trivial
  | cons e es ih => exact ⟨⟨h.1, h'.1⟩, ih h.2 h'.2⟩

/-- **Exact conditions along runs.**  Under the invariant each event has one property
exactly if it has the other, and then keeps the invariant; so it is with whole runs. -/
theorem iff_of_invariant {L : σ → ε → Prop} (Inv : σ → Prop)
    (hstep : ∀ s e, Inv s → L s e → P s e → Inv (step s e))
    (hiff : ∀ s e, Inv s → L s e → (Q s e ↔ P s e)) {es : List ε} {s : σ} (hs : Inv s)
    (hlegal : AtEvery step L s es) : AtEvery step Q s es ↔ AtEvery step P s es := by
  induction es generalizing s with
  | nil => exact Iff.rfl
  | cons e es ih =>
    obtain ⟨hfirst, hrest⟩ := hlegal
    have hhead := hiff s e hs hfirst
    constructor
    · rintro ⟨hq, hqs⟩
      have hp := hhead.mp hq
      exact ⟨hp, (ih (hstep s e hs hfirst hp) hrest).mp hqs⟩
    · rintro ⟨hp, hps⟩
      exact ⟨hhead.mpr hp, (ih (hstep s e hs hfirst hp) hrest).mpr hps⟩

theorem append {es es' : List ε} {s : σ} :
    AtEvery step P s (es ++ es') ↔ AtEvery step P s es ∧ AtEvery step P (es.foldl step s) es' := by
  induction es generalizing s with
  | nil => simp [AtEvery]
  | cons e es ih =>
    rw [List.cons_append, AtEvery, AtEvery, ih, List.foldl_cons, and_assoc]

end AtEvery

end LivingObjects.Lib
