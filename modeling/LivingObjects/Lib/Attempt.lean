/-
  LivingObjects.Lib.Attempt — programs that can give up and leave their state behind.

  A recursive-descent compiler that writes while it reads gives up by returning 0, and its
  caller may go on from the state that has been left.  A program here ends with a value,
  gives up, or has no steps left; an invariant is kept in the first two cases alike.
-/
import Mathlib

namespace LivingObjects.Lib

/-! ## §1. Programs. -/

/-- How a program ends. -/
inductive Tried (σ α : Type) where
  | ok (a : α) (s : σ)
  /-- The program has given up. -/
  | rejected (s : σ)
  | outOfFuel

def Attempt (σ α : Type) := σ → Tried σ α

namespace Attempt

variable {σ τ α β : Type}

instance : Monad (Attempt σ) where
  pure a s := .ok a s
  bind m f s := match m s with
    | .ok a s' => f a s'
    | .rejected s' => .rejected s'
    | .outOfFuel => .outOfFuel

def reject : Attempt σ α := fun s => .rejected s

def outOfFuel : Attempt σ α := fun _ => .outOfFuel

def get : Attempt σ σ := fun s => .ok s s

def modify (f : σ → σ) : Attempt σ Unit := fun s => .ok () (f s)

/-- Read a value off the state while changing it. -/
def modifyGet (f : σ → α × σ) : Attempt σ α := fun s => .ok (f s).1 (f s).2

/-- Give up unless the condition holds. -/
def require (c : Bool) : Attempt σ Unit := if c then pure () else reject

/-- Whether the program gets through; if not, the state is the one it has left. -/
def succeeds (m : Attempt σ α) : Attempt σ Bool := fun s => match m s with
  | .ok _ s' => .ok true s'
  | .rejected s' => .ok false s'
  | .outOfFuel => .outOfFuel

/-- Run a program on a state of its own, made from and put back into the state here. -/
def inside (enter : σ → τ) (leave : τ → σ → σ) (m : Attempt τ α) : Attempt σ α := fun s =>
  match m (enter s) with
  | .ok a t => .ok a (leave t s)
  | .rejected t => .rejected (leave t s)
  | .outOfFuel => .outOfFuel

/-! ## §2. Triples. -/

/-- From a state with the first property the program ends in one with the second, or has
given up in one with the third. -/
def Triple (P : σ → Prop) (m : Attempt σ α) (Q : α → σ → Prop) (R : σ → Prop) : Prop :=
  ∀ s, P s → match m s with
    | .ok a s' => Q a s'
    | .rejected s' => R s'
    | .outOfFuel => True

/-- **The program keeps the invariant**, also when it gives up. -/
abbrev Keeps (I : σ → Prop) (m : Attempt σ α) : Prop := Triple I m (fun _ => I) I

variable {P R : σ → Prop} {m : Attempt σ α} {f : α → Attempt σ β} {Q : α → σ → Prop}
variable {Q' : β → σ → Prop}

theorem Triple.pure {a : α} (h : ∀ s, P s → Q a s) : Triple P (Pure.pure a : Attempt σ α) Q R :=
  fun s hs => h s hs

theorem Triple.reject (h : ∀ s, P s → R s) : Triple P (Attempt.reject : Attempt σ α) Q R :=
  fun s hs => h s hs

theorem Triple.outOfFuel : Triple P (Attempt.outOfFuel : Attempt σ α) Q R := fun _ _ => trivial

/-- Sequencing. -/
theorem Triple.bind (hm : Triple P m Q R) (hf : ∀ a, Triple (Q a) (f a) Q' R) :
    Triple P (m >>= f) Q' R := by
  intro s hs
  have hrun := hm s hs
  show match (match m s with
    | .ok a s' => f a s'
    | .rejected s' => .rejected s'
    | .outOfFuel => .outOfFuel) with
    | .ok b s' => Q' b s'
    | .rejected s' => R s'
    | .outOfFuel => True
  cases hms : m s with
  | ok a s' =>
    rw [hms] at hrun
    exact hf a s' hrun
  | rejected s' =>
    rw [hms] at hrun
    exact hrun
  | outOfFuel => trivial

/-- Nothing comes after giving up. -/
theorem Triple.require_bind {c : Bool} {f : Unit → Attempt σ β} (hreject : ∀ s, P s → R s)
    (h : c = true → Triple P (f ()) Q' R) : Triple P (Attempt.require c >>= f) Q' R := by
  cases c with
  | false => exact fun s hs => hreject s hs
  | true => exact h rfl

/-- A program that looks at the state. -/
theorem Triple.get_bind {f : σ → Attempt σ β} (h : ∀ s, P s → Triple P (f s) Q' R) :
    Triple P (Attempt.get >>= f) Q' R := fun s hs => h s hs s hs

/-- A program that looks at the state, from there on known. -/
theorem Triple.get_bind_at {f : σ → Attempt σ β} (h : ∀ s, P s → Triple (fun t => t = s) (f s) Q' R) :
    Triple P (Attempt.get >>= f) Q' R := fun s hs => h s hs s rfl

theorem Triple.modify {f : σ → σ} {Q : Unit → σ → Prop} (h : ∀ s, P s → Q () (f s)) :
    Triple P (Attempt.modify f) Q R := fun s hs => h s hs

theorem Triple.modifyGet {f : σ → α × σ} (h : ∀ s, P s → Q (f s).1 (f s).2) :
    Triple P (Attempt.modifyGet f) Q R := fun s hs => h s hs

theorem Triple.ite {c : Prop} [Decidable c] {m n : Attempt σ α} (ht : c → Triple P m Q R)
    (he : ¬c → Triple P n Q R) : Triple P (if c then m else n) Q R := by
  split
  · rename_i hc
    exact ht hc
  · rename_i hc
    exact he hc

/-- Consequence. -/
theorem Triple.imp {P' R' : σ → Prop} {Q'' : α → σ → Prop} (h : Triple P m Q R)
    (hP : ∀ s, P' s → P s) (hQ : ∀ a s, Q a s → Q'' a s) (hR : ∀ s, R s → R' s) :
    Triple P' m Q'' R' := by
  intro s hs
  have hrun := h s (hP s hs)
  cases hms : m s with
  | ok a s' =>
    rw [hms] at hrun
    exact hQ a s' hrun
  | rejected s' =>
    rw [hms] at hrun
    exact hR s' hrun
  | outOfFuel => trivial

/-- What holds of a run that gets through. -/
theorem Triple.of_ok (h : Triple P m Q R) {s s' : σ} {a : α} (hs : P s) (hrun : m s = .ok a s') :
    Q a s' := by
  have hall := h s hs
  rw [hrun] at hall
  exact hall

theorem Triple.require {c : Bool} (hc : c = true) :
    Triple P (Attempt.require c) (fun _ => P) R := by
  subst hc
  exact fun s hs => hs

/-- Whether the program gets through; either way its caller goes on. -/
theorem Triple.succeeds {Q : σ → Prop} (h : Triple P m (fun _ => Q) R) {R' : σ → Prop} :
    Triple P m.succeeds (fun accepted s => (accepted = true → Q s) ∧ (accepted = false → R s))
      R' := by
  intro s hs
  have hrun := h s hs
  unfold Attempt.succeeds
  cases hms : m s with
  | ok a s' =>
    rw [hms] at hrun
    exact ⟨fun _ => hrun, fun h => Bool.noConfusion h⟩
  | rejected s' =>
    rw [hms] at hrun
    exact ⟨fun h => Bool.noConfusion h, fun _ => hrun⟩
  | outOfFuel => trivial

/-- A program with a state of its own. -/
theorem Triple.inside {enter : σ → τ} {leave : τ → σ → σ} {m : Attempt τ α} {P' : τ → Prop}
    {QT : α → τ → Prop} {RT : τ → Prop} (henter : ∀ s, P s → P' (enter s))
    (hok : ∀ a t s, QT a t → P s → Q a (leave t s)) (hrejected : ∀ t s, RT t → P s → R (leave t s))
    (h : Triple P' m QT RT) : Triple P (Attempt.inside enter leave m) Q R := by
  intro s hs
  have hrun := h (enter s) (henter s hs)
  unfold Attempt.inside
  cases hms : m (enter s) with
  | ok a t =>
    rw [hms] at hrun
    exact hok a t s hrun hs
  | rejected t =>
    rw [hms] at hrun
    exact hrejected t s hrun hs
  | outOfFuel => trivial

/-! ## §3. Invariants. -/

variable {I : σ → Prop}

theorem Keeps.pure (a : α) : Keeps I (Pure.pure a : Attempt σ α) := Triple.pure fun _ hs => hs

theorem Keeps.reject : Keeps I (Attempt.reject : Attempt σ α) := Triple.reject fun _ hs => hs

theorem Keeps.require (c : Bool) : Keeps I (Attempt.require c) := by
  cases c with
  | false => exact Keeps.reject
  | true => exact Keeps.pure ()

theorem Keeps.modify {f : σ → σ} (h : ∀ s, I s → I (f s)) : Keeps I (Attempt.modify f) :=
  Triple.modify h

theorem Keeps.modifyGet {f : σ → α × σ} (h : ∀ s, I s → I (f s).2) :
    Keeps I (Attempt.modifyGet f) := Triple.modifyGet h

/-- A program that has given up has kept the invariant. -/
theorem Keeps.succeeds (h : Keeps I m) : Keeps I m.succeeds := by
  intro s hs
  have hrun := h s hs
  unfold Attempt.succeeds
  cases hms : m s with
  | ok a s' =>
    rw [hms] at hrun
    exact hrun
  | rejected s' =>
    rw [hms] at hrun
    exact hrun
  | outOfFuel => trivial

/-- An invariant, and the run it is about. -/
theorem Keeps.ran (h : Keeps I m) (hP : ∀ s, P s → I s) :
    Triple P m (fun a s' => I s' ∧ ∃ s, P s ∧ m s = .ok a s') I := by
  intro s hs
  have hrun := h s (hP s hs)
  cases hms : m s with
  | ok a s' =>
    rw [hms] at hrun
    exact ⟨hrun, s, hs, hms⟩
  | rejected s' =>
    rw [hms] at hrun
    exact hrun
  | outOfFuel => trivial

/-! ## §4. Programs with fuel. -/

section Fuel

variable {s s₁ s₂ : σ} {a : α} {b : β}

theorem bind_run : (m >>= f) s = match m s with
    | .ok a s' => f a s'
    | .rejected s' => .rejected s'
    | .outOfFuel => .outOfFuel := rfl

theorem bind_ok (h : m s = .ok a s₁) : (m >>= f) s = f a s₁ := by
  rw [bind_run, h]

theorem bind_bind {γ : Type} {g : β → Attempt σ γ} :
    ((m >>= f) >>= g) s = (m >>= fun a => f a >>= g) s := by
  rw [bind_run, bind_run, bind_run]
  cases m s <;> rfl

theorem bind_assoc {γ : Type} (m : Attempt σ α) (f : α → Attempt σ β) (g : β → Attempt σ γ) :
    ((m >>= f) >>= g) = (m >>= fun a => f a >>= g) := by
  funext s
  exact bind_bind

theorem pure_bind (a : α) (f : α → Attempt σ β) : (Pure.pure a >>= f) = f a := rfl

/-- **With enough fuel the program gets through**, with this value and to this state. -/
def Finishes (m : Nat → Attempt σ α) (s : σ) (a : α) (s' : σ) : Prop :=
  ∃ enough, ∀ fuel, enough ≤ fuel → m fuel s = .ok a s'

theorem Finishes.bind {m : Nat → Attempt σ α} {f : Nat → α → Attempt σ β}
    (hm : Finishes m s a s₁) (hf : Finishes (fun fuel => f fuel a) s₁ b s₂) :
    Finishes (fun fuel => m fuel >>= f fuel) s b s₂ := by
  obtain ⟨k, hm⟩ := hm
  obtain ⟨l, hf⟩ := hf
  refine ⟨max k l, fun fuel hfuel => ?_⟩
  have hm' := hm fuel (by omega)
  have hf' := hf fuel (by omega)
  exact (bind_ok hm').trans hf'

/-- One step of a recursion, which takes one unit of fuel. -/
theorem Finishes.step {m n : Nat → Attempt σ α} (h : ∀ fuel, m (fuel + 1) s = n fuel s₁)
    (hn : Finishes n s₁ a s₂) : Finishes m s a s₂ := by
  obtain ⟨k, hn⟩ := hn
  refine ⟨k + 1, fun fuel hfuel => ?_⟩
  obtain ⟨fuel, rfl⟩ : ∃ more, fuel = more + 1 := ⟨fuel - 1, by omega⟩
  rw [h fuel]
  exact hn fuel (by omega)

end Fuel

/-! ## §5. Two runs. -/

/-- From related states two runs that get through end with the same value in related states. -/
def Lockstep (R : σ → σ → Prop) (m : Attempt σ α) : Prop :=
  ∀ s t, R s t → ∀ a s' b t', m s = .ok a s' → m t = .ok b t' → a = b ∧ R s' t'

section Lockstep

variable {R : σ → σ → Prop}

theorem of_bind_ok {s : σ} {b : β} {s₂ : σ} (h : (m >>= f) s = .ok b s₂) :
    ∃ a s₁, m s = .ok a s₁ ∧ f a s₁ = .ok b s₂ := by
  rw [bind_run] at h
  cases hrun : m s with
  | ok a s₁ =>
    rw [hrun] at h
    exact ⟨a, s₁, rfl, h⟩
  | rejected s₁ =>
    rw [hrun] at h
    cases h
  | outOfFuel =>
    rw [hrun] at h
    cases h

theorem Lockstep.bind (hm : Lockstep R m) (hf : ∀ a, Lockstep R (f a)) :
    Lockstep R (m >>= f) := by
  intro s t hst b s₂ c t₂ hs ht
  obtain ⟨a, s₁, hs₁, hs₂⟩ := of_bind_ok hs
  obtain ⟨a', t₁, ht₁, ht₂⟩ := of_bind_ok ht
  obtain ⟨rfl, hst₁⟩ := hm s t hst a s₁ a' t₁ hs₁ ht₁
  exact hf a s₁ t₁ hst₁ b s₂ c t₂ hs₂ ht₂

theorem Lockstep.pure (a : α) : Lockstep R (Pure.pure a : Attempt σ α) := by
  intro s t hst b s' c t' hs ht
  obtain ⟨rfl, rfl⟩ := Tried.ok.inj hs
  obtain ⟨rfl, rfl⟩ := Tried.ok.inj ht
  exact ⟨rfl, hst⟩

theorem Lockstep.reject : Lockstep R (Attempt.reject : Attempt σ α) := by
  intro s t hst a s' b t' hs
  cases hs

theorem Lockstep.outOfFuel : Lockstep R (Attempt.outOfFuel : Attempt σ α) := by
  intro s t hst a s' b t' hs
  cases hs

theorem Lockstep.ite {c : Prop} [Decidable c] {m n : Attempt σ α} (ht : c → Lockstep R m)
    (he : ¬c → Lockstep R n) : Lockstep R (if c then m else n) := by
  split
  · rename_i hc
    exact ht hc
  · rename_i hc
    exact he hc

theorem Lockstep.require (c : Bool) : Lockstep R (Attempt.require c) := by
  cases c with
  | false => exact Lockstep.reject
  | true => exact Lockstep.pure ()

theorem Lockstep.modify {f : σ → σ} (h : ∀ s t, R s t → R (f s) (f t)) :
    Lockstep R (Attempt.modify f) := by
  intro s t hst a s' b t' hs ht
  obtain ⟨-, rfl⟩ := Tried.ok.inj hs
  obtain ⟨-, rfl⟩ := Tried.ok.inj ht
  exact ⟨rfl, h s t hst⟩

theorem Lockstep.modifyGet {f : σ → α × σ} (h : ∀ s t, R s t → (f s).1 = (f t).1 ∧ R (f s).2 (f t).2) :
    Lockstep R (Attempt.modifyGet f) := by
  intro s t hst a s' b t' hs ht
  obtain ⟨rfl, rfl⟩ := Tried.ok.inj hs
  obtain ⟨rfl, rfl⟩ := Tried.ok.inj ht
  exact h s t hst

end Lockstep

/-! ## §6. Enough fuel. -/

/-- The two programs end alike, and with this property if they get through. -/
def EndAlike (m n : Attempt σ α) (s : σ) (Q : α → σ → Prop) : Prop :=
  m s = n s ∧ match m s with
    | .ok a s' => Q a s'
    | .rejected _ => True
    | .outOfFuel => False

section EndAlike

variable {m n : Attempt σ α} {f g : α → Attempt σ β} {s : σ} {Q : α → σ → Prop}
variable {Q' : β → σ → Prop}

theorem EndAlike.bind (h : EndAlike m n s Q) (hf : ∀ a s', Q a s' → EndAlike (f a) (g a) s' Q') :
    EndAlike (m >>= f) (n >>= g) s Q' := by
  obtain ⟨heq, hrun⟩ := h
  rw [EndAlike, bind_run, bind_run, ← heq]
  cases hm : m s with
  | ok a s' =>
    rw [hm] at hrun
    exact hf a s' hrun
  | rejected s' => exact ⟨rfl, trivial⟩
  | outOfFuel =>
    rw [hm] at hrun
    exact hrun.elim

theorem EndAlike.pure {a : α} (h : Q a s) : EndAlike (Pure.pure a) (Pure.pure a) s Q := ⟨rfl, h⟩

theorem EndAlike.reject : EndAlike .reject .reject s Q := ⟨rfl, trivial⟩

theorem EndAlike.modifyGet {f : σ → α × σ} (h : Q (f s).1 (f s).2) :
    EndAlike (.modifyGet f) (.modifyGet f) s Q := ⟨rfl, h⟩

theorem EndAlike.modify {f : σ → σ} {Q : Unit → σ → Prop} (h : Q () (f s)) :
    EndAlike (.modify f) (.modify f) s Q := ⟨rfl, h⟩

theorem EndAlike.ite {c : Prop} [Decidable c] {m' n' : Attempt σ α} (ht : c → EndAlike m n s Q)
    (he : ¬c → EndAlike m' n' s Q) : EndAlike (if c then m else m') (if c then n else n') s Q := by
  split
  · rename_i hc
    exact ht hc
  · rename_i hc
    exact he hc

theorem EndAlike.imp {R : α → σ → Prop} (h : EndAlike m n s Q) (hQ : ∀ a s', Q a s' → R a s') :
    EndAlike m n s R := by
  obtain ⟨heq, hrun⟩ := h
  refine ⟨heq, ?_⟩
  cases hm : m s with
  | ok a s' =>
    rw [hm] at hrun
    exact hQ a s' hrun
  | rejected s' => trivial
  | outOfFuel =>
    rw [hm] at hrun
    exact hrun.elim

end EndAlike

end Attempt

end LivingObjects.Lib
