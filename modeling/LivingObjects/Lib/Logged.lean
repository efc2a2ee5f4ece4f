/-
  LivingObjects.Lib.Logged — programs that keep a log and may not return.

  The log stays when a program does not return, so that two programs are equal when they
  log the same and end the same.  Two programs that begin alike are equal exactly when
  they are equal from there on.
-/
import Mathlib

namespace LivingObjects.Lib

/-- What a program has logged, and its result if it returns. -/
structure Logged (ε α : Type) where
  log : List ε
  result : Option α
deriving DecidableEq

namespace Logged

variable {ε α β γ : Type}

/-- First the one, and the other if the one returns. -/
def andThen (m : Logged ε α) (f : α → Logged ε β) : Logged ε β :=
  match m.result with
  | none => ⟨m.log, none⟩
  | some a => ⟨m.log ++ (f a).log, (f a).result⟩

instance : Monad (Logged ε) where
  pure a := ⟨[], some a⟩
  bind := andThen

/-- Log one event. -/
def write (e : ε) : Logged ε Unit := ⟨[e], some ()⟩

/-- A result without a log. -/
def lift (result : Option α) : Logged ε α := ⟨[], result⟩

/-- A program that does not return. -/
def stop : Logged ε α := ⟨[], none⟩

/-! ## §1. Equations. -/

@[ext] theorem ext {m n : Logged ε α} (hlog : m.log = n.log) (hresult : m.result = n.result) :
    m = n := by
  cases m
  cases n
  cases hlog
  cases hresult
  rfl

theorem bind_none {m : Logged ε α} (h : m.result = none) (f : α → Logged ε β) :
    m >>= f = ⟨m.log, none⟩ := by
  show m.andThen f = _
  rw [andThen, h]

theorem bind_some {m : Logged ε α} {a : α} (h : m.result = some a) (f : α → Logged ε β) :
    m >>= f = ⟨m.log ++ (f a).log, (f a).result⟩ := by
  show m.andThen f = _
  rw [andThen, h]

theorem pure_then (a : α) (f : α → Logged ε β) : (pure a : Logged ε α) >>= f = f a := rfl

theorem then_pure (m : Logged ε α) : m >>= pure = m := by
  cases h : m.result with
  | none =>
    rw [bind_none h, ← h]
  | some a =>
    rw [bind_some h]
    show (⟨m.log ++ [], some a⟩ : Logged ε α) = m
    rw [List.append_nil, ← h]

theorem then_assoc (m : Logged ε α) (f : α → Logged ε β) (g : β → Logged ε γ) :
    (m >>= f) >>= g = m >>= fun a => f a >>= g := by
  cases h : m.result with
  | none =>
    have hbind : (m >>= f).result = none := by rw [bind_none h]
    rw [bind_none hbind, bind_none h, bind_none h]
  | some a =>
    have hbind : (m >>= f).result = (f a).result := by rw [bind_some h]
    rw [bind_some h (fun a => f a >>= g)]
    cases hf : (f a).result with
    | none => rw [bind_none (hbind.trans hf), bind_some h, bind_none hf]
    | some b =>
      rw [bind_some (hbind.trans hf), bind_some h, bind_some hf, List.append_assoc]

theorem stop_then (f : α → Logged ε β) : (stop : Logged ε α) >>= f = stop := rfl

/-! ## §2. Programs that begin alike. -/

/-- **What comes after the same beginning** decides whether two programs are equal. -/
theorem then_eq_then_iff (m : Logged ε α) (f g : α → Logged ε β) :
    m >>= f = m >>= g ↔ ∀ a, m.result = some a → f a = g a := by
  cases h : m.result with
  | none =>
    rw [bind_none h, bind_none h]
    exact ⟨fun _ a ha => (by cases ha), fun _ => rfl⟩
  | some a =>
    rw [bind_some h, bind_some h]
    constructor
    · intro heq b hb
      obtain rfl := Option.some.inj hb
      obtain ⟨hlog, hresult⟩ := Logged.mk.inj heq
      exact ext (List.append_cancel_left hlog) hresult
    · intro heq
      rw [heq a rfl]

/-- The first events are the same when the programs are. -/
theorem write_then_eq_iff (d e : ε) (f g : Unit → Logged ε β) :
    write d >>= f = write e >>= g ↔ d = e ∧ f () = g () := by
  constructor
  · intro heq
    obtain ⟨hlog, hresult⟩ := Logged.mk.inj heq
    obtain ⟨rfl, hrest⟩ := List.cons.inj hlog
    exact ⟨rfl, ext hrest hresult⟩
  · rintro ⟨rfl, heq⟩
    show (⟨[d] ++ (f ()).log, (f ()).result⟩ : Logged ε β) = ⟨[d] ++ (g ()).log, (g ()).result⟩
    rw [heq]

/-- A last step that can be undone changes nothing. -/
theorem then_pure_eq_iff {f : α → β} (hf : Function.Injective f) (m n : Logged ε α) :
    (m >>= fun a => pure (f a)) = (n >>= fun a => pure (f a)) ↔ m = n := by
  refine ⟨fun heq => ?_, fun heq => by rw [heq]⟩
  have hparts : ∀ m : Logged ε α, (m >>= fun a => (pure (f a) : Logged ε β)) =
      ⟨m.log, m.result.map f⟩ := by
    intro m
    cases h : m.result with
    | none => exact bind_none h _
    | some a =>
      rw [bind_some h]
      show (⟨m.log ++ [], some (f a)⟩ : Logged ε β) = ⟨m.log, some (f a)⟩
      rw [List.append_nil]
  rw [hparts m, hparts n] at heq
  obtain ⟨hlog, hresult⟩ := Logged.mk.inj heq
  exact ext hlog (Option.map_injective hf hresult)

theorem lift_then_eq_iff (result : Option α) (f g : α → Logged ε β) :
    lift result >>= f = lift result >>= g ↔ ∀ a, result = some a → f a = g a :=
  then_eq_then_iff (lift result) f g

end Logged

end LivingObjects.Lib
