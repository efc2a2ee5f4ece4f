/-
  LivingObjects.Interp.Nest — dynamic nestings and the control state they make.

  A nesting is a list of levels, innermost first: sends, block activations,
  protected blocks, transactions, and the handler and ensure blocks the
  primitives run.  `controlOf` is the control state the primitives build for it.
  The facts here say where the records of a level are on the C stack and on the
  lists, and so which of them a `longjmp` still reaches.
-/
import Mathlib
import LivingObjects.Interp.Control

namespace LivingObjects.Interp

open LivingObjects.VM

/-! ## §1. Levels. -/

/-- What has been entered. -/
inductive Kind where
  | send
  | block
  | onDo (exceptionClass : Oop)
  | ensure
  | transaction (kind : TransactionKind)
  /-- The handler block of an `on:do:`. -/
  | handlerBlock
  /-- The ensure block of an `ensure:`. -/
  | ensureBlock
  deriving DecidableEq, Repr

/-- A level of the nesting: its activation and, unless it is a mere call, the C
frame of its primitive. -/
structure Level where
  kind : Kind
  frame : Frame
  native : Nat
  deriving DecidableEq, Repr

/-- Enter a level. -/
def Level.enter (l : Level) (c : Control) : Control :=
  match l.kind with
  | .send | .block => activateMethod l.frame c
  | .onDo exceptionClass => blockOnDo l.native l.frame exceptionClass c
  | .ensure => blockEnsure l.native l.frame c
  | .transaction kind => transactionPrimitive l.native l.frame kind c
  | .handlerBlock =>
    invokeBlockClosure l.native l.frame (.handlerBlock c.currentExceptionHandler) c
  | .ensureBlock => invokeBlockClosure l.native l.frame .ensureBlock c

/-- The control state of a nesting. -/
def controlOf : List Level → Control
  | [] => Control.initial
  | l :: ls => l.enter (controlOf ls)

/-- The level runs in the loop of the level around it. -/
def Level.IsCall (l : Level) : Prop := l.kind = .send ∨ l.kind = .block

/-- The level is an `on:do:` with its protected block running. -/
def Level.IsOnDo (l : Level) : Prop := ∃ exceptionClass, l.kind = .onDo exceptionClass

/-- The level is a transaction with its block running. -/
def Level.IsTransaction (l : Level) : Prop := ∃ kind, l.kind = .transaction kind

/-- The level is an `ensure:` or a transaction with its block running. -/
def Level.Guards (l : Level) : Prop := l.kind = .ensure ∨ l.IsTransaction

instance (l : Level) : Decidable l.IsCall := by unfold Level.IsCall; infer_instance

instance (l : Level) : Decidable l.IsOnDo := by
  unfold Level.IsOnDo
  exact match h : l.kind with
    | .onDo c => .isTrue ⟨c, rfl⟩
    | .send | .block | .ensure | .transaction _ | .handlerBlock | .ensureBlock =>
      .isFalse (fun ⟨c, hc⟩ => by simp at hc)

instance (l : Level) : Decidable l.IsTransaction := by
  unfold Level.IsTransaction
  exact match h : l.kind with
    | .transaction k => .isTrue ⟨k, rfl⟩
    | .send | .block | .onDo _ | .ensure | .handlerBlock | .ensureBlock =>
      .isFalse (fun ⟨k, hk⟩ => by simp at hk)

instance (l : Level) : Decidable l.Guards := by unfold Level.Guards; infer_instance

/-! ## §2. Where the records are. -/

/-- The identities on the C stack are distinct. -/
def Distinct (ls : List Level) : Prop := ((controlOf ls).natives.map Native.id).Nodup

instance (ls : List Level) : Decidable (Distinct ls) := by unfold Distinct; infer_instance

/-- Only calls leave the C stack as it is. -/
theorem natives_enter (l : Level) (c : Control) :
    (l.IsCall ∧ (l.enter c).natives = c.natives) ∨
    (¬ l.IsCall ∧ ∃ body, (l.enter c).natives = ⟨l.native, l.frame.id, c.frames, body⟩ :: c.natives) := by
  unfold Level.IsCall Level.enter
  rcases hk : l.kind with _ | _ | cls | _ | k | _ | _
  · exact .inl ⟨.inl rfl, rfl⟩
  · exact .inl ⟨.inr rfl, rfl⟩
  · exact .inr ⟨by simp, _, rfl⟩
  · exact .inr ⟨by simp, _, rfl⟩
  · refine .inr ⟨by simp, ?_⟩
    simp only [transactionPrimitive]
    split
    · exact ⟨_, rfl⟩
    · exact ⟨_, rfl⟩
  · exact .inr ⟨by simp, _, rfl⟩
  · exact .inr ⟨by simp, _, rfl⟩

/-- Any other level has a C frame of its own. -/
theorem natives_enter_own {l : Level} (h : ¬ l.IsCall) (c : Control) :
    ∃ body, (l.enter c).natives = ⟨l.native, l.frame.id, c.frames, body⟩ :: c.natives := by
  rcases natives_enter l c with ⟨hcall, -⟩ | ⟨-, hpush⟩
  · exact absurd hcall h
  · exact hpush

theorem frames_enter (l : Level) (c : Control) : (l.enter c).frames = l.frame :: c.frames := by
  unfold Level.enter
  rcases hk : l.kind with _ | _ | cls | _ | k | _ | _
  · rfl
  · rfl
  · rfl
  · rfl
  · simp only [transactionPrimitive]
    split <;> rfl
  · rfl
  · rfl

/-- The C stack of a nesting lies on top of that of its outer part. -/
theorem natives_append (inner outer : List Level) :
    ∃ above, (controlOf (inner ++ outer)).natives = above ++ (controlOf outer).natives := by
  induction inner with
  | nil => exact ⟨[], rfl⟩
  | cons l ls ih =>
    obtain ⟨above, habove⟩ := ih
    show ∃ above, (l.enter (controlOf (ls ++ outer))).natives = _
    rcases natives_enter l (controlOf (ls ++ outer)) with ⟨-, hsame⟩ | ⟨-, body, hpush⟩
    · exact ⟨above, by rw [hsame, habove]⟩
    · exact ⟨_ :: above, by rw [hpush, habove]; rfl⟩

theorem Distinct.tail {l : Level} {ls : List Level} (h : Distinct (l :: ls)) : Distinct ls := by
  unfold Distinct at h
  show ((controlOf ls).natives.map Native.id).Nodup
  rcases natives_enter l (controlOf ls) with ⟨-, hsame⟩ | ⟨-, body, hpush⟩
  · rw [← hsame]
    exact h
  · rw [controlOf, hpush, List.map_cons] at h
    exact (List.nodup_cons.mp h).2

theorem Distinct.suffix {inner outer : List Level} (h : Distinct (inner ++ outer)) :
    Distinct outer := by
  induction inner with
  | nil => exact h
  | cons l ls ih => exact ih h.tail

/-- A jump reaches a C frame below others of other identities. -/
theorem longjmp_append {above rest : List Native} {n : Native}
    (h : ∀ m ∈ above, m.id ≠ n.id) : longjmp n.id (above ++ n :: rest) = some (n, rest) := by
  unfold longjmp
  have hdrop : (above ++ n :: rest).dropWhile (fun m => m.id != n.id) = n :: rest := by
    rw [List.dropWhile_append_of_pos (by simpa using h), List.dropWhile_cons_of_neg (by simp)]
  rw [hdrop]

/-- A jump to a C frame that is not on the stack. -/
theorem longjmp_gone {natives : List Native} {native : Nat} (h : ∀ m ∈ natives, m.id ≠ native) :
    longjmp native natives = none := by
  unfold longjmp
  have hdrop : natives.dropWhile (fun m => m.id != native) = [] :=
    List.dropWhile_eq_nil_iff.mpr (by simpa using h)
  rw [hdrop]

/-- A jump finds every C frame that is on the stack. -/
theorem longjmp_isSome {natives : List Native} {native : Nat} (h : ∃ n ∈ natives, n.id = native) :
    (longjmp native natives).isNone = false := by
  obtain ⟨n, hn, hid⟩ := h
  have hdrop : natives.dropWhile (fun m => m.id != native) ≠ [] := by
    intro hnil
    have hne := List.dropWhile_eq_nil_iff.mp hnil n hn
    simp [hid] at hne
  unfold longjmp
  split
  · next hnil => exact absurd hnil hdrop
  · rfl

/-! ## §3. The lists. -/

/-- Handlers are recorded by `on:do:` alone. -/
theorem handlers_enter (l : Level) (c : Control) :
    (l.enter c).currentExceptionHandler = c.currentExceptionHandler ∨
    (∃ exceptionClass, l.kind = .onDo exceptionClass ∧
      (l.enter c).currentExceptionHandler
        = ⟨l.native, exceptionClass⟩ :: c.currentExceptionHandler) := by
  unfold Level.enter
  rcases hk : l.kind with _ | _ | cls | _ | k | _ | _
  · exact .inl rfl
  · exact .inl rfl
  · exact .inr ⟨cls, rfl, rfl⟩
  · exact .inl rfl
  · refine .inl ?_
    simp only [transactionPrimitive]
    split <;> rfl
  · exact .inl rfl
  · exact .inl rfl

theorem handlers_enter_of_not_onDo {l : Level} (h : ¬ l.IsOnDo) (c : Control) :
    (l.enter c).currentExceptionHandler = c.currentExceptionHandler := by
  rcases handlers_enter l c with hsame | ⟨cls, hkind, -⟩
  · exact hsame
  · exact absurd ⟨cls, hkind⟩ h

/-- Ensure records are left by `ensure:` and by a transaction outside any other. -/
theorem guards_enter (l : Level) (c : Control) :
    ((l.enter c).currentEnsureFrame = c.currentEnsureFrame ∧
      (l.enter c).currentTransactionLogFrame = c.currentTransactionLogFrame ∧
      (¬ l.Guards ∨ l.IsTransaction ∧ c.currentTransactionLogFrame ≠ [])) ∨
    (l.kind = .ensure ∧ (l.enter c).currentEnsureFrame = ⟨l.native⟩ :: c.currentEnsureFrame ∧
      (l.enter c).currentTransactionLogFrame = c.currentTransactionLogFrame ∧
      (l.enter c).natives
        = ⟨l.native, l.frame.id, c.frames, .ensure c.currentEnsureFrame⟩ :: c.natives) ∨
    ((∃ kind, l.kind = .transaction kind ∧ (l.enter c).natives
        = ⟨l.native, l.frame.id, c.frames,
            .transaction kind c.currentEnsureFrame c.currentTransactionLogFrame⟩ :: c.natives) ∧
      c.currentTransactionLogFrame = [] ∧
      (l.enter c).currentEnsureFrame = ⟨l.native⟩ :: c.currentEnsureFrame ∧
      (l.enter c).currentTransactionLogFrame = ⟨l.native⟩ :: c.currentTransactionLogFrame) := by
  unfold Level.Guards Level.IsTransaction Level.enter
  rcases hk : l.kind with _ | _ | cls | _ | k | _ | _
  · exact .inl ⟨rfl, rfl, .inl (by simp)⟩
  · exact .inl ⟨rfl, rfl, .inl (by simp)⟩
  · exact .inl ⟨rfl, rfl, .inl (by simp)⟩
  · exact .inr (.inl ⟨rfl, rfl, rfl, rfl⟩)
  · simp only [transactionPrimitive]
    by_cases hactive : c.currentTransactionLogFrame ≠ []
    · rw [if_pos hactive]
      exact .inl ⟨rfl, rfl, .inr ⟨⟨k, rfl⟩, hactive⟩⟩
    · rw [if_neg hactive]
      exact .inr (.inr ⟨⟨k, rfl, rfl⟩, by simpa using hactive, rfl, rfl⟩)
  · exact .inl ⟨rfl, rfl, .inl (by simp)⟩
  · exact .inl ⟨rfl, rfl, .inl (by simp)⟩

/-- Without a guard there are no ensure records and no transaction. -/
theorem unguarded (ls : List Level) (h : ∀ l ∈ ls, ¬ l.Guards) :
    (controlOf ls).currentEnsureFrame = [] ∧ (controlOf ls).currentTransactionLogFrame = [] := by
  induction ls with
  | nil => exact ⟨rfl, rfl⟩
  | cons l ls ih =>
    obtain ⟨hensure, htxn⟩ := ih (fun l' hl' => h l' (List.mem_cons_of_mem l hl'))
    have hl := h l List.mem_cons_self
    show (l.enter (controlOf ls)).currentEnsureFrame = [] ∧ _
    rcases guards_enter l (controlOf ls) with ⟨he, ht, -⟩ | ⟨hkind, -⟩ | ⟨⟨k, hkind, -⟩, -⟩
    · exact ⟨he.trans hensure, ht.trans htxn⟩
    · exact absurd (.inl hkind) hl
    · exact absurd (.inr ⟨k, hkind⟩) hl

/-- A transaction is active when there is one in the nesting. -/
theorem transactionActive {ls : List Level}
    (h : (controlOf ls).currentTransactionLogFrame ≠ []) : ∃ l ∈ ls, l.IsTransaction := by
  induction ls with
  | nil => exact absurd rfl h
  | cons l ls ih =>
    have hih : (controlOf ls).currentTransactionLogFrame ≠ [] → ∃ l' ∈ l :: ls, l'.IsTransaction := by
      intro hactive
      obtain ⟨l', hl', htxn⟩ := ih hactive
      exact ⟨l', List.mem_cons_of_mem l hl', htxn⟩
    replace h : (l.enter (controlOf ls)).currentTransactionLogFrame ≠ [] := h
    rcases guards_enter l (controlOf ls) with ⟨-, ht, -⟩ | ⟨-, -, ht, -⟩ | ⟨⟨k, hkind, -⟩, -⟩
    · exact hih (ht ▸ h)
    · exact hih (ht ▸ h)
    · exact ⟨l, List.mem_cons_self, k, hkind⟩

/-- No transaction is active without one in the nesting. -/
theorem transactionInactive {ls : List Level}
    (h : (controlOf ls).currentTransactionLogFrame = []) : ∀ l ∈ ls, ¬ l.IsTransaction := by
  induction ls with
  | nil => simp
  | cons l ls ih =>
    intro l' hl' htxn
    replace h : (l.enter (controlOf ls)).currentTransactionLogFrame = [] := h
    rcases guards_enter l (controlOf ls) with ⟨-, ht, hor⟩ | ⟨hkind, -, ht, -⟩ | ⟨-, -, -, ht⟩
    · rw [ht] at h
      rcases List.mem_cons.mp hl' with rfl | hmem
      · rcases hor with hplain | ⟨-, hactive⟩
        · exact hplain (.inr htxn)
        · exact hactive h
      · exact ih h l' hmem htxn
    · rw [ht] at h
      rcases List.mem_cons.mp hl' with rfl | hmem
      · obtain ⟨k, hk⟩ := htxn
        rw [hkind] at hk
        cases hk
      · exact ih h l' hmem htxn
    · rw [ht] at h
      exact absurd h (List.cons_ne_nil _ _)

/-- With a guard there is an ensure record. -/
theorem guarded (ls : List Level) (h : ∃ l ∈ ls, l.Guards) :
    (controlOf ls).currentEnsureFrame ≠ [] := by
  induction ls with
  | nil =>
    obtain ⟨l, hl, -⟩ := h
    exact absurd hl List.not_mem_nil
  | cons l ls ih =>
    have hsome : (controlOf ls).currentTransactionLogFrame ≠ [] →
        ∃ l' ∈ ls, l'.Guards := by
      intro hactive
      by_contra hnone
      exact hactive (unguarded ls (fun l' hl' hg => hnone ⟨l', hl', hg⟩)).2
    show (l.enter (controlOf ls)).currentEnsureFrame ≠ []
    rcases guards_enter l (controlOf ls) with ⟨he, -, hor⟩ | ⟨-, he, -⟩ | ⟨-, -, he, -⟩
    · rw [he]
      apply ih
      rcases hor with hplain | ⟨-, hactive⟩
      · obtain ⟨l', hl', hg⟩ := h
        rcases List.mem_cons.mp hl' with rfl | hmem
        · exact absurd hg hplain
        · exact ⟨l', hmem, hg⟩
      · exact hsome hactive
    · rw [he]
      exact List.cons_ne_nil _ _
    · rw [he]
      exact List.cons_ne_nil _ _

/-- The innermost handler record belongs to the innermost `on:do:`. -/
theorem innermost_handler {inner : List Level} {l : Level} {outer : List Level} {cls : Oop}
    (hinner : ∀ l' ∈ inner, ¬ l'.IsOnDo) (hl : l.kind = .onDo cls) :
    (controlOf (inner ++ l :: outer)).currentExceptionHandler
      = ⟨l.native, cls⟩ :: (controlOf outer).currentExceptionHandler := by
  induction inner with
  | nil =>
    show (l.enter (controlOf outer)).currentExceptionHandler = _
    unfold Level.enter
    rw [hl]
    rfl
  | cons l' ls ih =>
    show (l'.enter (controlOf (ls ++ l :: outer))).currentExceptionHandler = _
    rw [handlers_enter_of_not_onDo (hinner l' List.mem_cons_self)]
    exact ih (fun l'' hl'' => hinner l'' (List.mem_cons_of_mem l' hl''))

/-- Levels without `on:do:` leave the handlers as they are. -/
theorem handlers_append {inner : List Level} (outer : List Level)
    (hinner : ∀ l ∈ inner, ¬ l.IsOnDo) :
    (controlOf (inner ++ outer)).currentExceptionHandler
      = (controlOf outer).currentExceptionHandler := by
  induction inner with
  | nil => rfl
  | cons l ls ih =>
    show (l.enter (controlOf (ls ++ outer))).currentExceptionHandler = _
    rw [handlers_enter_of_not_onDo (hinner l List.mem_cons_self)]
    exact ih (fun l' hl' => hinner l' (List.mem_cons_of_mem l hl'))

end LivingObjects.Interp
