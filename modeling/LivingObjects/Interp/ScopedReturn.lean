/-
  LivingObjects.Interp.ScopedReturn — `^` out of protected blocks.

  The frame walk of `BC_RETURN_NON_LOCAL` follows the Smalltalk chain alone.  It
  does not leave the interpreter loops it passes, and no primitive gets to pop its
  record: the scopes between the block and its home method are restored exactly
  when there are none.
-/
import Mathlib
import LivingObjects.Interp.Nest

namespace LivingObjects.Interp

/-! ## §1. The chain and the C stack of a nesting. -/

/-- The chain of activations, with the program's first one at its end. -/
theorem frames_controlOf (ls : List Level) :
    (controlOf ls).frames = ls.map Level.frame ++ [⟨0, none⟩] := by
  induction ls with
  | nil => rfl
  | cons l ls ih =>
    show (l.enter (controlOf ls)).frames = _
    rw [frames_enter, ih]
    rfl

theorem frames_append (inner outer : List Level) :
    (controlOf (inner ++ outer)).frames
      = inner.map Level.frame ++ (controlOf outer).frames := by
  simp only [frames_controlOf, List.map_append, List.append_assoc]

/-- The activations of a nesting have distinct identities. -/
def DistinctFrames (ls : List Level) : Prop := ((controlOf ls).frames.map Frame.id).Nodup

instance (ls : List Level) : Decidable (DistinctFrames ls) := by
  unfold DistinctFrames
  infer_instance

/-- Every level but the calls has a C frame. -/
theorem natives_length (inner outer : List Level) :
    (controlOf (inner ++ outer)).natives.length
      = inner.countP (fun l => ¬ l.IsCall) + (controlOf outer).natives.length := by
  induction inner with
  | nil => simp
  | cons l ls ih =>
    show (l.enter (controlOf (ls ++ outer))).natives.length = _
    rcases natives_enter l (controlOf (ls ++ outer)) with ⟨hcall, hsame⟩ | ⟨hown, body, hpush⟩
    · rw [hsame, ih, List.countP_cons_of_neg (by simpa using hcall)]
    · rw [hpush, List.length_cons, ih, List.countP_cons_of_pos (by simpa using hown)]
      omega

/-- Calls leave everything but the chain as it is. -/
theorem controlOf_calls {inner : List Level} (outer : List Level) (h : ∀ l ∈ inner, l.IsCall) :
    { controlOf (inner ++ outer) with frames := (controlOf outer).frames } = controlOf outer := by
  induction inner with
  | nil => rfl
  | cons l ls ih =>
    rw [← ih (fun l' hl' => h l' (List.mem_cons_of_mem l hl'))]
    show ({ l.enter (controlOf (ls ++ outer)) with frames := _ } : Control) = _
    rcases h l List.mem_cons_self with hkind | hkind
    · simp only [Level.enter, hkind, activateMethod]
    · simp only [Level.enter, hkind, activateMethod]

/-- The innermost loop has been entered with the activation of a level that is no
call, or with the program's first one. -/
theorem entryFp_controlOf (ls : List Level) :
    entryFp (controlOf ls) = some 0 ∨
      ∃ l ∈ ls, ¬ l.IsCall ∧ entryFp (controlOf ls) = some l.frame.id := by
  induction ls with
  | nil => exact .inl rfl
  | cons l ls ih =>
    show entryFp (l.enter (controlOf ls)) = some 0 ∨
      ∃ l' ∈ l :: ls, ¬ l'.IsCall ∧ entryFp (l.enter (controlOf ls)) = some l'.frame.id
    rcases natives_enter l (controlOf ls) with ⟨-, hsame⟩ | ⟨hown, body, hpush⟩
    · have hentry : entryFp (l.enter (controlOf ls)) = entryFp (controlOf ls) := by
        rw [entryFp, hsame, entryFp]
      rw [hentry]
      rcases ih with hfirst | ⟨l', hl', hown, heq⟩
      · exact .inl hfirst
      · exact .inr ⟨l', List.mem_cons_of_mem l hl', hown, heq⟩
    · exact .inr ⟨l, List.mem_cons_self, hown, by rw [entryFp, hpush]; rfl⟩

/-- The innermost loop has not been entered with the activation of a mere call. -/
theorem entryFp_ne_call {inner outer : List Level} {H : Level}
    (hframes : DistinctFrames (inner ++ H :: outer)) (hH : H.IsCall) :
    entryFp (controlOf (inner ++ H :: outer)) ≠ some H.frame.id := by
  have hmem : H ∈ inner ++ H :: outer := by simp
  unfold DistinctFrames at hframes
  rw [frames_controlOf, List.map_append, List.map_map, List.nodup_append] at hframes
  obtain ⟨hnodup, -, hfirst⟩ := hframes
  intro hentry
  rcases entryFp_controlOf (inner ++ H :: outer) with hzero | ⟨l, hl, hown, heq⟩
  · rw [hzero] at hentry
    exact hfirst H.frame.id (List.mem_map.mpr ⟨H, hmem, rfl⟩) 0 (by simp)
      (Option.some.inj hentry).symm
  · rw [heq] at hentry
    have hsame : l = H :=
      List.inj_on_of_nodup_map hnodup hl hmem (Option.some.inj hentry)
    exact hown (hsame ▸ hH)

/-- The walk along the chain stops at the home activation. -/
theorem dropWhile_home {inner outer : List Level} {H : Level}
    (hframes : DistinctFrames (inner ++ H :: outer)) :
    (controlOf (inner ++ H :: outer)).frames.dropWhile (fun g => g.id != H.frame.id)
      = H.frame :: (controlOf outer).frames := by
  have hchain : (controlOf (inner ++ H :: outer)).frames
      = inner.map Level.frame ++ H.frame :: (controlOf outer).frames := by
    rw [frames_append, ← List.singleton_append, frames_append]
    rfl
  have hbefore : ∀ g ∈ inner.map Level.frame, (g.id != H.frame.id) = true := by
    unfold DistinctFrames at hframes
    rw [hchain, List.map_append, List.nodup_append] at hframes
    intro g hg
    simpa using hframes.2.2 g.id (List.mem_map_of_mem hg) H.frame.id (by simp)
  rw [hchain, List.dropWhile_append_of_pos hbefore, List.dropWhile_cons_of_neg (by simp)]

/-! ## §2. Leaving the scopes. -/

/-- The event is code of the program being run, not a transaction ending. -/
def Event.runsCode : Event → Bool
  | .resumed _ | .ranEnsure _ => true
  | .committed _ | .aborted _ => false

/-- The ensure blocks of some levels, innermost first. -/
def ensureBlocks (ls : List Level) : List Event :=
  (ls.filter (fun l => l.kind = .ensure)).map (fun l => .ranEnsure l.native)

/-- `^` in the innermost block leaves the levels up to its home method, properly: their
ensure blocks run, innermost first and once each, then the caller goes on, and once;
the chain, the C stack with its loops, the two lists and the active transaction are
what they were when the home method was called. -/
def ScopedReturn (f : Frame) (left outer : List Level) : Prop :=
  ∃ events, returnNonLocal f (controlOf (left ++ outer)) = some (events, controlOf outer) ∧
    events.filter Event.runsCode = ensureBlocks left ++ resumedAt (controlOf outer).frames

/-- What `BC_RETURN_NON_LOCAL` does in a nesting: the caller goes on, and only the chain
has been cut back. -/
theorem returnNonLocal_nest {f : Frame} {b H : Level} {inner outer : List Level}
    (hframes : DistinctFrames (b :: inner ++ H :: outer)) (hH : H.kind = .send)
    (hhome : b.frame.home = some H.frame.id) :
    returnNonLocal f (controlOf (b :: inner ++ H :: outer))
      = some (resumedAt (controlOf outer).frames,
          { controlOf (b :: inner ++ H :: outer) with frames := (controlOf outer).frames }) := by
  have htop : ∃ callers, (controlOf (b :: inner ++ H :: outer)).frames = b.frame :: callers :=
    ⟨_, frames_enter b _⟩
  obtain ⟨callers, htop⟩ := htop
  have hdrop := dropWhile_home hframes
  rw [htop] at hdrop
  have hentry : entryFp { controlOf (b :: inner ++ H :: outer) with frames := (controlOf outer).frames }
      ≠ some H.frame.id := entryFp_ne_call hframes (.inl hH)
  rw [returnNonLocal, htop]
  simp only [hhome, hdrop, if_neg hentry]

/-- With only calls to leave, everything is as it was when the home method was called. -/
theorem scopedReturn_of_calls {f : Frame} {b H : Level} {inner outer : List Level}
    (hframes : DistinctFrames (b :: inner ++ H :: outer)) (hH : H.kind = .send)
    (hhome : b.frame.home = some H.frame.id) (hcalls : ∀ l ∈ b :: inner, l.IsCall) :
    ScopedReturn f (b :: inner ++ [H]) outer := by
  have hsplit : b :: inner ++ [H] ++ outer = b :: inner ++ H :: outer := by simp
  have hall : ∀ l ∈ b :: inner ++ [H], l.IsCall := by
    intro l hl
    rcases List.mem_append.mp hl with hmem | hmem
    · exact hcalls l hmem
    · obtain rfl : l = H := by simpa using hmem
      exact .inl hH
  have hback := controlOf_calls outer hall
  have hnoEnsure : ensureBlocks (b :: inner ++ [H]) = [] := by
    unfold ensureBlocks
    rw [List.filter_eq_nil_iff.mpr, List.map_nil]
    intro l hl
    rcases hall l hl with hkind | hkind
    · simp [hkind]
    · simp [hkind]
  unfold ScopedReturn
  rw [hsplit] at hback ⊢
  refine ⟨resumedAt (controlOf outer).frames, ?_, ?_⟩
  · rw [returnNonLocal_nest hframes hH hhome, hback]
  · rw [hnoEnsure, List.nil_append, List.filter_eq_self]
    intro event hevent
    unfold resumedAt at hevent
    split at hevent
    · obtain rfl := List.mem_singleton.mp hevent
      rfl
    · cases hevent

/-- A level with a C frame of its own stays on the C stack. -/
theorem calls_of_scopedReturn {f : Frame} {b H : Level} {inner outer : List Level}
    (hframes : DistinctFrames (b :: inner ++ H :: outer)) (hH : H.kind = .send)
    (hhome : b.frame.home = some H.frame.id)
    (hscoped : ScopedReturn f (b :: inner ++ [H]) outer) : ∀ l ∈ b :: inner, l.IsCall := by
  have hsplit : b :: inner ++ [H] ++ outer = b :: inner ++ H :: outer := by simp
  obtain ⟨events, hreturn, -⟩ := hscoped
  rw [hsplit, returnNonLocal_nest hframes hH hhome] at hreturn
  have hlength : (controlOf (b :: inner ++ H :: outer)).natives.length
      = (controlOf outer).natives.length :=
    congrArg (fun p : List Event × Control => p.2.natives.length) (Option.some.inj hreturn)
  have hcount := natives_length (b :: inner ++ [H]) outer
  rw [hsplit, hlength] at hcount
  have hzero : (b :: inner ++ [H]).countP (fun l => ¬ l.IsCall) = 0 := by omega
  intro l hl
  by_contra hown
  exact List.countP_eq_zero.mp hzero l (List.mem_append_left _ hl) (by simpa using hown)

/-- **`^` restores the scopes it leaves exactly when it leaves none**: when only sends
and block activations lie between the block and its home method. -/
theorem nonLocalReturn_scoped_iff (f : Frame) (b H : Level) (inner outer : List Level)
    (hframes : DistinctFrames (b :: inner ++ H :: outer)) (hH : H.kind = .send)
    (hhome : b.frame.home = some H.frame.id) :
    ScopedReturn f (b :: inner ++ [H]) outer ↔ ∀ l ∈ b :: inner, l.IsCall :=
  ⟨calls_of_scopedReturn hframes hH hhome, scopedReturn_of_calls hframes hH hhome⟩

/-- `block value` sent by a method called from the home method, with `block := [^1]`. -/
theorem calledBlock_scoped :
    ScopedReturn ⟨5, none⟩ [⟨.block, ⟨4, some 2⟩, 0⟩, ⟨.send, ⟨3, none⟩, 0⟩, ⟨.send, ⟨2, none⟩, 0⟩]
      [⟨.ensure, ⟨1, some 0⟩, 1⟩] :=
  (nonLocalReturn_scoped_iff ⟨5, none⟩ ⟨.block, ⟨4, some 2⟩, 0⟩ ⟨.send, ⟨2, none⟩, 0⟩
    [⟨.send, ⟨3, none⟩, 0⟩] [⟨.ensure, ⟨1, some 0⟩, 1⟩] (by decide) rfl rfl).mpr (by decide)

/-- The events of the next returns of the running activations. -/
def eventsOfReturns (f : Frame) : Nat → Control → List Event
  | 0, _ => []
  | n + 1, c =>
    let (events, c) := returnStackTop f c
    events ++ eventsOfReturns f n c

/-- `[^1] ensure: [..]` in a method called from activation 1: the caller goes on before
the ensure block has run and in the loop of the `ensure:`.  When that loop ends, the
ensure block runs, the home method goes on behind its `ensure:`, and so does its
caller, a second time. -/
theorem ensureLeft_resumedTwice :
    let left : List Level := [⟨.ensure, ⟨3, some 2⟩, 1⟩, ⟨.send, ⟨2, none⟩, 0⟩]
    let outer : List Level := [⟨.send, ⟨1, none⟩, 0⟩]
    DistinctFrames (left ++ outer) ∧
      (returnNonLocal ⟨4, some 2⟩ (controlOf (left ++ outer))).map
          (fun r => r.1 ++ eventsOfReturns ⟨4, some 2⟩ 4 r.2)
        = some [.resumed 1, .resumed 0, .ranEnsure 1, .resumed 2, .resumed 1] ∧
      ¬ ScopedReturn ⟨4, some 2⟩ left outer := by
  refine ⟨by decide, by decide, ?_⟩
  rintro ⟨events, hreturn, -⟩
  have hcontrol := congrArg (Option.map Prod.snd) hreturn
  revert hcontrol
  show ¬ (_ = some (controlOf [⟨.send, ⟨1, none⟩, 0⟩]))
  decide

end LivingObjects.Interp
