/-
  LivingObjects.Interp.Runs — the control state along a run.

  As long as every signal and every `^` meets its condition, the control state is
  that of the nesting one expects, which an abstract machine computes on lists of
  levels; so it stays so however long the program runs, and no record that is used
  belongs to a C frame that is gone.
-/
import LivingObjects.Interp.Exceptions
import LivingObjects.Interp.ScopedReturn

namespace LivingObjects.Interp

open LivingObjects.VM

/-! ## §1. Fresh levels. -/

/-- The identities in use are distinct and below the next one. -/
structure Fresh (ls : List Level) (next : Nat) : Prop where
  natives : Distinct ls
  frames : DistinctFrames ls
  nativesBelow : ∀ n ∈ (controlOf ls).natives, n.id < next
  framesBelow : ∀ g ∈ (controlOf ls).frames, g.id < next

theorem Fresh.initial : Fresh [] 1 where
  natives := by decide
  frames := by decide
  nativesBelow := by decide
  framesBelow := by decide

theorem Fresh.suffix {inner outer : List Level} {next : Nat} (h : Fresh (inner ++ outer) next) :
    Fresh outer next where
  natives := h.natives.suffix
  frames := by
    have hframes := h.frames
    unfold DistinctFrames at hframes ⊢
    rw [frames_append, List.map_append] at hframes
    exact (List.nodup_append.mp hframes).2.1
  nativesBelow := by
    obtain ⟨above, habove⟩ := natives_append inner outer
    intro n hn
    exact h.nativesBelow n (habove ▸ List.mem_append_right above hn)
  framesBelow := by
    intro g hg
    refine h.framesBelow g ?_
    rw [frames_append]
    exact List.mem_append_right _ hg

/-- Time goes by. -/
theorem Fresh.later {ls : List Level} {next : Nat} (h : Fresh ls next) : Fresh ls (next + 1) where
  natives := h.natives
  frames := h.frames
  nativesBelow := fun n hn => Nat.lt_succ_of_lt (h.nativesBelow n hn)
  framesBelow := fun g hg => Nat.lt_succ_of_lt (h.framesBelow g hg)

/-- A level with a new activation, on a C frame whose identity is not in use. -/
theorem Fresh.enter {ls : List Level} {next : Nat} (h : Fresh ls next) (kind : Kind)
    (home : Option Nat) {native : Nat} (hnative : native < next + 1)
    (hunused : ∀ n ∈ (controlOf ls).natives, n.id ≠ native) :
    Fresh (⟨kind, ⟨next, home⟩, native⟩ :: ls) (next + 1) := by
  have hframes : (controlOf (⟨kind, ⟨next, home⟩, native⟩ :: ls)).frames
      = ⟨next, home⟩ :: (controlOf ls).frames := frames_enter _ _
  have hnatives := natives_enter ⟨kind, ⟨next, home⟩, native⟩ (controlOf ls)
  constructor
  · show ((Level.enter _ (controlOf ls)).natives.map Native.id).Nodup
    rcases hnatives with ⟨-, hsame⟩ | ⟨-, body, hpush⟩
    · rw [hsame]
      exact h.natives
    · rw [hpush, List.map_cons, List.nodup_cons]
      refine ⟨fun hmem => ?_, h.natives⟩
      obtain ⟨n, hn, hid⟩ := List.mem_map.mp hmem
      exact hunused n hn hid
  · unfold DistinctFrames
    rw [hframes, List.map_cons, List.nodup_cons]
    refine ⟨fun hmem => ?_, h.frames⟩
    obtain ⟨g, hg, hid⟩ := List.mem_map.mp hmem
    have hbelow := h.framesBelow g hg
    replace hid : g.id = next := hid
    omega
  · intro n hn
    replace hn : n ∈ (Level.enter _ (controlOf ls)).natives := hn
    rcases hnatives with ⟨-, hsame⟩ | ⟨-, body, hpush⟩
    · rw [hsame] at hn
      exact Nat.lt_succ_of_lt (h.nativesBelow n hn)
    · rw [hpush] at hn
      rcases List.mem_cons.mp hn with rfl | hmem
      · exact hnative
      · exact Nat.lt_succ_of_lt (h.nativesBelow n hmem)
  · intro g hg
    rw [hframes] at hg
    rcases List.mem_cons.mp hg with rfl | hmem
    · exact Nat.lt_succ_self next
    · exact Nat.lt_succ_of_lt (h.framesBelow g hmem)

/-- A new activation on the C frame of a level that is left. -/
theorem Fresh.reenter {l : Level} {ls : List Level} {next : Nat} (h : Fresh (l :: ls) next)
    (hown : ¬ l.IsCall) (kind : Kind) (home : Option Nat) :
    Fresh (⟨kind, ⟨next, home⟩, l.native⟩ :: ls) (next + 1) := by
  obtain ⟨body, hpush⟩ := natives_enter_own hown (controlOf ls)
  have hdistinct := h.natives
  have hbelow := h.nativesBelow
  simp only [Distinct, controlOf, hpush, List.map_cons, List.nodup_cons] at hdistinct hbelow
  have htail : Fresh ([l] ++ ls) next := h
  refine htail.suffix.enter kind home
    (Nat.lt_succ_of_lt (hbelow _ List.mem_cons_self)) ?_
  intro n hn hid
  exact hdistinct.1 (List.mem_map.mpr ⟨n, hn, hid⟩)

/-! ## §2. Returns. -/

/-- The nesting after the innermost activation has returned. -/
def afterReturn (f : Frame) : List Level → List Level
  | [] => []
  | l :: ls => if l.kind = .ensure then ⟨.ensureBlock, f, l.native⟩ :: ls else ls

theorem entryFp_own {l : Level} (hown : ¬ l.IsCall) (ls : List Level) :
    entryFp (controlOf (l :: ls)) = some l.frame.id := by
  obtain ⟨body, hpush⟩ := natives_enter_own hown (controlOf ls)
  show entryFp (l.enter (controlOf ls)) = _
  rw [entryFp, hpush]
  rfl

/-- A primitive whose loop returns leaves what was around it, or goes on with its
ensure block. -/
theorem loopReturned_nest {l : Level} (hown : ¬ l.IsCall) (f : Frame) (ls : List Level) :
    (loopReturned f { controlOf (l :: ls) with frames := (controlOf ls).frames }).2
      = controlOf (afterReturn f (l :: ls)) := by
  unfold Level.IsCall at hown
  simp only [controlOf, Level.enter, afterReturn]
  rcases hk : l.kind with _ | _ | cls | _ | k | _ | _
  · exact absurd (.inl hk) hown
  · exact absurd (.inr hk) hown
  · rfl
  · rfl
  · simp only [transactionPrimitive]
    split
    · rfl
    · rfl
  · rfl
  · rfl

/-- `BC_RETURN_STACK_TOP` in a nesting. -/
theorem returnStackTop_nest {l : Level} {ls : List Level} (f : Frame)
    (hframes : DistinctFrames (l :: ls)) :
    (returnStackTop f (controlOf (l :: ls))).2 = controlOf (afterReturn f (l :: ls)) := by
  have htop : (controlOf (l :: ls)).frames = l.frame :: (controlOf ls).frames := frames_enter _ _
  have hcallers : (controlOf ls).frames ≠ [] := by
    rw [frames_controlOf]
    exact List.append_ne_nil_of_right_ne_nil _ (List.cons_ne_nil _ _)
  have hlevel : DistinctFrames ([] ++ l :: ls) := hframes
  rw [returnStackTop, htop]
  by_cases hcall : l.IsCall
  · have hentry : entryFp { controlOf (l :: ls) with frames := (controlOf ls).frames }
        ≠ some l.frame.id := entryFp_ne_call hlevel hcall
    have hafter : afterReturn f (l :: ls) = ls := by
      rcases hcall with hkind | hkind
      · simp [afterReturn, hkind]
      · simp [afterReturn, hkind]
    have hcalls : ∀ l' ∈ [l], l'.IsCall := by simpa using hcall
    simp only [hentry, hcallers, or_self, if_false, hafter]
    exact controlOf_calls ls hcalls
  · have hentry : entryFp { controlOf (l :: ls) with frames := (controlOf ls).frames }
        = some l.frame.id := entryFp_own hcall ls
    simp only [hentry, true_or, if_true]
    exact loopReturned_nest hcall f ls

/-! ## §3. Runs. -/

/-- One thing the running program does; `home` is the one of the block it may
activate. -/
inductive Act where
  /-- Call a method or a block, or a primitive that calls a block. -/
  | call (kind : Kind) (home : Option Nat)
  | ret (home : Option Nat)
  | signal (signalClass : Oop) (home : Option Nat)
  | nonLocal

/-- A running program and the next identity. -/
structure Machine where
  control : Control
  next : Nat

/-- A program in its first activation. -/
def Machine.initial : Machine := ⟨Control.initial, 1⟩

section Run

variable (matchesException : Oop → Oop → Bool)

/-- What the interpreter does; `none` when it stops.  Handler and ensure blocks are
entered by their primitives alone. -/
def Act.step (s : Machine) : Act → Option (List Event × Machine)
  | .call kind home =>
    if kind = .handlerBlock ∨ kind = .ensureBlock then none
    else some ([], ⟨Level.enter ⟨kind, ⟨s.next, home⟩, s.next⟩ s.control, s.next + 1⟩)
  | .ret home =>
    let (events, c) := returnStackTop ⟨s.next, home⟩ s.control
    some (events, ⟨c, s.next + 1⟩)
  | .signal signalClass home =>
    match primSignal matchesException ⟨s.next, home⟩ signalClass s.control with
    | (events, .handled _ c) => some (events, ⟨c, s.next + 1⟩)
    | (events, .failed) => some (events, ⟨s.control, s.next + 1⟩)
    | _ => none
  | .nonLocal =>
    (returnNonLocal ⟨s.next, none⟩ s.control).map (fun r => (r.1, ⟨r.2, s.next + 1⟩))

/-- What it should do to the nesting. -/
def Act.nest (next : Nat) (ls : List Level) : Act → List Level
  | .call kind home => ⟨kind, ⟨next, home⟩, next⟩ :: ls
  | .ret home => afterReturn ⟨next, home⟩ ls
  | .signal signalClass home =>
    match catching matchesException signalClass ls with
    | h :: outer => ⟨.handlerBlock, ⟨next, home⟩, h.native⟩ :: outer
    | [] => ls
  | .nonLocal =>
    match ls with
    | [] => []
    | b :: rest => (rest.dropWhile (fun l => some l.frame.id != b.frame.home)).tail

/-- The conditions under which signals and `^` do what they should; a return is one
from an activation that has been called. -/
def Act.Clean (ls : List Level) : Act → Prop
  | .call _ _ => True
  | .ret _ => ls ≠ []
  | .signal _ _ => ¬ HandlerInside ls
  | .nonLocal => ∃ b inner H outer, ls = b :: inner ++ H :: outer ∧ H.kind = .send ∧
      b.frame.home = some H.frame.id ∧ ∀ l ∈ b :: inner, l.IsCall

/-- What is expected of signals and of `^`. -/
def Act.Meets (next : Nat) (ls : List Level) : Act → Prop
  | .call _ _ | .ret _ => True
  | .signal signalClass home => Delivered matchesException ⟨next, home⟩ signalClass ls
  | .nonLocal => ∃ b inner H outer, ls = b :: inner ++ H :: outer ∧
      b.frame.home = some H.frame.id ∧ ScopedReturn ⟨next, none⟩ (b :: inner ++ [H]) outer

/-- A clean act meets what is expected of it. -/
theorem Act.Clean.meets {ls : List Level} {next : Nat} {a : Act} (h : Fresh ls next)
    (hclean : a.Clean ls) : a.Meets matchesException next ls := by
  cases a with
  | call kind home => trivial
  | ret home => trivial
  | signal signalClass home =>
    exact delivered_of_not_inside matchesException _ signalClass h.natives hclean
  | nonLocal =>
    obtain ⟨b, inner, H, outer, rfl, hH, hhome, hcalls⟩ := hclean
    exact ⟨b, inner, H, outer, rfl, hhome, scopedReturn_of_calls h.frames hH hhome hcalls⟩

/-- The C frame that takes the signal is that of an `on:do:`, and no longer in use
around it. -/
theorem Fresh.handlerBlock {ls outer : List Level} {h : Level} {next : Nat} {signalClass : Oop}
    (hfresh : Fresh ls next)
    (hcaught : catching matchesException signalClass ls = h :: outer) (home : Option Nat) :
    Fresh (⟨.handlerBlock, ⟨next, home⟩, h.native⟩ :: outer) (next + 1) := by
  have hsplit := insideCatching_append_catching matchesException signalClass ls
  rw [hcaught] at hsplit
  rw [← hsplit] at hfresh
  obtain ⟨cls, hkind, -⟩ := Level.onDo_of_catches (catching_head matchesException hcaught)
  exact hfresh.suffix.reenter (by simp [Level.IsCall, hkind]) _ home

/-- The home level is found where its activation is. -/
theorem dropWhile_homeLevel {b H : Level} {inner outer : List Level}
    (hframes : DistinctFrames (b :: inner ++ H :: outer)) :
    (inner ++ H :: outer).dropWhile (fun l => some l.frame.id != some H.frame.id) = H :: outer := by
  have hbefore : ∀ l ∈ inner, (some l.frame.id != some H.frame.id) = true := by
    unfold DistinctFrames at hframes
    rw [frames_append, List.map_append, List.nodup_append] at hframes
    intro l hl
    have hne := hframes.2.2 l.frame.id
      (List.mem_map_of_mem (List.mem_map_of_mem (List.mem_cons_of_mem b hl))) H.frame.id
      (List.mem_map_of_mem (by rw [frames_controlOf]; simp))
    simpa using hne
  rw [List.dropWhile_append_of_pos hbefore, List.dropWhile_cons_of_neg (by simp)]

/-- A step of a clean act keeps the control state that of the nesting. -/
theorem Act.Clean.step {ls : List Level} {next : Nat} {a : Act} {events : List Event}
    {s : Machine} (h : Fresh ls next) (hclean : a.Clean ls)
    (hstep : a.step matchesException ⟨controlOf ls, next⟩ = some (events, s)) :
    s = ⟨controlOf (a.nest matchesException next ls), next + 1⟩ ∧
      Fresh (a.nest matchesException next ls) (next + 1) := by
  have hmeets := hclean.meets matchesException h
  cases a with
  | call kind home =>
    simp only [Act.step] at hstep
    split at hstep
    · cases hstep
    · obtain ⟨-, rfl⟩ := Prod.mk.inj (Option.some.inj hstep)
      exact ⟨rfl, h.enter kind home (Nat.lt_succ_self next)
        (fun n hn => (h.nativesBelow n hn).ne)⟩
  | ret home =>
    obtain ⟨l, rest, rfl⟩ := List.exists_cons_of_ne_nil hclean
    obtain ⟨-, rfl⟩ := Prod.mk.inj (Option.some.inj hstep)
    refine ⟨congrArg (Machine.mk · (next + 1)) (returnStackTop_nest _ h.frames), ?_⟩
    show Fresh (if l.kind = .ensure then _ else _) _
    split
    · next hkind => exact h.reenter (by simp [Level.IsCall, hkind]) _ home
    · have htail : Fresh ([l] ++ rest) next := h
      exact htail.suffix.later
  | signal signalClass home =>
    simp only [Act.Meets, Delivered] at hmeets
    simp only [Act.step] at hstep
    split at hmeets
    · next hd outer hcaught =>
      rw [hmeets] at hstep
      obtain ⟨-, rfl⟩ := Prod.mk.inj (Option.some.inj hstep)
      simp only [Act.nest, hcaught]
      exact ⟨trivial, h.handlerBlock matchesException hcaught home⟩
    · next hnone =>
      split at hstep
      · next hresult =>
        rw [hresult] at hmeets
        rcases hmeets with h | h <;> cases h
      · obtain ⟨-, rfl⟩ := Prod.mk.inj (Option.some.inj hstep)
        simp only [Act.nest, hnone]
        exact ⟨trivial, h.later⟩
      · cases hstep
  | nonLocal =>
    obtain ⟨b, inner, H, outer, rfl, hH, hhome, hcalls⟩ := hclean
    obtain ⟨events', hreturn, -⟩ := scopedReturn_of_calls h.frames hH hhome hcalls (f := ⟨next, none⟩)
    have hsplit : b :: inner ++ [H] ++ outer = b :: inner ++ H :: outer := by simp
    rw [hsplit] at hreturn
    simp only [Act.step, hreturn, Option.map_some] at hstep
    obtain ⟨-, rfl⟩ := Prod.mk.inj (Option.some.inj hstep)
    have hnest : Act.nest matchesException next (b :: inner ++ H :: outer) .nonLocal = outer := by
      simp only [Act.nest, List.cons_append, hhome]
      rw [dropWhile_homeLevel h.frames]
      rfl
    have hwhole : Fresh ((b :: inner ++ [H]) ++ outer) next := by
      rw [hsplit]
      exact h
    rw [hnest]
    exact ⟨rfl, hwhole.suffix.later⟩

/-- The nesting after some acts. -/
def runNest : List Act → Nat → List Level → List Level
  | [], _, ls => ls
  | a :: acts, next, ls => runNest acts (next + 1) (a.nest matchesException next ls)

/-- The interpreter, act after act. -/
def run : List Act → Machine → Option (List Event × Machine)
  | [], s => some ([], s)
  | a :: acts, s =>
    match a.step matchesException s with
    | none => none
    | some (events, s') => (run acts s').map (fun r => (events ++ r.1, r.2))

/-- Each act of the run meets the condition of the nesting it meets. -/
def CleanRun : List Act → Nat → List Level → Prop
  | [], _, _ => True
  | a :: acts, next, ls => a.Clean ls ∧ CleanRun acts (next + 1) (a.nest matchesException next ls)

/-- Each act of the run does what is expected of it. -/
def RunMeets : List Act → Nat → List Level → Prop
  | [], _, _ => True
  | a :: acts, next, ls =>
    a.Meets matchesException next ls ∧ RunMeets acts (next + 1) (a.nest matchesException next ls)

/-- **In a clean run the control state is that of the nesting, and every signal and
every `^` does what it should.** -/
theorem CleanRun.nesting (acts : List Act) {ls : List Level} {next : Nat} {events : List Event}
    {s : Machine} (h : Fresh ls next) (hclean : CleanRun matchesException acts next ls)
    (hrun : run matchesException acts ⟨controlOf ls, next⟩ = some (events, s)) :
    s.control = controlOf (runNest matchesException acts next ls) ∧
      Fresh (runNest matchesException acts next ls) s.next ∧
      RunMeets matchesException acts next ls := by
  induction acts generalizing ls next events with
  | nil =>
    obtain ⟨-, rfl⟩ := Prod.mk.inj (Option.some.inj hrun)
    exact ⟨rfl, h, trivial⟩
  | cons a acts ih =>
    obtain ⟨hact, hacts⟩ := hclean
    simp only [run] at hrun
    split at hrun
    · cases hrun
    · next events' s' hstep =>
      obtain ⟨hs', hfresh⟩ := hact.step matchesException h hstep
      obtain ⟨r, hr, hresult⟩ := Option.map_eq_some_iff.mp hrun
      obtain ⟨-, rfl⟩ := Prod.mk.inj hresult
      rw [hs'] at hr
      obtain ⟨hcontrol, hfresh', hmeets⟩ := ih hfresh hacts hr
      exact ⟨hcontrol, hfresh', hact.meets matchesException h, hmeets⟩

/-- From the first activation on. -/
theorem CleanRun.fromInitial (acts : List Act) {events : List Event} {s : Machine}
    (hclean : CleanRun matchesException acts 1 [])
    (hrun : run matchesException acts Machine.initial = some (events, s)) :
    s.control = controlOf (runNest matchesException acts 1 []) ∧
      RunMeets matchesException acts 1 [] := by
  obtain ⟨hcontrol, -, hmeets⟩ := CleanRun.nesting matchesException acts Fresh.initial hclean hrun
  exact ⟨hcontrol, hmeets⟩

end Run

end LivingObjects.Interp
