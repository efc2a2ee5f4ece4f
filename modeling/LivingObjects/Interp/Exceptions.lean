/-
  LivingObjects.Interp.Exceptions — where a signal goes.

  `propagate_signal` runs every ensure record before it looks at the handlers.
  With no ensure record outside a protected block this is the wanted order.  With
  one, the jump into that `ensure:` throws away the C frames of the protected
  blocks inside it, and the handlers are looked for among records that are gone.
-/
import LivingObjects.Interp.Nest

namespace LivingObjects.Interp

open LivingObjects.VM

/-! ## §1. Leaving levels by a signal. -/

/-- What happens when a signal leaves a level.  A transaction inside another one
has nothing of its own to abort. -/
def leaveEvent (l : Level) (outer : List Level) : List Event :=
  match l.kind with
  | .ensure => [.ranEnsure l.native]
  | .transaction _ => if ∃ l' ∈ outer, l'.IsTransaction then [] else [.aborted l.native]
  | _ => []

/-- What happens when a signal leaves some levels, innermost first. -/
def leaveEvents : List Level → List Level → List Event
  | [], _ => []
  | l :: ls, outer => leaveEvent l (ls ++ outer) ++ leaveEvents ls outer

theorem leaveEvent_of_not_guards {l : Level} (h : ¬ l.Guards) (outer : List Level) :
    leaveEvent l outer = [] := by
  unfold leaveEvent
  rcases hk : l.kind with _ | _ | cls | _ | k | _ | _
  · rfl
  · rfl
  · rfl
  · exact absurd (.inl hk) h
  · exact absurd (.inr ⟨k, hk⟩) h
  · rfl
  · rfl

theorem leaveEvents_of_not_guards {inner : List Level} (outer : List Level)
    (h : ∀ l ∈ inner, ¬ l.Guards) : leaveEvents inner outer = [] := by
  induction inner with
  | nil => rfl
  | cons l ls ih =>
    rw [leaveEvents, leaveEvent_of_not_guards (h l List.mem_cons_self),
      ih (fun l' hl' => h l' (List.mem_cons_of_mem l hl'))]
    rfl

theorem leaveEvents_append (inner middle outer : List Level) :
    leaveEvents (inner ++ middle) outer
      = leaveEvents inner (middle ++ outer) ++ leaveEvents middle outer := by
  induction inner with
  | nil => rfl
  | cons l ls ih =>
    show leaveEvent l (ls ++ middle ++ outer) ++ leaveEvents (ls ++ middle) outer = _
    rw [ih, List.append_assoc, leaveEvents, List.append_assoc]

/-- After the jump into the primitive of a guard: its C frame is the innermost, and
everything else is as around it. -/
def leftTo (l : Level) (outer : List Level) (c : Control) : Control where
  frames := (controlOf outer).frames
  natives := (controlOf (l :: outer)).natives
  currentExceptionHandler := c.currentExceptionHandler
  currentEnsureFrame := (controlOf outer).currentEnsureFrame
  currentTransactionLogFrame := (controlOf outer).currentTransactionLogFrame

/-- No C frame of a nesting has the identity of one above them. -/
def Apart (above : List Native) (ls : List Level) : Prop :=
  ∀ n ∈ above, ∀ m ∈ (controlOf ls).natives, n.id ≠ m.id

/-- What a level and the levels inside it have on the C stack is apart from the rest. -/
theorem Distinct.apart {inner outer : List Level} {top : List Native}
    (h : Distinct (inner ++ outer))
    (htop : (controlOf (inner ++ outer)).natives = top ++ (controlOf outer).natives) :
    Apart top outer := by
  unfold Distinct at h
  rw [htop, List.map_append, List.nodup_append] at h
  intro n hn m hm
  exact h.2.2 n.id (List.mem_map_of_mem hn) m.id (List.mem_map_of_mem hm)

/-- The ensure record of a level is run before those around it, when the level has one. -/
theorem runEnsures_level {l : Level} {outer : List Level} {above : List Native} {c : Control}
    (hapart : Apart above (l :: outer))
    (hnatives : c.natives = above ++ (controlOf (l :: outer)).natives)
    (htxns : c.currentTransactionLogFrame
      = (controlOf (l :: outer)).currentTransactionLogFrame) :
    (leaveEvent l outer = [] ∧
      (controlOf (l :: outer)).currentEnsureFrame = (controlOf outer).currentEnsureFrame ∧
      (controlOf (l :: outer)).currentTransactionLogFrame
        = (controlOf outer).currentTransactionLogFrame ∧
      (¬ l.Guards ∨ ∃ l' ∈ outer, l'.IsTransaction)) ∨
    (∀ events result,
      runEnsures (controlOf outer).currentEnsureFrame (leftTo l outer c) = (events, result) →
      runEnsures (controlOf (l :: outer)).currentEnsureFrame c
        = (leaveEvent l outer ++ events, result)) := by
  simp only [leftTo]
  simp only [Apart, controlOf] at hapart hnatives htxns ⊢
  rcases guards_enter l (controlOf outer) with
    ⟨he, ht, hor⟩ | ⟨hkind, he, ht, hn⟩ | ⟨⟨k, hkind, hn⟩, hinactive, he, -⟩
  · left
    refine ⟨?_, he, ht, ?_⟩
    · rcases hor with hplain | ⟨⟨k, hkind⟩, hactive⟩
      · exact leaveEvent_of_not_guards hplain outer
      · rw [leaveEvent, hkind]
        exact if_pos (transactionActive hactive)
    · exact hor.imp_right (fun h => transactionActive h.2)
  · right
    intro events result hrest
    have hjump : longjmp l.native c.natives
        = some (⟨l.native, l.frame.id, (controlOf outer).frames,
            .ensure (controlOf outer).currentEnsureFrame⟩, (controlOf outer).natives) := by
      rw [hnatives, hn]
      rw [hn] at hapart
      exact longjmp_append (fun m hm => hapart m hm _ List.mem_cons_self)
    rw [he, runEnsures, hjump]
    rw [ht] at htxns
    simp only [htxns, ← hn, hrest, leaveEvent, hkind]
    rfl
  · right
    intro events result hrest
    have hjump : longjmp l.native c.natives
        = some (⟨l.native, l.frame.id, (controlOf outer).frames,
            .transaction k (controlOf outer).currentEnsureFrame
              (controlOf outer).currentTransactionLogFrame⟩, (controlOf outer).natives) := by
      rw [hnatives, hn]
      rw [hn] at hapart
      exact longjmp_append (fun m hm => hapart m hm _ List.mem_cons_self)
    have houter : ¬ ∃ l' ∈ outer, l'.IsTransaction := by
      intro hexists
      obtain ⟨l', hl', htxn⟩ := hexists
      exact transactionInactive hinactive l' hl' htxn
    rw [he, runEnsures, hjump]
    simp only [← hn, hrest, leaveEvent, hkind, if_neg houter]
    rfl

/-- **The ensure records of a nesting, one after the other, leave every level up to
the outermost guard.**  Its C frame remains, no record is left, and the handlers are
still those of the levels left. -/
theorem runEnsures_nest {E : Level} {outer : List Level} (hE : E.Guards)
    (houter : ∀ l ∈ outer, ¬ l.Guards) :
    ∀ (inner : List Level) (above : List Native) (c : Control),
      Distinct (inner ++ E :: outer) →
      Apart above (inner ++ E :: outer) →
      c.natives = above ++ (controlOf (inner ++ E :: outer)).natives →
      c.currentTransactionLogFrame
        = (controlOf (inner ++ E :: outer)).currentTransactionLogFrame →
      runEnsures (controlOf (inner ++ E :: outer)).currentEnsureFrame c
        = (leaveEvents (inner ++ [E]) outer, some (leftTo E outer c)) := by
  obtain ⟨hnoEnsure, hnoTxn⟩ := unguarded outer houter
  intro inner
  induction inner with
  | nil =>
    intro above c hdistinct hapart hnatives htxns
    simp only [List.nil_append] at hdistinct hapart hnatives htxns ⊢
    rcases runEnsures_level hapart hnatives htxns with
      ⟨-, -, -, hor⟩ | hrun
    · rcases hor with hplain | ⟨l', hl', htxn⟩
      · exact absurd hE hplain
      · exact absurd (.inr htxn) (houter l' hl')
    · rw [hrun [] (some (leftTo E outer c)) (by rw [hnoEnsure]; rfl)]
      simp only [leaveEvents, List.nil_append]
  | cons l ls ih =>
    intro above c hdistinct hapart hnatives htxns
    simp only [List.cons_append] at hdistinct hapart hnatives htxns ⊢
    obtain ⟨top, htop⟩ := natives_append [l] (ls ++ E :: outer)
    have hlevel : Distinct ([l] ++ (ls ++ E :: outer)) := hdistinct
    have htopApart := hlevel.apart htop
    replace htop : (controlOf (l :: (ls ++ E :: outer))).natives
      = top ++ (controlOf (ls ++ E :: outer)).natives := htop
    have hevents : leaveEvents (l :: (ls ++ [E])) outer
        = leaveEvent l (ls ++ E :: outer) ++ leaveEvents (ls ++ [E]) outer := by
      rw [leaveEvents, List.append_assoc]
      rfl
    rcases runEnsures_level hapart hnatives htxns with ⟨hevent, he, ht, -⟩ | hrun
    · have htail : Apart (above ++ top) (ls ++ E :: outer) := by
        intro n hn m hm
        rcases List.mem_append.mp hn with hmem | hmem
        · exact hapart n hmem m (htop ▸ List.mem_append_right top hm)
        · exact htopApart n hmem m hm
      rw [htop, ← List.append_assoc] at hnatives
      rw [he, ih (above ++ top) c hdistinct.tail htail hnatives (htxns.trans ht), hevents, hevent]
      rfl
    · have hrest := ih top (leftTo l (ls ++ E :: outer) c) hdistinct.tail
        htopApart htop rfl
      rw [hrun _ _ hrest, hevents]
      rfl

/-! ## §2. The walk along the handlers. -/

section Signal

variable (matchesException : Oop → Oop → Bool)

/-- The level is an `on:do:` whose exception class matches. -/
def Level.Catches (signalClass : Oop) (l : Level) : Bool :=
  match l.kind with
  | .onDo exceptionClass => matchesException exceptionClass signalClass
  | _ => false

theorem Level.onDo_of_catches {matchesException : Oop → Oop → Bool} {signalClass : Oop} {l : Level}
    (h : l.Catches matchesException signalClass = true) :
    ∃ exceptionClass, l.kind = .onDo exceptionClass ∧
      matchesException exceptionClass signalClass = true := by
  unfold Level.Catches at h
  split at h
  · next cls hkind => exact ⟨cls, hkind, h⟩
  · exact absurd h (by simp)

/-- A level that does not catch the signal: the walk goes on behind its record. -/
theorem findHandler_level {signalClass : Oop} {l : Level} {outer : List Level}
    {natives : List Native} (hl : l.Catches matchesException signalClass = false)
    (hmem : ∀ n ∈ (controlOf (l :: outer)).natives, n ∈ natives) :
    findHandler matchesException signalClass natives (controlOf (l :: outer)).currentExceptionHandler
      = findHandler matchesException signalClass natives (controlOf outer).currentExceptionHandler := by
  simp only [controlOf] at hmem ⊢
  rcases handlers_enter l (controlOf outer) with hsame | ⟨cls, hkind, hpush⟩
  · rw [hsame]
  · have hno : matchesException cls signalClass = false := by
      rw [Level.Catches, hkind] at hl
      exact hl
    have hcall : ¬ l.IsCall := by simp [Level.IsCall, hkind]
    obtain ⟨body, hown⟩ := natives_enter_own hcall (controlOf outer)
    have halive : (longjmp l.native natives).isNone = false :=
      longjmp_isSome ⟨_, hmem _ (hown ▸ List.mem_cons_self), rfl⟩
    rw [hpush, findHandler]
    simp only [halive, hno, Bool.false_eq_true, if_false]

/-- The walk ends without a handler. -/
theorem findHandler_none {signalClass : Oop} {natives : List Native} (ls : List Level)
    (hls : ∀ l ∈ ls, l.Catches matchesException signalClass = false)
    (hmem : ∀ n ∈ (controlOf ls).natives, n ∈ natives) :
    findHandler matchesException signalClass natives (controlOf ls).currentExceptionHandler
      = .none := by
  induction ls with
  | nil => rfl
  | cons l ls ih =>
    obtain ⟨top, htop⟩ := natives_append [l] ls
    rw [findHandler_level matchesException (hls l List.mem_cons_self) hmem]
    refine ih (fun l' hl' => hls l' (List.mem_cons_of_mem l hl')) (fun n hn => hmem n ?_)
    exact (show (controlOf (l :: ls)).natives = _ from htop) ▸ List.mem_append_right top hn

/-- The walk ends at the innermost level that catches the signal. -/
theorem findHandler_found {signalClass exceptionClass : Oop} {natives : List Native}
    {h : Level} {outer : List Level} (inner : List Level)
    (hinner : ∀ l ∈ inner, l.Catches matchesException signalClass = false)
    (hkind : h.kind = .onDo exceptionClass)
    (hmatch : matchesException exceptionClass signalClass = true)
    (hmem : ∀ n ∈ (controlOf (inner ++ h :: outer)).natives, n ∈ natives) :
    findHandler matchesException signalClass natives
        (controlOf (inner ++ h :: outer)).currentExceptionHandler
      = .found ⟨h.native, exceptionClass⟩ (controlOf outer).currentExceptionHandler := by
  induction inner with
  | nil =>
    have hcall : ¬ h.IsCall := by simp [Level.IsCall, hkind]
    obtain ⟨body, hown⟩ := natives_enter_own hcall (controlOf outer)
    have halive : (longjmp h.native natives).isNone = false :=
      longjmp_isSome ⟨_, hmem _ (hown ▸ List.mem_cons_self), rfl⟩
    rw [innermost_handler (by simp) hkind, findHandler]
    simp only [halive, hmatch, Bool.false_eq_true, if_false, if_true]
  | cons l ls ih =>
    obtain ⟨top, htop⟩ := natives_append [l] (ls ++ h :: outer)
    rw [List.cons_append] at hmem ⊢
    rw [findHandler_level matchesException (hinner l List.mem_cons_self) hmem]
    refine ih (fun l' hl' => hinner l' (List.mem_cons_of_mem l hl')) (fun n hn => hmem n ?_)
    exact (show (controlOf (l :: (ls ++ h :: outer))).natives = _ from htop)
      ▸ List.mem_append_right top hn

/-- The jump to a handler, from a control state with the C stack of a nesting and no
ensure record: the handler block runs with what is around the `on:do:`. -/
theorem deliver_nest {f : Frame} {exceptionClass : Oop} {h : Level} {inner outer : List Level}
    {c : Control} (hkind : h.kind = .onDo exceptionClass)
    (houter : ∀ l ∈ outer, ¬ l.Guards) (hdistinct : Distinct (inner ++ h :: outer))
    (hnatives : c.natives = (controlOf (inner ++ h :: outer)).natives)
    (hensures : c.currentEnsureFrame = []) (htxns : c.currentTransactionLogFrame = []) :
    deliver f ⟨h.native, exceptionClass⟩ (controlOf outer).currentExceptionHandler c
      = .handled h.native (controlOf (⟨.handlerBlock, f, h.native⟩ :: outer)) := by
  obtain ⟨hnoEnsure, hnoTxn⟩ := unguarded outer houter
  obtain ⟨top, htop⟩ := natives_append inner (h :: outer)
  have hapart := hdistinct.apart htop
  have hcall : ¬ h.IsCall := by simp [Level.IsCall, hkind]
  obtain ⟨body, hown⟩ := natives_enter_own hcall (controlOf outer)
  simp only [Apart, controlOf] at hapart htop
  have hjump : longjmp h.native c.natives
      = some (⟨h.native, h.frame.id, (controlOf outer).frames, body⟩, (controlOf outer).natives) := by
    rw [hnatives, htop, hown]
    rw [hown] at hapart
    exact longjmp_append (fun m hm => hapart m hm _ List.mem_cons_self)
  rw [deliver, hjump]
  simp only [hensures, htxns, controlOf, Level.enter, invokeBlockClosure, hnoEnsure, hnoTxn]

/-! ## §3. Delivery. -/

/-- The levels inside the innermost one that catches the signal. -/
def insideCatching (signalClass : Oop) (ls : List Level) : List Level :=
  ls.takeWhile (fun l => !l.Catches matchesException signalClass)

/-- The innermost level that catches the signal, and those around it. -/
def catching (signalClass : Oop) (ls : List Level) : List Level :=
  ls.dropWhile (fun l => !l.Catches matchesException signalClass)

theorem insideCatching_append_catching (signalClass : Oop) (ls : List Level) :
    insideCatching matchesException signalClass ls ++ catching matchesException signalClass ls
      = ls :=
  List.takeWhile_append_dropWhile

theorem insideCatching_ignores {signalClass : Oop} {ls : List Level} :
    ∀ l ∈ insideCatching matchesException signalClass ls,
      l.Catches matchesException signalClass = false := by
  intro l hl
  simpa using List.mem_takeWhile_imp hl

theorem catching_head {signalClass : Oop} {ls outer : List Level} {h : Level}
    (hcaught : catching matchesException signalClass ls = h :: outer) :
    h.Catches matchesException signalClass = true := by
  unfold catching at hcaught
  have hne : ls.dropWhile (fun l => !l.Catches matchesException signalClass) ≠ [] := by
    rw [hcaught]
    exact List.cons_ne_nil _ _
  have hhead := List.head_dropWhile_not
    (fun l : Level => !l.Catches matchesException signalClass) hne
  simpa [hcaught] using hhead

/-- A signal raised in the innermost activation of a nesting goes where it should.  If
a level catches it, the innermost one does: the ensure blocks of exactly the levels
inside that one have run, innermost first, and its handler block runs with what is
around it.  If no level does, no handler block runs. -/
def Delivered (f : Frame) (signalClass : Oop) (ls : List Level) : Prop :=
  match catching matchesException signalClass ls with
  | h :: outer =>
    primSignal matchesException f signalClass (controlOf ls)
      = (leaveEvents (insideCatching matchesException signalClass ls) (h :: outer),
          .handled h.native (controlOf (⟨.handlerBlock, f, h.native⟩ :: outer)))
  | [] =>
    (primSignal matchesException f signalClass (controlOf ls)).2 = .trapped ∨
      (primSignal matchesException f signalClass (controlOf ls)).2 = .failed

/-- Some protected block runs inside an `ensure:` or a transaction. -/
def HandlerInside : List Level → Prop
  | [] => False
  | l :: ls => (l.IsOnDo ∧ ∃ l' ∈ ls, l'.Guards) ∨ HandlerInside ls

instance decidableHandlerInside : DecidablePred HandlerInside
  | [] => .isFalse id
  | _ :: ls =>
    have := decidableHandlerInside ls
    inferInstanceAs (Decidable (_ ∨ _))

theorem handlerInside_unguarded {ls : List Level} (h : ∀ l ∈ ls, ¬ l.Guards) :
    ¬ HandlerInside ls := by
  induction ls with
  | nil => exact id
  | cons l ls ih =>
    rintro (⟨-, l', hl', hguards⟩ | hinside)
    · exact h l' (List.mem_cons_of_mem l hl') hguards
    · exact ih (fun l' hl' => h l' (List.mem_cons_of_mem l hl')) hinside

theorem handlerInside_append (inner : List Level) {outer : List Level} (h : HandlerInside outer) :
    HandlerInside (inner ++ outer) := by
  induction inner with
  | nil => exact h
  | cons l ls ih => exact .inr ih

theorem Level.Guards.not_onDo {l : Level} (h : l.Guards) : ¬ l.IsOnDo := by
  intro ⟨cls, hkind⟩
  rcases h with hensure | ⟨k, htxn⟩
  · rw [hkind] at hensure
    cases hensure
  · rw [hkind] at htxn
    cases htxn

/-- Up to the outermost guard: there must be no protected block inside it. -/
theorem handlerInside_iff {E : Level} {inner outer : List Level} (hE : E.Guards)
    (houter : ∀ l ∈ outer, ¬ l.Guards) :
    HandlerInside (inner ++ E :: outer) ↔ ∃ l ∈ inner, l.IsOnDo := by
  induction inner with
  | nil =>
    have hno : ¬ HandlerInside (E :: outer) := by
      rintro (⟨honDo, -⟩ | hinside)
      · exact hE.not_onDo honDo
      · exact handlerInside_unguarded houter hinside
    simpa using hno
  | cons l ls ih =>
    have hguard : ∃ l' ∈ ls ++ E :: outer, l'.Guards := ⟨E, by simp, hE⟩
    rw [List.cons_append, HandlerInside, ih]
    simp only [hguard, and_true, List.mem_cons, exists_eq_or_imp]

/-- The outermost guard of a nesting. -/
theorem outermostGuard {ls : List Level} (h : ∃ l ∈ ls, l.Guards) :
    ∃ inner E outer, ls = inner ++ E :: outer ∧ E.Guards ∧ ∀ l ∈ outer, ¬ l.Guards := by
  induction ls with
  | nil =>
    obtain ⟨l, hl, -⟩ := h
    exact absurd hl List.not_mem_nil
  | cons l ls ih =>
    by_cases hrest : ∃ l' ∈ ls, l'.Guards
    · obtain ⟨inner, E, outer, heq, hE, houter⟩ := ih hrest
      exact ⟨l :: inner, E, outer, by rw [heq]; rfl, hE, houter⟩
    · obtain ⟨l', hl', hguards⟩ := h
      rcases List.mem_cons.mp hl' with rfl | hmem
      · exact ⟨[], l', ls, rfl, hguards, fun l'' hl'' hg => hrest ⟨l'', hl'', hg⟩⟩
      · exact absurd ⟨l', hmem, hguards⟩ hrest

/-- The search and the jump, once no ensure record is left: the innermost catching
level of a nesting gets the signal. -/
theorem search_caught {f : Frame} {signalClass : Oop} {ls outer : List Level} {h : Level}
    {c : Control}
    (hcaught : catching matchesException signalClass ls = h :: outer)
    (houter : ∀ l ∈ outer, ¬ l.Guards) (hdistinct : Distinct ls)
    (hnatives : c.natives = (controlOf ls).natives)
    (hhandlers : c.currentExceptionHandler = (controlOf ls).currentExceptionHandler)
    (hensures : c.currentEnsureFrame = []) (htxns : c.currentTransactionLogFrame = []) :
    ∃ record previous,
      findHandler matchesException signalClass c.natives c.currentExceptionHandler
        = .found record previous ∧
      deliver f record previous c
        = .handled h.native (controlOf (⟨.handlerBlock, f, h.native⟩ :: outer)) := by
  have hsplit := insideCatching_append_catching matchesException signalClass ls
  rw [hcaught] at hsplit
  obtain ⟨exceptionClass, hkind, hmatch⟩ :=
    Level.onDo_of_catches (catching_head matchesException hcaught)
  rw [← hsplit] at hdistinct hnatives hhandlers
  refine ⟨⟨h.native, exceptionClass⟩, (controlOf outer).currentExceptionHandler, ?_, ?_⟩
  · rw [hhandlers]
    exact findHandler_found matchesException _ (insideCatching_ignores matchesException)
      hkind hmatch (fun n hn => hnatives ▸ hn)
  · exact deliver_nest hkind houter hdistinct hnatives hensures htxns

/-- The search, when no level catches the signal. -/
theorem search_uncaught {signalClass : Oop} {ls : List Level} {c : Control}
    (hnone : catching matchesException signalClass ls = [])
    (hnatives : c.natives = (controlOf ls).natives)
    (hhandlers : c.currentExceptionHandler = (controlOf ls).currentExceptionHandler) :
    findHandler matchesException signalClass c.natives c.currentExceptionHandler = .none := by
  have hls : ∀ l ∈ ls, l.Catches matchesException signalClass = false := by
    intro l hl
    simpa using List.dropWhile_eq_nil_iff.mp hnone l hl
  rw [hhandlers]
  exact findHandler_none matchesException ls hls (fun n hn => hnatives ▸ hn)

/-- Without a guard the signal goes straight to its handler. -/
theorem delivered_unguarded (f : Frame) (signalClass : Oop) {ls : List Level}
    (hdistinct : Distinct ls) (h : ∀ l ∈ ls, ¬ l.Guards) :
    Delivered matchesException f signalClass ls := by
  obtain ⟨hnoEnsure, hnoTxn⟩ := unguarded ls h
  have hpropagate : ∀ record previous,
      findHandler matchesException signalClass (controlOf ls).natives
        (controlOf ls).currentExceptionHandler = .found record previous →
      primSignal matchesException f signalClass (controlOf ls)
        = ([], deliver f record previous (controlOf ls)) := by
    intro record previous hfound
    rw [primSignal, hnoEnsure]
    simp only [ne_eq, not_true_eq_false, if_false, hfound]
    rw [propagateSignal, hnoEnsure]
    simp only [runEnsures, hfound]
  unfold Delivered
  split
  · next hd outer hcaught =>
    have hsuffix : ∀ l ∈ outer, ¬ l.Guards := by
      intro l hl
      refine h l ?_
      rw [← insideCatching_append_catching matchesException signalClass ls, hcaught]
      exact List.mem_append_right _ (List.mem_cons_of_mem hd hl)
    obtain ⟨record, previous, hfound, hdeliver⟩ :=
      search_caught matchesException (f := f) hcaught hsuffix hdistinct rfl rfl hnoEnsure hnoTxn
    rw [hpropagate record previous hfound, hdeliver]
    have hinside : ∀ l ∈ insideCatching matchesException signalClass ls, ¬ l.Guards := by
      intro l hl
      refine h l ?_
      rw [← insideCatching_append_catching matchesException signalClass ls]
      exact List.mem_append_left _ hl
    rw [leaveEvents_of_not_guards _ hinside]
  · next hnone =>
    right
    rw [primSignal, hnoEnsure]
    simp only [ne_eq, not_true_eq_false, if_false,
      search_uncaught matchesException hnone rfl rfl]

/-- A signal below a guard: the ensure records are run first. -/
theorem primSignal_guarded (f : Frame) (signalClass : Oop) {E : Level} {inner outer : List Level}
    (hdistinct : Distinct (inner ++ E :: outer)) (hE : E.Guards)
    (houter : ∀ l ∈ outer, ¬ l.Guards) :
    let c := leftTo E outer (controlOf (inner ++ E :: outer))
    primSignal matchesException f signalClass (controlOf (inner ++ E :: outer))
      = (leaveEvents (inner ++ [E]) outer,
          match findHandler matchesException signalClass c.natives c.currentExceptionHandler with
          | .none => .trapped
          | .dangling => .undefined
          | .found record previous => deliver f record previous c) := by
  intro c
  have hensure : (controlOf (inner ++ E :: outer)).currentEnsureFrame ≠ [] :=
    guarded _ ⟨E, by simp, hE⟩
  have hrun := runEnsures_nest hE houter inner [] (controlOf (inner ++ E :: outer)) hdistinct
    (by simp [Apart]) rfl rfl
  rw [primSignal, if_pos hensure, propagateSignal, hrun]
  show (match findHandler matchesException signalClass c.natives c.currentExceptionHandler with
    | .none => (_, SignalResult.trapped)
    | .dangling => (_, .undefined)
    | .found record previous => (_, deliver f record previous c)) = _
  cases findHandler matchesException signalClass c.natives c.currentExceptionHandler <;> rfl

/-- With no protected block inside it, the outermost guard is left on the way to the
handler. -/
theorem delivered_guarded (f : Frame) (signalClass : Oop) {E : Level} {inner outer : List Level}
    (hdistinct : Distinct (inner ++ E :: outer)) (hE : E.Guards)
    (houter : ∀ l ∈ outer, ¬ l.Guards) (hinner : ∀ l ∈ inner, ¬ l.IsOnDo) :
    Delivered matchesException f signalClass (inner ++ E :: outer) := by
  have hsignal := primSignal_guarded matchesException f signalClass hdistinct hE houter
  obtain ⟨hnoEnsure, hnoTxn⟩ := unguarded outer houter
  have hignores : ∀ l ∈ inner ++ [E], l.Catches matchesException signalClass = false := by
    intro l hl
    by_contra hcatches
    obtain ⟨cls, hkind, -⟩ := Level.onDo_of_catches (by simpa using hcatches)
    rcases List.mem_append.mp hl with hmem | hmem
    · exact hinner l hmem ⟨cls, hkind⟩
    · obtain rfl : l = E := by simpa using hmem
      exact hE.not_onDo ⟨cls, hkind⟩
  have hcatching : catching matchesException signalClass (inner ++ E :: outer)
      = catching matchesException signalClass outer := by
    rw [← List.singleton_append, ← List.append_assoc, catching,
      List.dropWhile_append_of_pos (by simpa using hignores)]
    rfl
  have hinside : insideCatching matchesException signalClass (inner ++ E :: outer)
      = inner ++ [E] ++ insideCatching matchesException signalClass outer := by
    rw [← List.singleton_append, ← List.append_assoc, insideCatching,
      List.takeWhile_append_of_pos (by simpa using hignores)]
    rfl
  have hcatchingE : catching matchesException signalClass (E :: outer)
      = catching matchesException signalClass outer := by
    rw [catching, List.dropWhile_cons_of_pos (by simpa using hignores E (by simp))]
    rfl
  have hhandlers : (leftTo E outer (controlOf (inner ++ E :: outer))).currentExceptionHandler
      = (controlOf (E :: outer)).currentExceptionHandler := handlers_append (E :: outer) hinner
  unfold Delivered
  rw [hcatching, hinside]
  split
  · next h rest hcaught =>
    have hsplit := insideCatching_append_catching matchesException signalClass outer
    rw [hcaught] at hsplit
    have hsuffix : ∀ l ∈ rest, ¬ l.Guards := by
      intro l hl
      refine houter l ?_
      rw [← hsplit]
      exact List.mem_append_right _ (List.mem_cons_of_mem h hl)
    have hinsideUnguarded : ∀ l ∈ insideCatching matchesException signalClass outer, ¬ l.Guards := by
      intro l hl
      refine houter l ?_
      rw [← hsplit]
      exact List.mem_append_left _ hl
    obtain ⟨record, previous, hfound, hdeliver⟩ :=
      search_caught matchesException (f := f) (hcatchingE.trans hcaught) hsuffix hdistinct.suffix
        (c := leftTo E outer (controlOf (inner ++ E :: outer))) rfl hhandlers hnoEnsure hnoTxn
    have hevents : leaveEvents
        (inner ++ [E] ++ insideCatching matchesException signalClass outer) (h :: rest)
          = leaveEvents (inner ++ [E]) outer := by
      rw [leaveEvents_append, hsplit, leaveEvents_of_not_guards _ hinsideUnguarded, List.append_nil]
    rw [hsignal, hfound, hevents]
    exact congrArg _ hdeliver
  · next hnone =>
    left
    rw [hsignal, search_uncaught matchesException (hcatchingE.trans hnone)
      (c := leftTo E outer (controlOf (inner ++ E :: outer))) rfl hhandlers]

/-- With a protected block inside it, the jump into the outermost guard leaves a record
of a C frame that is gone. -/
theorem undefined_inside (f : Frame) (signalClass : Oop) {E : Level} {inner outer : List Level}
    (hdistinct : Distinct (inner ++ E :: outer)) (hE : E.Guards)
    (houter : ∀ l ∈ outer, ¬ l.Guards) (hinside : ∃ l ∈ inner, l.IsOnDo) :
    (primSignal matchesException f signalClass (controlOf (inner ++ E :: outer))).2
      = .undefined := by
  rw [primSignal_guarded matchesException f signalClass hdistinct hE houter]
  have hfind : (inner.find? (fun l => decide l.IsOnDo)).isSome := by
    simpa using hinside
  obtain ⟨d, hd⟩ := Option.isSome_iff_exists.mp hfind
  obtain ⟨hdOnDo, inside, around, rfl, hfirst⟩ := List.find?_eq_some_iff_append.mp hd
  obtain ⟨cls, hkind⟩ : d.IsOnDo := by simpa using hdOnDo
  have hsplit : inside ++ d :: around ++ E :: outer = inside ++ d :: (around ++ E :: outer) :=
    List.append_assoc _ _ _
  have hhandlers : (controlOf (inside ++ d :: around ++ E :: outer)).currentExceptionHandler
      = ⟨d.native, cls⟩ :: (controlOf (around ++ E :: outer)).currentExceptionHandler := by
    rw [hsplit]
    exact innermost_handler (by simpa using hfirst) hkind
  -- the C frame of `d` lies above the one that has been jumped to
  have hdead : longjmp d.native (controlOf (E :: outer)).natives = none := by
    have hcall : ¬ d.IsCall := by simp [Level.IsCall, hkind]
    obtain ⟨body, hown⟩ := natives_enter_own hcall (controlOf (around ++ E :: outer))
    obtain ⟨top, htop⟩ := natives_append around (E :: outer)
    have hlevel : Distinct ((d :: around) ++ E :: outer) := by
      rw [hsplit] at hdistinct
      exact hdistinct.suffix
    have hstack : (controlOf ((d :: around) ++ E :: outer)).natives
        = (⟨d.native, d.frame.id, (controlOf (around ++ E :: outer)).frames, body⟩ :: top)
          ++ (controlOf (E :: outer)).natives := by
      exact hown.trans (congrArg _ htop)
    exact longjmp_gone (fun m hm => (hlevel.apart hstack _ List.mem_cons_self m hm).symm)
  have hsearch : findHandler matchesException signalClass (controlOf (E :: outer)).natives
      (controlOf (inside ++ d :: around ++ E :: outer)).currentExceptionHandler = .dangling := by
    rw [hhandlers, findHandler, hdead]
    rfl
  simp only [leftTo, hsearch]

/-- With a guard the primitive does not fail. -/
theorem primSignal_not_failed (f : Frame) (signalClass : Oop) {ls : List Level}
    (h : ∃ l ∈ ls, l.Guards) :
    (primSignal matchesException f signalClass (controlOf ls)).2 ≠ .failed := by
  rw [primSignal, if_pos (guarded ls h), propagateSignal]
  split
  · simp
  · split
    · simp
    · simp
    · simp only [deliver]
      split <;> simp

/-- With no protected block inside a guard, every signal is delivered. -/
theorem delivered_of_not_inside (f : Frame) (signalClass : Oop) {ls : List Level}
    (hdistinct : Distinct ls) (h : ¬ HandlerInside ls) :
    Delivered matchesException f signalClass ls := by
  by_cases hguard : ∃ l ∈ ls, l.Guards
  · obtain ⟨inner, E, outer, rfl, hE, houter⟩ := outermostGuard hguard
    rw [handlerInside_iff hE houter] at h
    exact delivered_guarded matchesException f signalClass hdistinct hE houter
      (fun l hl honDo => h ⟨l, hl, honDo⟩)
  · exact delivered_unguarded matchesException f signalClass hdistinct
      (fun l hl hg => hguard ⟨l, hl, hg⟩)

/-- With a protected block inside a guard, a signal uses a dead record. -/
theorem undefined_of_inside (f : Frame) (signalClass : Oop) {ls : List Level}
    (hdistinct : Distinct ls) (h : HandlerInside ls) :
    (primSignal matchesException f signalClass (controlOf ls)).2 = .undefined := by
  have hguard : ∃ l ∈ ls, l.Guards := by
    by_contra hnone
    exact handlerInside_unguarded (fun l hl hg => hnone ⟨l, hl, hg⟩) h
  obtain ⟨inner, E, outer, rfl, hE, houter⟩ := outermostGuard hguard
  rw [handlerInside_iff hE houter] at h
  exact undefined_inside matchesException f signalClass hdistinct hE houter h

/-- With a protected block inside a guard, no signal is. -/
theorem not_delivered_of_inside (f : Frame) (signalClass : Oop) {ls : List Level}
    (hdistinct : Distinct ls) (h : HandlerInside ls) :
    ¬ Delivered matchesException f signalClass ls := by
  have hundefined := undefined_of_inside matchesException f signalClass hdistinct h
  unfold Delivered
  split
  · intro hdelivered
    rw [hdelivered] at hundefined
    cases hundefined
  · rw [hundefined]
    simp

/-- **A signal is delivered as it should be exactly when no protected block runs inside
an `ensure:` or a transaction.** -/
theorem signal_delivered_iff (f : Frame) (signalClass : Oop) (ls : List Level)
    (hdistinct : Distinct ls) :
    Delivered matchesException f signalClass ls ↔ ¬ HandlerInside ls :=
  ⟨fun hdelivered hinside =>
    not_delivered_of_inside matchesException f signalClass hdistinct hinside hdelivered,
    delivered_of_not_inside matchesException f signalClass hdistinct⟩

/-- `[[[x signal] ensure: [..]] on: x do: [..]`, called from a method. -/
theorem ensureInside_delivered :
    Delivered (fun handlerClass signalClass => handlerClass == signalClass) ⟨4, some 0⟩ 40
      [⟨.send, ⟨3, none⟩, 0⟩, ⟨.ensure, ⟨2, some 0⟩, 2⟩, ⟨.onDo 40, ⟨1, some 0⟩, 1⟩] :=
  (signal_delivered_iff _ _ _ _ (by decide)).mpr (by decide)

/-- `[[x signal] on: x do: [..]] ensure: [..]`: the ensure block runs although the
handler is inside it, and the handler is then used after its primitive is gone. -/
theorem handlerInside_undefined :
    let ls : List Level := [⟨.send, ⟨3, none⟩, 0⟩, ⟨.onDo 40, ⟨2, some 0⟩, 2⟩, ⟨.ensure, ⟨1, some 0⟩, 1⟩]
    let matchesException : Oop → Oop → Bool := fun handlerClass signalClass => handlerClass == signalClass
    Distinct ls ∧
      primSignal matchesException ⟨4, some 0⟩ 40 (controlOf ls) = ([.ranEnsure 1], .undefined) ∧
      ¬ Delivered matchesException ⟨4, some 0⟩ 40 ls := by
  refine ⟨by decide, by decide, ?_⟩
  show ¬ (_ = _)
  decide

end Signal

end LivingObjects.Interp
