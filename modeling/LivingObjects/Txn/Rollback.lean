/-
  LivingObjects.Txn.Rollback — a transaction left by a signal.

  The stores of everything that runs inside a transaction go to its log: each
  interpreter loop is given the log of the loop that called it, and the transactions
  inside the outermost one hand its log on.  A signal that leaves the outermost
  transaction drops the log, and the handler block runs without one.

  Between the transaction and the signal the program calls, returns, stores and
  allocates; the ensure blocks the signal runs may store too.
-/
import LivingObjects.Interp.Runs
import LivingObjects.Txn.Overlay

namespace LivingObjects.Txn

open LivingObjects.Lib
open LivingObjects.VM
open LivingObjects.ObjectMemory
open LivingObjects.Journal
open LivingObjects.Checkpoint
open LivingObjects.Interp

/-! ## §1. The log of a loop. -/

/-- The transaction whose log the innermost loop was given as `txn_log`.  The outermost
loop gets none, a transaction primitive gives its own, every other primitive hands on
the one it was given. -/
def loopLog : List Native → Option Nat
  | [] => none
  | n :: rest =>
    match n.body with
    | .main => none
    | .transaction .. => some n.id
    | _ => loopLog rest

/-- In a nesting it is the active log. -/
theorem loopLog_controlOf (ls : List Level) :
    loopLog (controlOf ls).natives
      = (controlOf ls).currentTransactionLogFrame.head?.map TransactionRecord.native := by
  induction ls with
  | nil => rfl
  | cons l ls ih =>
    show loopLog (l.enter (controlOf ls)).natives = _
    simp only [controlOf, Level.enter]
    rcases l.kind with _ | _ | cls | _ | k | _ | _
    · exact ih
    · exact ih
    · exact ih
    · exact ih
    · simp only [transactionPrimitive]
      split
      · exact ih
      · rfl
    · exact ih
    · exact ih

/-- Inside an outermost transaction its log is the active one. -/
theorem activeLog {T : Level} {outer : List Level} (hT : T.IsTransaction)
    (houter : ∀ l ∈ outer, ¬ l.IsTransaction) (inner : List Level) :
    (controlOf (inner ++ T :: outer)).currentTransactionLogFrame = [⟨T.native⟩] := by
  induction inner with
  | nil =>
    have hnone : (controlOf outer).currentTransactionLogFrame = [] := by
      by_contra hactive
      obtain ⟨l, hl, htxn⟩ := transactionActive hactive
      exact houter l hl htxn
    obtain ⟨k, hkind⟩ := hT
    show (T.enter (controlOf outer)).currentTransactionLogFrame = _
    unfold Level.enter
    rw [hkind]
    simp only [transactionPrimitive, hnone, ne_eq, not_true_eq_false, if_false]
  | cons l ls ih =>
    show (l.enter (controlOf (ls ++ T :: outer))).currentTransactionLogFrame = _
    rcases guards_enter l (controlOf (ls ++ T :: outer)) with
      ⟨-, ht, -⟩ | ⟨-, -, ht, -⟩ | ⟨-, hempty, -⟩
    · rw [ht, ih]
    · rw [ht, ih]
    · rw [ih] at hempty
      cases hempty

/-! ## §2. Programs that store. -/

/-- The control state, the heap, the buffer of the running transaction, the journal. -/
structure World where
  control : Control
  next : Nat
  heap : Heap
  log : List LogEntry
  file : Option (List UInt8)

/-- One thing a program does. -/
inductive DataAct where
  /-- A call, a return or a signal; `io` is what the system does should it append. -/
  | control (io : AppendIo) (a : Interp.Act)
  /-- An instance-variable store or an `at:put:` that has passed its checks. -/
  | store (e : LogEntry)
  | alloc (req : AllocRequest)

/-- A store, with the log the loop was given. -/
def World.store (active : Option Nat) (s : World) (e : LogEntry) : World :=
  match active with
  | some _ => { s with log := s.log ++ [e] }
  | none =>
    { s with heap := { om := markEntry s.heap.om e, mem := commitEntry s.heap.mem e } }

/-- The end of an outermost transaction whose block returns. -/
def World.complete (io : AppendIo) (kind : TransactionKind) (s : World) : Option World :=
  (endTransaction s.heap.om.start s.heap.om.free kind io s.log ⟨s.heap.mem, s.file⟩).map
    (fun d =>
      let om := if kind = .readOnly then s.heap.om else s.log.foldl markEntry s.heap.om
      { s with heap := { om := om, mem := d.mem }, log := [], file := d.file })

/-- What a return does to the data: something only when a transaction primitive takes
its log off the list. -/
def World.settle (io : AppendIo) (s : World) (after : Control) : Option World :=
  if after.currentTransactionLogFrame = s.control.currentTransactionLogFrame then some s
  else
    match s.control.natives.head?.map Native.body with
    | some (.transaction kind _ _) => s.complete io kind
    | _ => some s

section Signals

/- What `handlesSignalClass:` answers, and what the ensure blocks store. -/
variable (matchesException : Oop → Oop → Bool) (ensureWrites : Nat → List LogEntry)

/-- What happens to the data while a signal leaves levels; `active` is the log of the
loop an ensure block runs in. -/
def World.unwind : List Event → Option Nat → World → Option Nat × World
  | [], active, s => (active, s)
  | .ranEnsure n :: events, active, s =>
    unwind events active ((ensureWrites n).foldl (World.store active) s)
  | .aborted _ :: events, _, s => unwind events none { s with log := [] }
  | .resumed _ :: events, active, s | .committed _ :: events, active, s => unwind events active s

/-- The data after some of the events of a signal. -/
def World.after (s : World) (events : List Event) : World :=
  (World.unwind ensureWrites events (loopLog s.control.natives) s).2

/-- What a call, a return or a signal does to the data. -/
def World.data (io : AppendIo) (events : List Event) (after : Control) (s : World) :
    Interp.Act → Option World
  | .call (.transaction _) _ =>
    -- the `memset` of a transaction with a log of its own
    some (if s.control.currentTransactionLogFrame = [] then { s with log := [] } else s)
  | .call _ _ => some s
  | .ret _ | .nonLocal => s.settle io after
  | .signal _ _ => some (s.after ensureWrites events)

/-- One act; `none` when the program stops. -/
def World.step (s : World) : DataAct → Option World
  | .store e => some (s.store (loopLog s.control.natives) e)
  | .alloc req =>
    (omAlloc s.heap req).map (fun r =>
      { s with heap := { r.2 with mem := newObject req r.1 s.heap.mem } })
  | .control io a =>
    match a.step matchesException ⟨s.control, s.next⟩ with
    | none => none
    | some (events, m) =>
      (s.data ensureWrites io events m.control a).map (fun s =>
        { s with control := m.control, next := m.next })

/-- The program, act after act. -/
def World.run : List DataAct → World → Option World
  | [], s => some s
  | a :: acts, s => (s.step matchesException ensureWrites a).bind (run acts)

/-- The nesting after some acts. -/
def nestAfter : List DataAct → Nat → List Level → List Level
  | [], _, ls => ls
  | .control _ a :: acts, next, ls => nestAfter acts (next + 1) (a.nest matchesException next ls)
  | .store _ :: acts, next, ls => nestAfter acts next ls
  | .alloc _ :: acts, next, ls => nestAfter acts next ls

/-- The run stays inside a level, and each act meets its condition. -/
def StaysInside (around : List Level) : List DataAct → Nat → List Level → Prop
  | [], _, ls => around <:+ ls
  | .control _ a :: acts, next, ls =>
    around <:+ ls ∧ a.Clean ls ∧
      StaysInside around acts (next + 1) (a.nest matchesException next ls)
  | .store _ :: acts, next, ls => around <:+ ls ∧ StaysInside around acts next ls
  | .alloc _ :: acts, next, ls => around <:+ ls ∧ StaysInside around acts next ls

/-- The transaction is rolled back: its handler block runs with no log active; the log
has been dropped once, and when it was, every object that had been there before the
transaction was as it had been; nothing has been appended to the journal. -/
def RolledBack (T : Level) (live : Set Extent) (before s : World) (f : Frame)
    (signalClass : Oop) : Prop :=
  ∃ native c inside outside,
    primSignal matchesException f signalClass s.control
      = (inside ++ .aborted T.native :: outside, .handled native c) ∧
    (∀ n, Event.aborted n ∉ inside ∧ Event.aborted n ∉ outside) ∧
    c.currentTransactionLogFrame = [] ∧ loopLog c.natives = none ∧
    (s.after ensureWrites (inside ++ [.aborted T.native])).log = [] ∧
    (∀ x ∈ live, ∀ a, x.Holds a →
      (s.after ensureWrites (inside ++ [.aborted T.native])).heap.mem a = before.heap.mem a) ∧
    (s.after ensureWrites (inside ++ .aborted T.native :: outside)).file = before.file

/-! ## §3. Inside the transaction. -/

section Inside

variable {T : Level} {outer : List Level} {live : Set Extent} {before : World}

/-- What holds as long as the transaction runs: the objects of before and the journal
are untouched. -/
structure Deferred (before : World) (live : Set Extent) (s : World) (ls : List Level) : Prop where
  control : s.control = controlOf ls
  fresh : Fresh ls s.next
  file : s.file = before.file
  old : ∀ x ∈ live, ∀ a, x.Holds a → s.heap.mem a = before.heap.mem a
  layout : ∃ lives, live ⊆ lives ∧ Layout s.heap lives

/-- A store inside the transaction goes to the log. -/
theorem World.store_some (t : Nat) (s : World) (e : LogEntry) :
    s.store (some t) e = { s with log := s.log ++ [e] } := rfl

/-- A signal does not leave the program inside the transaction. -/
theorem signal_leaves {ls : List Level} {signalClass : Oop} {home : Option Nat}
    {io : AppendIo} {s s' : World} (hT : T.IsTransaction)
    (hd : Deferred before live s ls) (hin : T :: outer <:+ ls) (hclean : ¬ HandlerInside ls)
    (hstep : s.step matchesException ensureWrites (.control io (.signal signalClass home)) = some s')
    (hstays : T :: outer <:+
      (Interp.Act.signal signalClass home).nest matchesException s.next ls) : False := by
  have hdelivered := delivered_of_not_inside matchesException ⟨s.next, home⟩ signalClass
    hd.fresh.natives hclean
  have hTin : T ∈ ls := hin.subset List.mem_cons_self
  have hTguards : T.Guards := .inr hT
  unfold Delivered at hdelivered
  simp only [Interp.Act.nest] at hstays
  split at hdelivered
  · next h outer' hcaught =>
    -- the level that catches it would be inside the transaction
    simp only [hcaught] at hstays
    rcases List.suffix_cons_iff.mp hstays with heq | hrest
    · obtain ⟨k, hk⟩ := hT
      rw [(List.cons.inj heq).1] at hk
      cases hk
    · obtain ⟨cls, hkind, -⟩ := Level.onDo_of_catches (catching_head matchesException hcaught)
      have hsplit := insideCatching_append_catching matchesException signalClass ls
      rw [hcaught] at hsplit
      apply hclean
      rw [← hsplit]
      exact handlerInside_append _ (.inl ⟨⟨cls, hkind⟩, T, hrest.subset List.mem_cons_self, hTguards⟩)
  · -- nobody catches it: the program stops
    have hnotFailed := primSignal_not_failed matchesException ⟨s.next, home⟩ signalClass
      ⟨T, hTin, hTguards⟩
    have htrapped := hdelivered.resolve_right hnotFailed
    simp only [World.step, Interp.Act.step, hd.control] at hstep
    rcases hp : primSignal matchesException ⟨s.next, home⟩ signalClass (controlOf ls)
      with ⟨events, result⟩
    simp only [hp] at htrapped hstep
    subst htrapped
    cases hstep

/-- The loops inside the transaction were given its log. -/
theorem loopLog_inside {ls : List Level} (hT : T.IsTransaction)
    (houtermost : ∀ l ∈ outer, ¬ l.IsTransaction) (hin : T :: outer <:+ ls) :
    loopLog (controlOf ls).natives = some T.native := by
  obtain ⟨inner, rfl⟩ := hin
  rw [loopLog_controlOf, activeLog hT houtermost]
  rfl

/-- A store. -/
theorem Deferred.store {ls : List Level} {s : World} {e : LogEntry} (hT : T.IsTransaction)
    (houtermost : ∀ l ∈ outer, ¬ l.IsTransaction) (hd : Deferred before live s ls)
    (hin : T :: outer <:+ ls) :
    Deferred before live (s.store (loopLog s.control.natives) e) ls := by
  rw [hd.control, loopLog_inside hT houtermost hin, World.store_some]
  exact ⟨hd.control, hd.fresh, hd.file, hd.old, hd.layout⟩

/-- An allocation. -/
theorem Deferred.alloc {ls : List Level} {s : World} {req : AllocRequest} {object : Nat}
    {h' : Heap} (hd : Deferred before live s ls) (ha : omAlloc s.heap req = some (object, h')) :
    Deferred before live
      { s with heap := { h' with mem := newObject req object s.heap.mem } } ls := by
  obtain ⟨lives, hsub, hl⟩ := hd.layout
  refine ⟨hd.control, hd.fresh, hd.file, ?_, ?_⟩
  · intro x hx a ha'
    exact (newObject_keeps hl ha (hsub hx) ha').trans (hd.old x hx a ha')
  · exact ⟨_, hsub.trans (Set.subset_insert _ _), newObject_layout hl ha⟩

/-- A call, a return or a signal inside the transaction. -/
theorem Deferred.control_step {ls : List Level} {s s' : World} {io : AppendIo} {a : Interp.Act}
    (hT : T.IsTransaction) (houtermost : ∀ l ∈ outer, ¬ l.IsTransaction)
    (hd : Deferred before live s ls) (hin : T :: outer <:+ ls) (hclean : a.Clean ls)
    (hstays : T :: outer <:+ a.nest matchesException s.next ls)
    (hstep : s.step matchesException ensureWrites (.control io a) = some s') :
    Deferred before live s' (a.nest matchesException s.next ls) ∧ s'.next = s.next + 1 := by
  have hactive : ∀ ls', T :: outer <:+ ls' →
      (controlOf ls').currentTransactionLogFrame = [⟨T.native⟩] := by
    rintro ls' ⟨inner, rfl⟩
    exact activeLog hT houtermost inner
  simp only [World.step, hd.control] at hstep
  cases hact : a.step matchesException ⟨controlOf ls, s.next⟩ with
  | none =>
    simp only [hact] at hstep
    cases hstep
  | some r =>
    obtain ⟨events, m⟩ := r
    obtain ⟨hm, hfresh⟩ := hclean.step matchesException hd.fresh hact
    have hsettle : s.settle io m.control = some s := by
      rw [World.settle, hm, hd.control]
      exact if_pos ((hactive _ hstays).trans (hactive ls hin).symm)
    -- a signal cannot stay inside; everything else leaves the data alone
    have hdata : s.data ensureWrites io events m.control a = some s := by
      cases a with
      | call kind home =>
        cases kind with
        | transaction k =>
          have hne : s.control.currentTransactionLogFrame ≠ [] := by
            rw [hd.control, hactive ls hin]
            exact List.cons_ne_nil _ _
          exact congrArg some (if_neg hne)
        | _ => rfl
      | ret home => exact hsettle
      | nonLocal => exact hsettle
      | signal signalClass home =>
        refine absurd hstays (fun hin' => ?_)
        have hagain : s.step matchesException ensureWrites (.control io (.signal signalClass home))
            = some s' := by
          simp only [World.step, hd.control]
          exact hstep
        exact signal_leaves matchesException ensureWrites hT hd hin hclean hagain hin'
    simp only [hact, hdata, Option.map_some] at hstep
    obtain rfl := Option.some.inj hstep
    rw [hm]
    exact ⟨⟨rfl, hfresh, hd.file, hd.old, hd.layout⟩, rfl⟩

/-- **A run inside the transaction** leaves the objects of before and the journal alone. -/
theorem Deferred.run (acts : List DataAct) {ls : List Level} {s s' : World}
    (hT : T.IsTransaction) (houtermost : ∀ l ∈ outer, ¬ l.IsTransaction)
    (hd : Deferred before live s ls)
    (hstays : StaysInside matchesException (T :: outer) acts s.next ls)
    (hrun : World.run matchesException ensureWrites acts s = some s') :
    Deferred before live s' (nestAfter matchesException acts s.next ls) ∧
      T :: outer <:+ nestAfter matchesException acts s.next ls := by
  induction acts generalizing s ls with
  | nil =>
    obtain rfl := Option.some.inj hrun
    exact ⟨hd, hstays⟩
  | cons a acts ih =>
    simp only [World.run] at hrun
    obtain ⟨s₁, hstep, hrest⟩ := Option.bind_eq_some_iff.mp hrun
    cases a with
    | store e =>
      obtain rfl := Option.some.inj hstep
      have hnext : (s.store (loopLog s.control.natives) e).next = s.next := by
        unfold World.store
        split <;> rfl
      have hih := ih (hd.store hT houtermost hstays.1) (hnext ▸ hstays.2) hrest
      rw [hnext] at hih
      exact hih
    | alloc req =>
      obtain ⟨⟨object, h'⟩, ha, rfl⟩ := Option.map_eq_some_iff.mp hstep
      have hih := ih (hd.alloc ha) hstays.2 hrest
      exact hih
    | control io a =>
      obtain ⟨hin, hclean, hstaysRest⟩ := hstays
      have hstays' : T :: outer <:+ a.nest matchesException s.next ls := by
        cases acts with
        | nil => exact hstaysRest
        | cons a' acts' => cases a' <;> exact hstaysRest.1
      obtain ⟨hd', hnext⟩ := hd.control_step matchesException ensureWrites hT houtermost hin hclean
        hstays' hstep
      have hih := ih hd' (hnext ▸ hstaysRest) hrest
      rw [hnext] at hih
      exact hih

/-- What a signal runs on its way out of levels inside a transaction. -/
theorem leaveEvents_ranEnsure (inner around : List Level)
    (h : (∀ l ∈ inner, ¬ l.IsTransaction) ∨ ∃ l ∈ around, l.IsTransaction) :
    ∀ e ∈ leaveEvents inner around, ∃ n, e = .ranEnsure n := by
  induction inner with
  | nil => exact fun e he => absurd he List.not_mem_nil
  | cons l ls ih =>
    intro e he
    have hrest : (∀ l' ∈ ls, ¬ l'.IsTransaction) ∨ ∃ l' ∈ around, l'.IsTransaction :=
      h.imp_left (fun hno l' hl' => hno l' (List.mem_cons_of_mem l hl'))
    rcases List.mem_append.mp he with hfirst | hlater
    · unfold leaveEvent at hfirst
      split at hfirst
      · exact ⟨l.native, List.mem_singleton.mp hfirst⟩
      · next k hkind =>
        have hinside : ∃ l' ∈ ls ++ around, l'.IsTransaction := by
          rcases h with hno | ⟨l', hl', htxn⟩
          · exact absurd ⟨k, hkind⟩ (hno l List.mem_cons_self)
          · exact ⟨l', List.mem_append_right ls hl', htxn⟩
        rw [if_pos hinside] at hfirst
        exact absurd hfirst List.not_mem_nil
      · exact absurd hfirst List.not_mem_nil
    · exact ih hrest e hlater

/-- The stores of ensure blocks inside the transaction go to its log. -/
theorem stores_deferred (t : Nat) (es : List LogEntry) (s : World) :
    es.foldl (World.store (some t)) s = { s with log := s.log ++ es } := by
  induction es generalizing s with
  | nil =>
    rw [List.append_nil]
    rfl
  | cons e es ih =>
    rw [List.foldl_cons, World.store_some, ih]
    simp

theorem stores_file (active : Option Nat) (es : List LogEntry) (s : World) :
    (es.foldl (World.store active) s).file = s.file := by
  induction es generalizing s with
  | nil => rfl
  | cons e es ih =>
    rw [List.foldl_cons, ih]
    unfold World.store
    split <;> rfl

theorem unwind_file (events : List Event) (active : Option Nat) (s : World) :
    (World.unwind ensureWrites events active s).2.file = s.file := by
  induction events generalizing active s with
  | nil => rfl
  | cons e events ih =>
    cases e with
    | ranEnsure n =>
      rw [World.unwind, ih]
      exact stores_file active _ s
    | aborted n => rw [World.unwind, ih]
    | resumed n => rw [World.unwind, ih]
    | committed n => rw [World.unwind, ih]

/-- Ensure blocks inside the transaction change its log alone; then the log is dropped. -/
theorem unwind_dropped (t n : Nat) (events : List Event) (s : World)
    (h : ∀ e ∈ events, ∃ m, e = .ranEnsure m) :
    World.unwind ensureWrites (events ++ [.aborted n]) (some t) s
      = (none, { s with log := [] }) := by
  induction events generalizing s with
  | nil => rfl
  | cons e events ih =>
    obtain ⟨m, rfl⟩ := h e List.mem_cons_self
    rw [List.cons_append, World.unwind, stores_deferred,
      ih _ (fun e' he' => h e' (List.mem_cons_of_mem _ he'))]

end Inside

/-- **A signal out of the outermost transaction rolls it back exactly when no protected
block runs inside an `ensure:` or a transaction**, whatever the block has called,
returned from, stored and allocated before. -/
theorem rolledBack_iff (T : Level) (outer : List Level) (hT : T.IsTransaction)
    (houtermost : ∀ l ∈ outer, ¬ l.IsTransaction) (live : Set Extent) (before after : World)
    (hcontrol : before.control = controlOf (T :: outer))
    (hfresh : Fresh (T :: outer) before.next) (hlayout : Layout before.heap live)
    (acts : List DataAct)
    (hstays : StaysInside matchesException (T :: outer) acts before.next (T :: outer))
    (hrun : World.run matchesException ensureWrites acts before = some after)
    (f : Frame) (signalClass : Oop)
    (hcaught : ∃ h around, catching matchesException signalClass
      (nestAfter matchesException acts before.next (T :: outer)) = h :: around ∧
        h :: around <:+ outer) :
    RolledBack matchesException ensureWrites T live before after f signalClass ↔
      ¬ HandlerInside (nestAfter matchesException acts before.next (T :: outer)) := by
  have hstart : Deferred before live before (T :: outer) :=
    ⟨hcontrol, hfresh, rfl, fun _ _ _ _ => rfl, live, Set.Subset.refl _, hlayout⟩
  obtain ⟨hd, inner, hin⟩ :=
    hstart.run matchesException ensureWrites acts hT houtermost hstays hrun
  rw [← hin] at hd hcaught ⊢
  constructor
  · -- a dead record would be used
    rintro ⟨native, c, inside, outside, hsignal, -⟩ hinside
    have hundefined := undefined_of_inside matchesException f signalClass hd.fresh.natives hinside
    rw [← hd.control, hsignal] at hundefined
    cases hundefined
  · intro hnot
    obtain ⟨h, around, hcatching, mid, rfl⟩ := hcaught
    have hdelivered := delivered_of_not_inside matchesException f signalClass hd.fresh.natives hnot
    unfold Delivered at hdelivered
    rw [hcatching] at hdelivered
    simp only at hdelivered
    -- the levels the signal leaves: inside the transaction, the transaction, around it
    have hsplit := insideCatching_append_catching matchesException signalClass
      (inner ++ T :: (mid ++ h :: around))
    have hleft : insideCatching matchesException signalClass (inner ++ T :: (mid ++ h :: around))
        = inner ++ [T] ++ mid := by
      rw [hcatching] at hsplit
      exact List.append_cancel_right (hsplit.trans (by simp))
    obtain ⟨k, hkind⟩ := id hT
    have hmidPlain : ∀ l ∈ mid, ¬ l.IsTransaction :=
      fun l hl => houtermost l (List.mem_append_left _ hl)
    have haroundPlain : ∀ l ∈ around, ¬ l.IsTransaction :=
      fun l hl => houtermost l (List.mem_append_right _ (List.mem_cons_of_mem h hl))
    have hnoOuter : ¬ ∃ l ∈ mid ++ h :: around, l.IsTransaction :=
      fun ⟨l, hl, htxn⟩ => houtermost l hl htxn
    have hevents : leaveEvents (inner ++ [T] ++ mid) (h :: around)
        = leaveEvents inner (T :: (mid ++ h :: around))
          ++ .aborted T.native :: leaveEvents mid (h :: around) := by
      rw [leaveEvents_append, leaveEvents_append, List.append_assoc]
      simp only [List.singleton_append, leaveEvents, List.nil_append, leaveEvent, hkind,
        if_neg hnoOuter, List.append_nil]
    have hinside := leaveEvents_ranEnsure inner (T :: (mid ++ h :: around))
      (.inr ⟨T, List.mem_cons_self, hT⟩)
    have houtside := leaveEvents_ranEnsure mid (h :: around) (.inl hmidPlain)
    have hnoLog : (controlOf (⟨.handlerBlock, f, h.native⟩ :: around)).currentTransactionLogFrame
        = [] := by
      show (controlOf around).currentTransactionLogFrame = []
      by_contra hactive
      obtain ⟨l, hl, htxn⟩ := transactionActive hactive
      exact haroundPlain l hl htxn
    have hactive : loopLog after.control.natives = some T.native := by
      rw [hd.control]
      exact loopLog_inside hT houtermost ⟨inner, rfl⟩
    have hdropped := unwind_dropped ensureWrites T.native T.native _ after hinside
    rw [hleft, hevents, ← hd.control] at hdelivered
    refine ⟨h.native, _, _, _, hdelivered, ?_, hnoLog, ?_, ?_, ?_, ?_⟩
    · refine fun n => ⟨fun hmem => ?_, fun hmem => ?_⟩
      · obtain ⟨m, hm⟩ := hinside _ hmem
        cases hm
      · obtain ⟨m, hm⟩ := houtside _ hmem
        cases hm
    · rw [loopLog_controlOf, hnoLog]
      rfl
    · rw [World.after, hactive, hdropped]
    · rw [World.after, hactive, hdropped]
      exact hd.old
    · exact (unwind_file ensureWrites _ _ _).trans hd.file

end Signals

/-! ## §4. Two programs. -/

/-- An `on:do:` around everything. -/
def outsideHandler : Level := ⟨.onDo 40, ⟨1, some 0⟩, 1⟩

/-- A transaction in its protected block. -/
def outermostAtomic : Level := ⟨.transaction .atomic, ⟨2, some 0⟩, 2⟩

/-- `[Transaction atomic: [..]] on: x do: [..]`, with one object in the heap. -/
def atomicEntered : World where
  control := controlOf [outermostAtomic, outsideHandler]
  next := 3
  heap := oneObject.heap
  log := []
  file := none

theorem atomicEntered_fresh : Fresh [outermostAtomic, outsideHandler] 3 where
  natives := by decide
  frames := by decide
  nativesBelow := by decide
  framesBelow := by decide

theorem oneObject_layout : Layout oneObject.heap oneObject.live :=
  ((VmState.initial_inv twoPages (fun _ => 0) none).after [oneField] oneObject_meets).layout

/-- Inside it `[o x: 1. .. x signal] ensure: [o x: 2]`. -/
def ensureAndStore : List DataAct :=
  [.control goodIo (.call .ensure (some 0)), .store ⟨65536, 0, 5⟩,
    .control goodIo (.call .send none)]

/-- The stores of the block and of its ensure block are undone. -/
theorem ensureAndStore_rolledBack :
    ∃ after, World.run (fun h s => h == s) (fun _ => [⟨65536, 0, 9⟩]) ensureAndStore atomicEntered
        = some after ∧
      RolledBack (fun h s => h == s) (fun _ => [⟨65536, 0, 9⟩]) outermostAtomic oneObject.live
        atomicEntered after ⟨5, some 0⟩ 40 := by
  obtain ⟨after, hafter⟩ : ∃ after, World.run (fun h s => h == s) (fun _ => [⟨65536, 0, 9⟩])
      ensureAndStore atomicEntered = some after := Option.isSome_iff_exists.mp (by decide +kernel)
  refine ⟨after, hafter, (rolledBack_iff _ _ outermostAtomic [outsideHandler] ⟨.atomic, rfl⟩
    (by decide) oneObject.live atomicEntered after rfl atomicEntered_fresh oneObject_layout
    ensureAndStore ?_ hafter ⟨5, some 0⟩ 40 ⟨outsideHandler, [], by decide, List.suffix_refl _⟩).mpr
      (by decide)⟩
  exact ⟨by decide, trivial, by decide, by decide, trivial, by unfold StaysInside; decide⟩

/-- Inside it `[x signal] on: y do: [..]`. -/
def otherHandler : List DataAct := [.control goodIo (.call (.onDo 41) (some 0))]

/-- A protected block inside the transaction that does not catch the signal: after the
jump to the transaction its record is dead, and it is looked at first. -/
theorem otherHandler_notRolledBack :
    StaysInside (fun h s => h == s) [outermostAtomic, outsideHandler] otherHandler 3
        [outermostAtomic, outsideHandler] ∧
    ∃ after, World.run (fun h s => h == s) (fun _ => []) otherHandler atomicEntered = some after ∧
      catching (fun h s => h == s) 40
        (nestAfter (fun h s => h == s) otherHandler 3 [outermostAtomic, outsideHandler])
          = [outsideHandler] ∧
      (primSignal (fun h s => h == s) ⟨4, some 0⟩ 40 after.control).2 = .undefined ∧
      ¬ RolledBack (fun h s => h == s) (fun _ => []) outermostAtomic oneObject.live atomicEntered
        after ⟨4, some 0⟩ 40 := by
  refine ⟨⟨by decide, trivial, by unfold StaysInside; decide⟩, _, rfl, by decide, by decide, ?_⟩
  rintro ⟨native, c, inside, outside, hsignal, -⟩
  have hundefined : (primSignal (fun h s => h == s) ⟨4, some 0⟩ 40
      (controlOf [⟨.onDo 41, ⟨3, some 0⟩, 3⟩, outermostAtomic, outsideHandler])).2
        = .undefined := by decide
  exact absurd ((congrArg Prod.snd hsignal).symm.trans hundefined) (by simp)

end LivingObjects.Txn
