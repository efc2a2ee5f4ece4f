/-
  LivingObjects.Journal.FailedAppends — a log in which calls fail.

  A failed append is never undone: whatever part of its frame got written stays
  in the file, and the next call appends behind it.  The replay therefore reads
  the successful transactions back only in a tidy run (`TidyRun`): no failed
  call leaves a whole frame of entries, and nothing is written behind a torn
  frame.  `txnLogReplay_tidyRun` is the positive result for every state of such
  a run; `tornFrame_hides_success` is a run of two calls that is not tidy.
-/
import LivingObjects.Journal.TornTail

namespace LivingObjects.Journal

open LivingObjects.Lib
open LivingObjects.VM
open LivingObjects.ObjectMemory

/-! ## §1. What a call leaves, from its inputs alone. -/

/-- The bytes of its frame that the call gets written. -/
def AppendCall.written (call : AppendCall) : Nat :=
  match call.log with
  | some log => appendedBytes call.io call.live.start call.live.limit log
  | none => 0

/-- The whole frame gets written and `fsync` succeeds. -/
def AppendCall.Succeeds (call : AppendCall) : Prop :=
  call.log.isSome ∧ call.written = call.frame.length ∧ call.io.fsyncs = true

/-- Part of the frame gets written, but not all of it. -/
def AppendCall.Torn (call : AppendCall) : Prop :=
  0 < call.written ∧ call.written < call.frame.length

instance (call : AppendCall) : Decidable call.Succeeds := by
  unfold AppendCall.Succeeds
  infer_instance

instance (call : AppendCall) : Decidable call.Torn := by
  unfold AppendCall.Torn
  infer_instance

theorem AppendCall.run_file (call : AppendCall) (file : Option (List UInt8)) :
    (call.run file).2.getD [] = file.getD [] ++ call.frame.take call.written := by
  unfold AppendCall.run AppendCall.frame AppendCall.written
  rcases call.log with _ | log
  · simp [txnLogAppendFsync]
  · exact (txnLogAppendFsync_spec call.io call.live.start call.live.limit log file).1

theorem AppendCall.run_result (call : AppendCall) (file : Option (List UInt8)) :
    (call.run file).1 = true ↔ call.Succeeds := by
  unfold AppendCall.run AppendCall.Succeeds AppendCall.frame AppendCall.written
  rcases call.log with _ | log
  · simp [txnLogAppendFsync]
  · have hspec := (txnLogAppendFsync_spec call.io call.live.start call.live.limit log file).2
    simpa using hspec

theorem AppendCall.written_le (call : AppendCall) : call.written ≤ call.frame.length := by
  unfold AppendCall.written AppendCall.frame
  rcases call.log with _ | log
  · exact Nat.le_refl 0
  · exact appendedBytes_le call.io call.live.start call.live.limit log

/-! ## §2. Replaying the successful calls. -/

/-- The transactions of the calls that returned success, in call order. -/
def returnedTxns (calls : List AppendCall) (file : Option (List UInt8)) : List CommittedTxn :=
  ((runAppends calls file).1.zip calls).filterMap
    (fun (ok, call) => if ok then call.txn else none)

/-- Replaying the file the calls leave succeeds and applies exactly the
transactions of the calls that returned success. -/
def ReplaysReturned (restored : HeapRange) (calls : List AppendCall) : Prop :=
  ∀ s, txnLogReplay restored.start restored.used (runAppends calls none).2 s
    = (true, (returnedTxns calls none).foldl (CommittedTxn.install restored.start) s)

/-- A run the replay can read back. -/
structure TidyRun (restored : HeapRange) (calls : List AppendCall) : Prop where
  /-- What a successful call logs and refers to lies inside the restored heap. -/
  restorable : ∀ call ∈ calls, call.Succeeds → ∀ txn, call.txn = some txn →
    ∀ e ∈ txn.log.entries, Restorable txn.live restored e
  /-- A call that fails with its whole frame written has no entries. -/
  unsynced : ∀ call ∈ calls, ¬ call.Succeeds → call.written = call.frame.length →
    ∀ txn, call.txn = some txn → txn.log.entries = []
  /-- Nothing is written behind a torn frame. -/
  tornLast : calls.Pairwise (fun earlier later => earlier.Torn → later.written = 0)

theorem TidyRun.tail {restored : HeapRange} {call : AppendCall} {calls : List AppendCall}
    (h : TidyRun restored (call :: calls)) : TidyRun restored calls :=
  ⟨fun c hc => h.restorable c (List.mem_cons_of_mem call hc),
    fun c hc => h.unsynced c (List.mem_cons_of_mem call hc),
    (List.pairwise_cons.mp h.tornLast).2⟩

/-- A tidy run is tidy after every one of its calls. -/
theorem TidyRun.take {restored : HeapRange} {calls : List AppendCall}
    (h : TidyRun restored calls) (n : Nat) : TidyRun restored (calls.take n) :=
  ⟨fun c hc => h.restorable c (List.mem_of_mem_take hc),
    fun c hc => h.unsynced c (List.mem_of_mem_take hc),
    h.tornLast.sublist (List.take_sublist n calls)⟩

theorem returnedTxns_cons (call : AppendCall) (calls : List AppendCall)
    (file : Option (List UInt8)) :
    returnedTxns (call :: calls) file
      = (if call.Succeeds then call.txn.toList else []) ++ returnedTxns calls (call.run file).2 := by
  have hresult := call.run_result file
  unfold returnedTxns
  simp only [runAppends, List.zip_cons_cons, List.filterMap_cons]
  by_cases hok : call.Succeeds
  · rw [if_pos hok, hresult.mpr hok]
    rcases call.txn with _ | txn <;> rfl
  · have hfalse : (call.run file).1 = false := by
      simpa using fun h => hok (hresult.mp h)
    rw [if_neg hok, hfalse]
    rfl

/-- Calls that write nothing leave the file's contents alone and return failure. -/
theorem silent_run (calls : List AppendCall) (file : Option (List UInt8))
    (h : ∀ call ∈ calls, call.written = 0) :
    (runAppends calls file).2.getD [] = file.getD [] ∧ returnedTxns calls file = [] := by
  induction calls generalizing file with
  | nil => exact ⟨rfl, rfl⟩
  | cons call calls ih =>
    have hzero := h call List.mem_cons_self
    obtain ⟨hfile, htxns⟩ := ih (call.run file).2 (fun c hc => h c (List.mem_cons_of_mem call hc))
    have hrun := call.run_file file
    rw [hzero, List.take_zero, List.append_nil] at hrun
    have hfails : ¬ call.Succeeds := by
      rintro ⟨hsome, hwhole, -⟩
      obtain ⟨log, hlog⟩ := Option.isSome_iff_exists.mp hsome
      have hlen := frameBytes_length call.live.start call.live.limit log
      rw [hzero, AppendCall.frame, hlog] at hwhole
      simp only at hwhole
      omega
    rw [returnedTxns_cons, if_neg hfails, htxns]
    exact ⟨hfile.trans hrun, rfl⟩

/-- A transaction without entries installs nothing. -/
theorem install_nil (heapStart : Nat) (s : ReplayHeap) {txn : CommittedTxn}
    (h : txn.log.entries = []) : txn.install heapStart s = s := by
  unfold CommittedTxn.install installLog
  rw [h]
  rfl

/-- A transaction without entries is restorable anywhere. -/
theorem restorable_nil (restored : HeapRange) {txn : CommittedTxn}
    (h : txn.log.entries = []) : txn.Restorable restored :=
  ⟨by rw [h]; rfl, by rw [h]; exact fun e he => absurd he List.not_mem_nil⟩

/-- The file of a tidy run: whole frames that install what the successful calls
committed, and possibly one torn frame behind them. -/
theorem tidyRun_file (restored : HeapRange) (calls : List AppendCall)
    (file : Option (List UInt8)) (h : TidyRun restored calls) :
    ∃ (txns torn : List CommittedTxn) (n : Nat),
      (runAppends calls file).2.getD []
          = file.getD [] ++ ((txns ++ torn).flatMap CommittedTxn.frame).take n ∧
        wholeFrames CommittedTxn.frame n (txns ++ torn) = txns ∧
        (∀ txn ∈ txns, txn.Restorable restored) ∧
        ∀ s, txns.foldl (CommittedTxn.install restored.start) s
          = (returnedTxns calls file).foldl (CommittedTxn.install restored.start) s := by
  induction calls generalizing file with
  | nil => exact ⟨[], [], 0, by simp [runAppends], rfl, by simp, fun s => rfl⟩
  | cons call calls ih =>
    obtain ⟨txns, torn, n, hfile, hwhole, hrest, hfold⟩ := ih (call.run file).2 h.tail
    have hrun := call.run_file file
    have hle := call.written_le
    have hcons := returnedTxns_cons call calls file
    by_cases hzero : call.written = 0
    · -- nothing written: the call fails and leaves no trace
      have hsilent := (silent_run [call] file (by simpa using hzero)).2
      rw [hzero, List.take_zero, List.append_nil] at hrun
      have hfails : (if call.Succeeds then call.txn.toList else []) = [] := by
        rw [returnedTxns_cons] at hsilent
        exact (List.append_eq_nil_iff.mp hsilent).1
      refine ⟨txns, torn, n, ?_, hwhole, hrest, ?_⟩
      · rw [runAppends, hfile, hrun]
      · rw [hcons, hfails]
        exact hfold
    · obtain ⟨log, hlog⟩ : ∃ log, call.log = some log := by
        rcases hl : call.log with _ | log
        · rw [AppendCall.written, hl] at hzero
          exact absurd rfl hzero
        · exact ⟨log, rfl⟩
      have htxn : call.txn = some ⟨call.live, log⟩ := by rw [AppendCall.txn, hlog]; rfl
      have hframe : call.frame = CommittedTxn.frame ⟨call.live, log⟩ := by
        rw [AppendCall.frame, hlog]
        rfl
      have hloggable : log.entries.all (loggable call.live.start call.live.limit) = true := by
        apply loggable_of_appendedBytes call.io
        rw [AppendCall.written, hlog] at hzero
        exact Nat.pos_of_ne_zero hzero
      by_cases hall : call.written = call.frame.length
      · -- a whole frame: a success, or a failed call without entries
        rw [hall, List.take_length] at hrun
        have htxnRestorable : CommittedTxn.Restorable restored ⟨call.live, log⟩ := by
          by_cases hok : call.Succeeds
          · exact ⟨hloggable, h.restorable call List.mem_cons_self hok _ htxn⟩
          · exact restorable_nil restored
              (h.unsynced call List.mem_cons_self hok hall _ htxn)
        have hlen : (CommittedTxn.frame ⟨call.live, log⟩).length
            ≤ (CommittedTxn.frame ⟨call.live, log⟩).length + n := Nat.le_add_right _ _
        refine ⟨⟨call.live, log⟩ :: txns, torn,
          (CommittedTxn.frame ⟨call.live, log⟩).length + n, ?_, ?_, ?_, ?_⟩
        · rw [runAppends, hfile, hrun, hframe, List.cons_append, List.flatMap_cons,
              List.take_length_add_append, List.append_assoc]
        · rw [List.cons_append, wholeFrames_cons_of_le _ _ hlen, Nat.add_sub_cancel_left, hwhole]
        · exact List.forall_mem_cons.mpr ⟨htxnRestorable, hrest⟩
        · intro s
          rw [hcons, List.foldl_append, List.foldl_cons, hfold]
          by_cases hok : call.Succeeds
          · rw [if_pos hok, htxn]
            rfl
          · have hnil := h.unsynced call List.mem_cons_self hok hall _ htxn
            rw [if_neg hok, install_nil restored.start s hnil]
            rfl
      · -- a torn frame: nothing is written after it
        have htorn : call.Torn := ⟨Nat.pos_of_ne_zero hzero, by omega⟩
        have hsilent : ∀ c ∈ calls, c.written = 0 :=
          fun c hc => (List.pairwise_cons.mp h.tornLast).1 c hc htorn
        obtain ⟨hfile', htxns'⟩ := silent_run calls (call.run file).2 hsilent
        have hfails : ¬ call.Succeeds := fun hok => hall hok.2.1
        refine ⟨[], [⟨call.live, log⟩], call.written, ?_, ?_, ?_, ?_⟩
        · rw [runAppends, hfile', hrun, hframe]
          simp
        · exact wholeFrames_cons_of_lt _ _ (by rw [← hframe]; omega)
        · exact fun txn ht => absurd ht List.not_mem_nil
        · intro s
          rw [hcons, htxns', if_neg hfails]
          rfl

/-- A tidy run reads back. -/
theorem tidyRun_replays (restored : HeapRange) (calls : List AppendCall)
    (h : TidyRun restored calls) : ReplaysReturned restored calls := by
  intro s
  obtain ⟨txns, torn, n, hfile, hwhole, hrest, hfold⟩ := tidyRun_file restored calls none h
  rw [Option.getD_none, List.nil_append] at hfile
  rw [txnLogReplay_getD, hfile,
      txnLogReplay_take restored (txns ++ torn) n (by rw [hwhole]; exact hrest) s, hwhole, hfold]

/-- **The log with failed appends.**  In a tidy run, after every call, the
replay succeeds and applies exactly the transactions of the calls that returned
success, in order. -/
theorem txnLogReplay_tidyRun (restored : HeapRange) (calls : List AppendCall)
    (h : TidyRun restored calls) (n : Nat) : ReplaysReturned restored (calls.take n) :=
  tidyRun_replays restored (calls.take n) (h.take n)

/-! ## §3. Runs that are not tidy. -/

/-- A call whose second `write` fails after the magic word. -/
def tornCall : AppendCall :=
  { sampleCall with
    io := { opens := true, mallocs := true, writes := [.wrote 8, .failed], fsyncs := true } }

/-- A torn frame and a success behind it: the replay fails. -/
theorem tornFrame_hides_success : ¬ ReplaysReturned samplePage [tornCall, sampleCall] := by
  intro h
  have hresult := congrArg Prod.fst (h zeroHeap)
  have hfails : (txnLogReplay samplePage.start samplePage.used
      (runAppends [tornCall, sampleCall] none).2 zeroHeap).1 = false := by decide +kernel
  rw [hfails] at hresult
  exact absurd hresult (by decide)

/-- A success with a torn frame behind it reads back after both calls. -/
theorem tidyRun_sample : ReplaysReturned samplePage ([sampleCall, tornCall].take 2) := by
  refine txnLogReplay_tidyRun samplePage [sampleCall, tornCall] ⟨?_, ?_, ?_⟩ 2
  · intro call hcall hok txn htxn e he
    have hsample : call = sampleCall := by
      rcases List.mem_cons.mp hcall with rfl | hcall
      · rfl
      · rw [List.mem_singleton.mp hcall] at hok
        exact absurd hok (by decide)
    subst hsample
    cases htxn
    have hentry : e = ⟨4104, 0, 5⟩ := by simpa using he
    subst hentry
    exact ⟨by decide, fun hptr _ => absurd hptr (by decide)⟩
  · intro call hcall hfails hwhole
    rcases List.mem_cons.mp hcall with rfl | hcall
    · exact absurd (by decide) hfails
    · rw [List.mem_singleton.mp hcall] at hwhole
      exact absurd hwhole (by decide)
  · refine List.pairwise_pair.mpr fun htorn => ?_
    exact absurd htorn (by decide)

end LivingObjects.Journal
