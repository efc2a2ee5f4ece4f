/-
  LivingObjects.Journal.TornTail — a log of successful appends, cut anywhere.

  Calls that all return success leave exactly the concatenation of their
  frames.  Cut that file at any byte: the replay succeeds and installs the
  entries of the frames that are wholly there, which are the first so many of
  the committed transactions, and nothing of the frame that is cut.
-/
import LivingObjects.Journal.Relocate

namespace LivingObjects.Journal

open LivingObjects.Lib
open LivingObjects.VM
open LivingObjects.ObjectMemory

/-! ## §1. Sequences of appends. -/

/-- One call of `txn_log_append_fsync`: the log, the heap it was logged in and
what the operating system does. -/
structure AppendCall where
  io : AppendIo
  live : HeapRange
  log : Option TxnLog

/-- The call on a file. -/
def AppendCall.run (call : AppendCall) (file : Option (List UInt8)) :
    Bool × Option (List UInt8) :=
  txnLogAppendFsync call.io call.live.start call.live.limit call.log file

/-- The frame of a call, empty for a null log. -/
def AppendCall.frame (call : AppendCall) : List UInt8 :=
  match call.log with
  | some log => frameBytes call.live.start call.live.limit log
  | none => []

/-- Calls in order on one path: their results and the file. -/
def runAppends : List AppendCall → Option (List UInt8) → List Bool × Option (List UInt8)
  | [], file => ([], file)
  | call :: calls, file =>
    let (ok, file) := call.run file
    let (oks, file) := runAppends calls file
    (ok :: oks, file)

/-- A log together with the heap it was logged in. -/
structure CommittedTxn where
  live : HeapRange
  log : TxnLog

/-- The frame of a committed transaction. -/
def CommittedTxn.frame (txn : CommittedTxn) : List UInt8 :=
  frameBytes txn.live.start txn.live.limit txn.log

/-- The body words of a committed transaction. -/
def CommittedTxn.body (txn : CommittedTxn) : List UInt64 :=
  bodyWords txn.live.start txn.live.limit txn.log

/-- Install a committed transaction in a restored heap. -/
def CommittedTxn.install (heapStart : Nat) (s : ReplayHeap) (txn : CommittedTxn) : ReplayHeap :=
  installLog txn.live heapStart s txn.log

/-- Every entry of the transaction passed the append's test and every object it
logs or refers to lies inside the restored heap. -/
structure CommittedTxn.Restorable (restored : HeapRange) (txn : CommittedTxn) : Prop where
  loggable : txn.log.entries.all (Journal.loggable txn.live.start txn.live.limit) = true
  entries : ∀ e ∈ txn.log.entries, Journal.Restorable txn.live restored e

/-- What a call commits when it succeeds. -/
def AppendCall.txn (call : AppendCall) : Option CommittedTxn :=
  call.log.map (fun log => ⟨call.live, log⟩)

/-- The log of frames, as a codec over committed transactions. -/
theorem committedTxnCodec : FrameCodec readFrame CommittedTxn.frame CommittedTxn.body :=
  ⟨rfl, fun txn => readFrame_frameBytes_append txn.live.start txn.live.limit txn.log,
    fun txn => readFrame_cut txn.live.start txn.live.limit txn.log⟩

/-- Applying restorable transactions installs them one after the other. -/
theorem applyFrames_restorable (restored : HeapRange) (txns : List CommittedTxn)
    (h : ∀ txn ∈ txns, txn.Restorable restored) (s : ReplayHeap) :
    applyFrames (fun txn => replayEntries restored.start restored.used (CommittedTxn.body txn))
        txns s
      = (true, txns.foldl (CommittedTxn.install restored.start) s) := by
  induction txns generalizing s with
  | nil => rfl
  | cons txn txns ih =>
    have htxn := h txn List.mem_cons_self
    have hbody : replayEntries restored.start restored.used txn.body s
        = (true, txn.install restored.start s) :=
      replayEntries_bodyWords txn.live restored txn.log htxn.entries s
    rw [applyFrames, hbody, List.foldl_cons]
    exact ih (fun t ht => h t (List.mem_cons_of_mem txn ht)) _

/-! ## §2. Successful appends. -/

/-- Successful calls leave the frames of their transactions, in order. -/
theorem runAppends_success (calls : List AppendCall) (file : Option (List UInt8))
    (h : ∀ ok ∈ (runAppends calls file).1, ok = true) :
    ((runAppends calls file).2.getD [])
        = file.getD [] ++ (calls.filterMap AppendCall.txn).flatMap CommittedTxn.frame ∧
      ∀ txn ∈ calls.filterMap AppendCall.txn,
        txn.log.entries.all (loggable txn.live.start txn.live.limit) = true := by
  induction calls generalizing file with
  | nil => exact ⟨by simp [runAppends], by simp⟩
  | cons call calls ih =>
    simp only [runAppends, List.mem_cons, forall_eq_or_imp] at h
    obtain ⟨hok, hoks⟩ := h
    obtain ⟨log, hlog, hall, hfile⟩ :=
      txnLogAppendFsync_success call.io call.live.start call.live.limit hok
    obtain ⟨htail, htails⟩ := ih _ hoks
    have htxn : call.txn = some ⟨call.live, log⟩ := by rw [AppendCall.txn, hlog]; rfl
    have hrun : (call.run file).2.getD []
        = file.getD [] ++ frameBytes call.live.start call.live.limit log := hfile
    simp only [runAppends]
    rw [List.filterMap_cons_some htxn, List.flatMap_cons]
    refine ⟨?_, ?_⟩
    · rw [htail, hrun, List.append_assoc]
      rfl
    · intro txn hmem
      rcases List.mem_cons.mp hmem with rfl | hmem
      · exact hall
      · exact htails txn hmem

/-- A frame is never empty, so a log of frames is at least as long as their number. -/
theorem length_le_frames (txns : List CommittedTxn) :
    txns.length ≤ (txns.flatMap CommittedTxn.frame).length := by
  induction txns with
  | nil => exact Nat.le_refl 0
  | cons txn txns ih =>
    have hframe := frameBytes_length txn.live.start txn.live.limit txn.log
    rw [List.flatMap_cons, List.length_append, List.length_cons, CommittedTxn.frame, hframe]
    omega

/-- Replaying a whole file of frames applies them all. -/
theorem txnLogReplay_frames (heapStart heapUsed : Nat) (txns : List CommittedTxn)
    (s : ReplayHeap) :
    txnLogReplay heapStart heapUsed (some (txns.flatMap CommittedTxn.frame)) s
      = applyFrames (fun txn => replayEntries heapStart heapUsed (CommittedTxn.body txn)) txns s := by
  have hlen := length_le_frames txns
  have hall := replayFrames_take committedTxnCodec (replayEntries heapStart heapUsed) txns
    (txns.flatMap CommittedTxn.frame).length ((txns.flatMap CommittedTxn.frame).length + 1) s
    (by omega)
  rw [List.take_length, wholeFrames_of_length_le _ _ (Nat.le_refl _)] at hall
  rw [txnLogReplay_eq _ _ _ s (Nat.lt_succ_self _), hall]

/-- Replaying a cut file of frames installs the transactions wholly before the cut. -/
theorem txnLogReplay_take (restored : HeapRange) (txns : List CommittedTxn) (n : Nat)
    (h : ∀ txn ∈ wholeFrames CommittedTxn.frame n txns, txn.Restorable restored)
    (s : ReplayHeap) :
    txnLogReplay restored.start restored.used
        (some ((txns.flatMap CommittedTxn.frame).take n)) s
      = (true, (wholeFrames CommittedTxn.frame n txns).foldl
          (CommittedTxn.install restored.start) s) := by
  have hlen := length_le_frames txns
  have hfuel : ((txns.flatMap CommittedTxn.frame).take n).length
      < (txns.flatMap CommittedTxn.frame).length + 1 := by
    rw [List.length_take]
    omega
  rw [txnLogReplay_eq _ _ _ s hfuel,
      replayFrames_take committedTxnCodec _ txns n _ s (by omega)]
  exact applyFrames_restorable restored _ h s

/-! ## §3. The torn tail. -/

/-- **Torn tail.**  Whatever calls succeed on a fresh path and wherever the file
is cut, the replay succeeds and installs exactly the transactions whose frames
lie wholly before the cut: a prefix of the committed ones. -/
theorem txnLogReplay_tornTail (restored : HeapRange) (calls : List AppendCall)
    (hok : ∀ ok ∈ (runAppends calls none).1, ok = true)
    (hrange : ∀ txn ∈ calls.filterMap AppendCall.txn, ∀ e ∈ txn.log.entries,
      Restorable txn.live restored e)
    (n : Nat) (s : ReplayHeap) :
    txnLogReplay restored.start restored.used ((runAppends calls none).2.map (List.take n)) s
        = (true, (wholeFrames CommittedTxn.frame n (calls.filterMap AppendCall.txn)).foldl
            (CommittedTxn.install restored.start) s) ∧
      wholeFrames CommittedTxn.frame n (calls.filterMap AppendCall.txn)
        <+: calls.filterMap AppendCall.txn := by
  obtain ⟨hfile, hall⟩ := runAppends_success calls none hok
  have hfront := wholeFrames_prefix CommittedTxn.frame n (calls.filterMap AppendCall.txn)
  refine ⟨?_, hfront⟩
  have hcut : ((runAppends calls none).2.map (List.take n)).getD []
      = ((calls.filterMap AppendCall.txn).flatMap CommittedTxn.frame).take n := by
    rw [Option.getD_none, List.nil_append] at hfile
    rw [← hfile]
    cases (runAppends calls none).2 with
    | none => exact (List.take_nil).symm
    | some file => rfl
  rw [txnLogReplay_getD, hcut]
  exact txnLogReplay_take restored _ n
    (fun txn ht => ⟨hall txn (hfront.subset ht), hrange txn (hfront.subset ht)⟩) s

/-- A one-page heap range. -/
def samplePage : HeapRange where
  start := 4096
  limit := 8192
  nonNull := by decide
  aligned := by decide
  ordered := by decide
  inMemory := by decide

theorem sampleEntries_inMemory : 24 * [(⟨4104, 0, 5⟩ : LogEntry)].length + 8 < 2 ^ 64 := by
  decide

/-- One committed word write of a small integer. -/
def sampleCall : AppendCall where
  io := { opens := true, mallocs := true, writes := [.wrote 5, .interrupted], fsyncs := true }
  live := samplePage
  log := some { entries := [⟨4104, 0, 5⟩], inMemory := sampleEntries_inMemory }

/-- A zero-filled heap without page tables. -/
def zeroHeap : ReplayHeap := { mem := fun _ => 0, oms := [] }

/-- Two committed frames cut thirty bytes into the second. -/
theorem tornTail_sample :
    txnLogReplay samplePage.start samplePage.used
        ((runAppends [sampleCall, sampleCall] none).2.map (List.take 78)) zeroHeap
      = (true, (wholeFrames CommittedTxn.frame 78
          ([sampleCall, sampleCall].filterMap AppendCall.txn)).foldl
            (CommittedTxn.install samplePage.start) zeroHeap) := by
  refine (txnLogReplay_tornTail samplePage [sampleCall, sampleCall] (by decide) ?_ 78 zeroHeap).1
  intro txn ht e he
  have htxn : txn = ⟨samplePage, { entries := [⟨4104, 0, 5⟩], inMemory := by decide }⟩ := by
    simpa [sampleCall, AppendCall.txn] using ht
  subst htxn
  have hentry : e = ⟨4104, 0, 5⟩ := by simpa using he
  subst hentry
  exact ⟨by decide, fun hptr _ => absurd hptr (by decide)⟩

end LivingObjects.Journal
