/-
  LivingObjects.Txn.Nesting — one log for a whole nesting of transactions.

  The outermost transaction primitive has the log buffer as a local; the blocks
  inside it, whatever their kind, write to the same log and leave it to the
  outermost one.  What becomes of their writes is decided there, and the count that
  must fit the buffer is that of all of them together.

  Main results:
    * `txnLogWrite_inside_iff` — the log stays inside its buffer exactly when no
      outermost transaction makes more writes than the buffer has entries;
    * `outermost_decides` — the kind of the outermost block decides about every write.
-/
import LivingObjects.Txn.Log
import LivingObjects.Interp.Control

namespace LivingObjects.Txn

open LivingObjects.Lib
open LivingObjects.VM
open LivingObjects.Journal
open LivingObjects.Interp (TransactionKind)

/-! ## §1. The buffer. -/

/-- `TRANSACTION_LOG_ENTRY_CAPACITY`. -/
def transactionLogEntryCapacity : Nat := 64

/-- `TRANSACTION_LOG_WORD_CAPACITY`. -/
def transactionLogWordCapacity : Nat := 1 + transactionLogEntryCapacity * 3

/-- What a program does with its log. -/
inductive LogAct where
  /-- A transaction primitive calls its block. -/
  | enter
  /-- The innermost transaction's block returns. -/
  | leave
  /-- A signal leaves every transaction. -/
  | signal
  /-- An instance-variable store or an `at:put:` that has passed its checks. -/
  | write (e : LogEntry)
  deriving DecidableEq, Repr

/-- The running transactions and the words at the place of the buffer. -/
structure LogState where
  depth : Nat
  words : LogWords

/-- The `memset` of `try_transaction_primitive`. -/
def clearBuffer (w : LogWords) : LogWords :=
  fun i => if i < transactionLogWordCapacity then 0 else w i

/-- What an act does to the log.  A write outside a transaction goes to the heap. -/
def LogAct.step (s : LogState) : LogAct → LogState
  | .enter =>
    if s.depth = 0 then { depth := 1, words := clearBuffer s.words }
    else { s with depth := s.depth + 1 }
  | .leave =>
    if s.depth = 1 then { depth := 0, words := txnAbort s.words }
    else { s with depth := s.depth - 1 }
  | .signal => if s.depth = 0 then s else { depth := 0, words := txnAbort s.words }
  | .write e => if s.depth = 0 then s else { s with words := txnLogWrite s.words e }

/-- The offsets an act's `txn_log_write` stores to. -/
def LogAct.offsets (s : LogState) : LogAct → List Nat
  | .write _ => if s.depth = 0 then [] else txnLogWriteOffsets s.words
  | _ => []

/-- The offsets all `txn_log_write` of a run store to. -/
def writtenOffsets : List LogAct → LogState → List Nat
  | [], _ => []
  | a :: acts, s => a.offsets s ++ writtenOffsets acts (a.step s)

/-- At each write inside a transaction fewer writes than the buffer has entries have
been made since the outermost one was entered; `depth` transactions are running and
`n` writes have been made. -/
def FitsLog : List LogAct → Nat → Nat → Prop
  | [], _, _ => True
  | .enter :: acts, depth, n =>
    if depth = 0 then FitsLog acts 1 0 else FitsLog acts (depth + 1) n
  | .leave :: acts, depth, n => FitsLog acts (depth - 1) n
  | .signal :: acts, _, _ => FitsLog acts 0 0
  | .write _ :: acts, depth, n =>
    if depth = 0 then FitsLog acts depth n
    else n < transactionLogEntryCapacity ∧ FitsLog acts depth (n + 1)

instance decidableFitsLog : (acts : List LogAct) → (depth n : Nat) → Decidable (FitsLog acts depth n)
  | [], _, _ => .isTrue trivial
  | .enter :: acts, depth, n =>
    have := decidableFitsLog acts 1 0
    have := decidableFitsLog acts (depth + 1) n
    inferInstanceAs (Decidable (if depth = 0 then _ else _))
  | .leave :: acts, depth, n => decidableFitsLog acts (depth - 1) n
  | .signal :: acts, _, _ => decidableFitsLog acts 0 0
  | .write _ :: acts, depth, n =>
    have := decidableFitsLog acts depth n
    have := decidableFitsLog acts depth (n + 1)
    inferInstanceAs (Decidable (if depth = 0 then _ else _ ∧ _))

/-- One write with `n` entries in the log: it stays inside, or `n` is the capacity. -/
theorem txnLogWriteOffsets_inside_iff {w : LogWords} {n : Nat} (hcount : w 0 = UInt64.ofNat n)
    (hn : n ≤ transactionLogEntryCapacity) :
    (∀ o ∈ txnLogWriteOffsets w, o < transactionLogWordCapacity)
      ↔ n < transactionLogEntryCapacity := by
  unfold transactionLogEntryCapacity at hn
  have hword : (w 0).toNat = n := by
    rw [hcount]
    exact toNat_ofNat64 (by omega)
  unfold txnLogWriteOffsets transactionLogWordCapacity transactionLogEntryCapacity tripleAt
  simp only [hword, List.mem_cons, List.not_mem_nil, or_false, forall_eq_or_imp, forall_eq]
  omega

/-- **The log stays inside its buffer exactly when the writes fit it.** -/
theorem writtenOffsets_inside_iff (acts : List LogAct) (s : LogState) (n : Nat)
    (hn : n ≤ transactionLogEntryCapacity)
    (hcount : s.depth ≠ 0 → s.words 0 = UInt64.ofNat n) :
    (∀ o ∈ writtenOffsets acts s, o < transactionLogWordCapacity) ↔ FitsLog acts s.depth n := by
  induction acts generalizing s n with
  | nil => simp [writtenOffsets, FitsLog]
  | cons a acts ih =>
    cases a with
    | enter =>
      show (∀ o ∈ writtenOffsets acts (LogAct.step s .enter), o < _) ↔ _
      by_cases hdepth : s.depth = 0
      · simp only [LogAct.step, FitsLog, if_pos hdepth]
        exact ih ⟨1, clearBuffer s.words⟩ 0 (Nat.zero_le _) (fun _ => rfl)
      · simp only [LogAct.step, FitsLog, if_neg hdepth]
        exact ih ⟨s.depth + 1, s.words⟩ n hn (fun _ => hcount hdepth)
    | leave =>
      show (∀ o ∈ writtenOffsets acts (LogAct.step s .leave), o < _) ↔ _
      by_cases hdepth : s.depth = 1
      · simp only [LogAct.step, FitsLog, if_pos hdepth]
        rw [ih ⟨0, txnAbort s.words⟩ n hn (fun h => absurd rfl h), hdepth]
      · simp only [LogAct.step, FitsLog, if_neg hdepth]
        refine ih ⟨s.depth - 1, s.words⟩ n hn (fun h => hcount ?_)
        replace h : s.depth - 1 ≠ 0 := h
        omega
    | signal =>
      show (∀ o ∈ writtenOffsets acts (LogAct.step s .signal), o < _) ↔ _
      by_cases hdepth : s.depth = 0
      · simp only [LogAct.step, FitsLog, if_pos hdepth]
        rw [ih s 0 (Nat.zero_le _) (fun h => absurd hdepth h), hdepth]
      · simp only [LogAct.step, FitsLog, if_neg hdepth]
        exact ih ⟨0, txnAbort s.words⟩ 0 (Nat.zero_le _) (fun h => absurd rfl h)
    | write e =>
      by_cases hdepth : s.depth = 0
      · simp only [writtenOffsets, LogAct.offsets, LogAct.step, FitsLog, if_pos hdepth,
          List.nil_append]
        exact ih s n hn hcount
      · have hwords := hcount hdepth
        simp only [writtenOffsets, LogAct.offsets, LogAct.step, FitsLog, if_neg hdepth,
          List.mem_append, or_imp, forall_and]
        rw [txnLogWriteOffsets_inside_iff hwords hn]
        -- once the buffer is full the first side is already false
        refine and_congr_right (fun hroom => ih ⟨s.depth, txnLogWrite s.words e⟩ (n + 1) hroom ?_)
        intro _
        have hcount' : (s.words 0).toNat = n := by
          unfold transactionLogEntryCapacity at hn
          rw [hwords]
          exact toNat_ofNat64 (by omega)
        show txnLogWrite s.words e 0 = _
        rw [txnLogWrite, Function.update_self, hcount']

/-- Every write of a run lies inside the log buffer. -/
def LogInside (acts : List LogAct) (w : LogWords) : Prop :=
  ∀ o ∈ writtenOffsets acts ⟨0, w⟩, o < transactionLogWordCapacity

/-- **From a program outside any transaction on, every word `txn_log_write` stores lies
inside the log buffer exactly when no outermost transaction makes more writes, in all
the transactions inside it, than the buffer has entries.** -/
theorem txnLogWrite_inside_iff (acts : List LogAct) (w : LogWords) :
    LogInside acts w ↔ FitsLog acts 0 0 :=
  writtenOffsets_inside_iff acts ⟨0, w⟩ 0 (Nat.zero_le _) (fun h => absurd rfl h)

/-- A transaction with this many writes. -/
def manyWrites (n : Nat) : List LogAct :=
  .enter :: List.replicate n (.write ⟨65536, 0, 5⟩) ++ [.leave]

/-- The 65th write of a transaction stores behind the buffer. -/
theorem sixtyFifthWrite_outside :
    ¬ LogInside (manyWrites 65) (fun _ => 0) ∧
      193 ∈ writtenOffsets (manyWrites 65) ⟨0, fun _ => 0⟩ := by
  have hmem : 193 ∈ writtenOffsets (manyWrites 65) ⟨0, fun _ => 0⟩ := by decide +kernel
  exact ⟨fun hinside => absurd (hinside 193 hmem) (by decide), hmem⟩

/-! ## §2. The modes. -/

/-- The body of a block: writes and transaction blocks, one after the other; `io` is
what the system does should the block append to the journal. -/
inductive Body where
  | done
  | write (e : LogEntry) (rest : Body)
  | block (kind : TransactionKind) (io : AppendIo) (body rest : Body)

/-- The heap and the journal. -/
structure Data where
  mem : Mem
  file : Option (List UInt8)

section Modes

/- The bounds the append is given. -/
variable (heapStart heapLimit : Nat)

/-- The end of `try_transaction_primitive` for a transaction with a log of its own, the
block having returned; `none` is the trap after a failed append. -/
def endTransaction (kind : TransactionKind) (io : AppendIo) (log : List LogEntry) (d : Data) :
    Option Data :=
  match kind with
  | .readOnly => some d
  | .atomic => some { d with mem := log.foldl commitEntry d.mem }
  | .durable =>
    if hmem : 24 * log.length + 8 < 2 ^ 64 then
      match txnLogAppendFsync io heapStart heapLimit (some ⟨log, hmem⟩) d.file with
      | (true, file) => some { mem := log.foldl commitEntry d.mem, file := file }
      | (false, _) => none
    else none

/-- Run a body that completes normally; `log` is the active log. -/
def Body.run : Body → Option (List LogEntry) → Data → Option (Option (List LogEntry) × Data)
  | .done, log, d => some (log, d)
  | .write e rest, some log, d => rest.run (some (log ++ [e])) d
  | .write e rest, none, d => rest.run none { d with mem := commitEntry d.mem e }
  | .block _ _ body rest, some log, d => do
    -- the active log is handed on, and nothing is done at the end of the block
    let (log, d) ← body.run (some log) d
    rest.run log d
  | .block kind io body rest, none, d => do
    let (log, d) ← body.run (some []) d
    let d ← endTransaction heapStart heapLimit kind io (log.getD []) d
    rest.run none d

/-- All writes of a body, whatever blocks they are made in. -/
def Body.writes : Body → List LogEntry
  | .done => []
  | .write e rest => e :: rest.writes
  | .block _ _ body rest => body.writes ++ rest.writes

/-- Inside a transaction a body only adds its writes to the log. -/
theorem Body.run_active (b : Body) (log : List LogEntry) (d : Data) :
    b.run heapStart heapLimit (some log) d = some (some (log ++ b.writes), d) := by
  induction b generalizing log with
  | done => rw [run, writes, List.append_nil]
  | write e rest ih =>
    rw [run, ih, writes, List.append_assoc]
    rfl
  | block kind io body rest ihbody ihrest =>
    simp only [run, ihbody, Option.bind_eq_bind, Option.bind_some, ihrest, writes,
      List.append_assoc]

/-- What an outermost transaction with these writes leaves. -/
def OutermostResult (kind : TransactionKind) (writes : List LogEntry) (d d' : Data) : Prop :=
  match kind with
  | .readOnly => d' = d
  | .atomic => d' = { d with mem := writes.foldl commitEntry d.mem }
  | .durable => d'.mem = writes.foldl commitEntry d.mem ∧
      ∃ hmem, d'.file.getD [] = d.file.getD [] ++ frameBytes heapStart heapLimit ⟨writes, hmem⟩

/-- The end of a transaction that completes. -/
theorem endTransaction_result {kind : TransactionKind} {io : AppendIo} {log : List LogEntry}
    {d d' : Data} (h : endTransaction heapStart heapLimit kind io log d = some d') :
    OutermostResult heapStart heapLimit kind log d d' := by
  cases kind with
  | readOnly => exact (Option.some.inj h).symm
  | atomic => exact (Option.some.inj h).symm
  | durable =>
    unfold endTransaction at h
    simp only at h
    split at h
    · next hmem =>
      split at h
      · next file happend =>
        obtain rfl := Option.some.inj h
        have hok : (txnLogAppendFsync io heapStart heapLimit (some ⟨log, hmem⟩) d.file).1
            = true := by rw [happend]
        obtain ⟨l, hl, -, hfile⟩ := txnLogAppendFsync_success io heapStart heapLimit hok
        obtain rfl := Option.some.inj hl
        rw [happend] at hfile
        exact ⟨rfl, hmem, hfile⟩
      · cases h
    · cases h

/-- **The outermost block decides**: it joins the writes of every block inside it to its
own, and installs and journals all of them or none, as its kind says. -/
theorem outermost_decides (kind : TransactionKind) (io : AppendIo) (body rest : Body)
    (d : Data) (r : Option (List LogEntry) × Data)
    (h : (Body.block kind io body rest).run heapStart heapLimit none d = some r) :
    ∃ d', OutermostResult heapStart heapLimit kind body.writes d d' ∧
      rest.run heapStart heapLimit none d' = some r := by
  simp only [Body.run, Body.run_active, Option.bind_eq_bind, Option.bind_some, Option.getD_some,
    List.nil_append] at h
  obtain ⟨d', hend, hrest⟩ := Option.bind_eq_some_iff.mp h
  exact ⟨d', endTransaction_result heapStart heapLimit hend, hrest⟩

end Modes

/-- The system does what it is asked. -/
def obligingIo : AppendIo := { opens := true, mallocs := true, writes := [], fsyncs := true }

/-- A heap of zeros and no journal. -/
def blankData : Data := { mem := fun _ => 0, file := none }

/-- A write of 1 to the first field of the object at 65536. -/
def storeOneEntry : LogEntry := ⟨65536, 0, 5⟩

/-- `Transaction durable: [obj x: 1. Transaction readOnly: [obj x: 1]]`. -/
theorem durableOutermost_decides :
    ∃ d', OutermostResult 65536 131072 .durable [storeOneEntry, storeOneEntry] blankData d' ∧
      Body.done.run 65536 131072 none d'
        = (Body.block .durable obligingIo
            (.write storeOneEntry (.block .readOnly obligingIo (.write storeOneEntry .done) .done))
            .done).run 65536 131072 none blankData := by
  obtain ⟨r, hr⟩ : ∃ r, (Body.block .durable obligingIo
      (.write storeOneEntry (.block .readOnly obligingIo (.write storeOneEntry .done) .done))
      .done).run 65536 131072 none blankData = some r :=
    Option.isSome_iff_exists.mp (by decide +kernel)
  rw [hr]
  exact outermost_decides 65536 131072 .durable obligingIo
    (.write storeOneEntry (.block .readOnly obligingIo (.write storeOneEntry .done) .done)) .done
    blankData r hr

/-- `Transaction atomic: [Transaction readOnly: [obj x: 1]]` installs the write, and with
`durable:` inside, nothing is in the journal. -/
theorem innerModes_ignored :
    (∃ d', (Body.block .atomic obligingIo
          (.block .readOnly obligingIo (.write storeOneEntry .done) .done) .done).run
            65536 131072 none blankData = some (none, d') ∧
        objField blankData.mem 65536 0 = 0 ∧ objField d'.mem 65536 0 = 5) ∧
      ∃ d', (Body.block .atomic obligingIo
          (.block .durable obligingIo (.write storeOneEntry .done) .done) .done).run
            65536 131072 none blankData = some (none, d') ∧
        objField d'.mem 65536 0 = 5 ∧ d'.file = none :=
  ⟨⟨_, rfl, by decide +kernel, by decide +kernel⟩, ⟨_, rfl, by decide +kernel, rfl⟩⟩

end LivingObjects.Txn
