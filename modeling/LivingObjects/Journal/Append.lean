/-
  LivingObjects.Journal.Append — the durable log: one append.

  The writing half of the durable log in `primitives.c`.  A transaction log is
  a list of (object, field index, value) triples; an append encodes it
  position-independently as one frame

      magic, count, checksum, then count triples

  and writes the frame to the end of the log file.  Everything the operating
  system decides during a call (whether `open`, `malloc` and `fsync` succeed,
  how much each `write` takes) is an `AppendIo`, so that a call is a function.

  Main results:
    * `txnLogAppendFsync_spec` — what a call leaves in the file, and when it succeeds;
    * `txnLogAppendFsync_success` — a successful call appends exactly its frame.
-/
import LivingObjects.VM.Object
import LivingObjects.Lib.Fnv

namespace LivingObjects.Journal

open LivingObjects.Lib
open LivingObjects.VM

/-! ## §1. Transaction logs. -/

/-- One logged write. -/
structure LogEntry where
  object : Oop
  fieldIndex : UInt64
  value : Oop
  deriving DecidableEq, Repr

/-- An in-memory transaction log: a count word and the triples.  The array lies
in memory, so its byte count is a word. -/
structure TxnLog where
  entries : List LogEntry
  inMemory : 24 * entries.length + 8 < 2 ^ 64

/-- The bit of a field index that marks a byte write. -/
def byteFieldMarker : UInt64 := 0x8000000000000000

/-- One triple of `txn_commit`: store the value in the object. -/
def commitEntry (m : Mem) (e : LogEntry) : Mem :=
  if e.fieldIndex >>> 63 ≠ 0 then
    store8 m (wrap64 (objFieldAddr e.object.toNat 0 + (e.fieldIndex &&& ~~~byteFieldMarker).toNat))
      (untagSmallintByte e.value)
  else
    store64 m (wrap64 (objFieldAddr e.object.toNat e.fieldIndex.toNat)) e.value

/-- `txn_commit` (and `txn_commit_durable`) on the heap. -/
def txnCommit (m : Mem) (log : TxnLog) : Mem :=
  log.entries.foldl commitEntry m

/-! ## §2. Frames. -/

/-- `DURABLE_TXN_FRAME_MAGIC`. -/
def durableTxnFrameMagic : UInt64 := 0x41524c4f54584e31

/-- `encode_durable_log_value`. -/
def encodeDurableLogValue (value : Oop) (heapStart heapLimit : Nat) : UInt64 :=
  if isObjectPtr value ∧ heapStart ≤ value.toNat ∧ value.toNat < heapLimit then
    UInt64.ofNat (value.toNat - heapStart + 8)
  else value

/-- `decode_durable_log_value`. -/
def decodeDurableLogValue (value : UInt64) (heapStart heapUsed : Nat) : Oop :=
  if isObjectPtr value ∧ 8 ≤ value.toNat ∧ value.toNat ≤ heapUsed then
    UInt64.ofNat (heapStart + (value.toNat - 8))
  else value

/-- `durable_txn_checksum`. -/
def durableTxnChecksum (words : List UInt64) : UInt64 :=
  fnvFold fnvOffset words

/-- The three body words of one entry. -/
def entryWords (heapStart heapLimit : Nat) (e : LogEntry) : List UInt64 :=
  [UInt64.ofNat (e.object.toNat - heapStart), e.fieldIndex,
    encodeDurableLogValue e.value heapStart heapLimit]

/-- The body of a frame. -/
def bodyWords (heapStart heapLimit : Nat) (log : TxnLog) : List UInt64 :=
  log.entries.flatMap (entryWords heapStart heapLimit)

/-- The header of a frame. -/
def headerWords (heapStart heapLimit : Nat) (log : TxnLog) : List UInt64 :=
  [durableTxnFrameMagic, UInt64.ofNat log.entries.length,
    durableTxnChecksum (bodyWords heapStart heapLimit log)]

/-- A whole frame as it stands in the file. -/
def frameBytes (heapStart heapLimit : Nat) (log : TxnLog) : List UInt8 :=
  wordsBytes (headerWords heapStart heapLimit log) ++ wordsBytes (bodyWords heapStart heapLimit log)

/-- The test the append makes of every entry's object. -/
def loggable (heapStart heapLimit : Nat) (e : LogEntry) : Bool :=
  isObjectPtr e.object && (heapStart ≤ e.object.toNat && e.object.toNat < heapLimit)

@[simp] theorem bodyWords_length (heapStart heapLimit : Nat) (log : TxnLog) :
    (bodyWords heapStart heapLimit log).length = 3 * log.entries.length := by
  unfold bodyWords
  induction log.entries with
  | nil => rfl
  | cons e es ih =>
    rw [List.flatMap_cons, List.length_append, ih, List.length_cons]
    simp only [entryWords, List.length_cons, List.length_nil]
    omega

@[simp] theorem headerBytes_length (heapStart heapLimit : Nat) (log : TxnLog) :
    (wordsBytes (headerWords heapStart heapLimit log)).length = 24 := by
  rw [wordsBytes_length]
  rfl

theorem frameBytes_length (heapStart heapLimit : Nat) (log : TxnLog) :
    (frameBytes heapStart heapLimit log).length = 24 + 24 * log.entries.length := by
  unfold frameBytes
  rw [List.length_append, headerBytes_length, wordsBytes_length, bodyWords_length]
  omega

/-! ## §3. Writing. -/

/-- What one call of `write` does. -/
inductive WriteOutcome where
  /-- It takes this many bytes. -/
  | wrote (n : Nat)
  /-- It is interrupted by a signal. -/
  | interrupted
  /-- It fails for good. -/
  | failed
  deriving DecidableEq, Repr

/-- What the operating system does during one append.  Once `writes` runs out,
`write` takes what it is given. -/
structure AppendIo where
  opens : Bool
  mallocs : Bool
  writes : List WriteOutcome
  fsyncs : Bool
  deriving DecidableEq, Repr

/-- `write_all`: the result, the file, and the outcomes that are left. -/
def writeAll : List WriteOutcome → List UInt8 → List UInt8 →
    Bool × List UInt8 × List WriteOutcome
  | outcomes, file, [] => (true, file, outcomes)
  | [], file, bytes => (true, file ++ bytes, [])
  | .interrupted :: outcomes, file, bytes => writeAll outcomes file bytes
  | .failed :: outcomes, file, _ => (false, file, outcomes)
  | .wrote n :: outcomes, file, bytes =>
    if n = 0 then (false, file, outcomes)
    else writeAll outcomes (file ++ bytes.take n) (bytes.drop n)

/-- `txn_log_append_fsync`: the result and the log file, `none` being an absent
file or a null log. -/
def txnLogAppendFsync (io : AppendIo) (heapStart heapLimit : Nat) (log : Option TxnLog)
    (file : Option (List UInt8)) : Bool × Option (List UInt8) :=
  match log with
  | none => (false, file)
  | some log =>
    if io.opens = false then (false, file)
    else
      let contents := file.getD []
      if io.mallocs = false ∧ log.entries ≠ [] then (false, some contents)
      else if log.entries.all (loggable heapStart heapLimit) = false then (false, some contents)
      else
        match writeAll io.writes contents (wordsBytes (headerWords heapStart heapLimit log)) with
        | (false, contents, _) => (false, some contents)
        | (true, contents, outcomes) =>
          if log.entries = [] then (io.fsyncs, some contents)
          else
            match writeAll outcomes contents (wordsBytes (bodyWords heapStart heapLimit log)) with
            | (false, contents, _) => (false, some contents)
            | (true, contents, _) => (io.fsyncs, some contents)

/-- The bytes of a buffer of this size that `write_all` gets written, and the
outcomes that are left. -/
def acceptedBytes : List WriteOutcome → Nat → Nat × List WriteOutcome
  | outcomes, 0 => (0, outcomes)
  | [], size => (size, [])
  | .interrupted :: outcomes, size => acceptedBytes outcomes size
  | .failed :: outcomes, _ => (0, outcomes)
  | .wrote n :: outcomes, size =>
    if n = 0 then (0, outcomes)
    else (min n size + (acceptedBytes outcomes (size - n)).1,
      (acceptedBytes outcomes (size - n)).2)

/-- `write_all` appends the bytes the system accepts and succeeds when these
are all. -/
theorem writeAll_eq (outcomes : List WriteOutcome) (file bytes : List UInt8) :
    writeAll outcomes file bytes
      = (decide ((acceptedBytes outcomes bytes.length).1 = bytes.length),
          file ++ bytes.take (acceptedBytes outcomes bytes.length).1,
          (acceptedBytes outcomes bytes.length).2) := by
  induction outcomes generalizing file bytes with
  | nil => cases bytes <;> simp [writeAll, acceptedBytes]
  | cons o outcomes ih =>
    cases bytes with
    | nil => simp [writeAll, acceptedBytes]
    | cons b bs =>
      cases o with
      | interrupted => exact ih file (b :: bs)
      | failed => simp [writeAll, acceptedBytes]
      | wrote n =>
        by_cases hn : n = 0
        · simp [writeAll, acceptedBytes, hn]
        · have hstep := ih (file ++ (b :: bs).take n) ((b :: bs).drop n)
          rw [List.length_drop] at hstep
          rw [writeAll, if_neg hn, hstep, List.length_cons, acceptedBytes, if_neg hn]
          · generalize (acceptedBytes outcomes (bs.length + 1 - n)) = rest
            simp only [Prod.mk.injEq, decide_eq_decide, and_true]
            refine ⟨by omega, ?_⟩
            rw [List.append_assoc, List.append_cancel_left_eq]
            rcases Nat.le_total n (bs.length + 1) with hle | hle
            · rw [Nat.min_eq_left hle, List.take_add]
            · rw [Nat.min_eq_right hle, List.drop_eq_nil_of_le (by simpa using hle),
                  List.take_nil, List.append_nil, List.take_of_length_le (by simpa using hle),
                  List.take_of_length_le (by simp)]
          · exact fun h => by simp at h
          · exact fun h => List.cons_ne_nil b bs h

/-! ## §4. What an append leaves in the file. -/

section Append

variable (io : AppendIo) (heapStart heapLimit : Nat)

/-- The bytes of its frame that a call gets written. -/
def appendedBytes (log : TxnLog) : Nat :=
  if io.opens = false then 0
  else if io.mallocs = false ∧ log.entries ≠ [] then 0
  else if log.entries.all (loggable heapStart heapLimit) = false then 0
  else
    let (written, outcomes) := acceptedBytes io.writes 24
    if written < 24 then written
    else 24 + (acceptedBytes outcomes (24 * log.entries.length)).1

theorem acceptedBytes_le (outcomes : List WriteOutcome) (size : Nat) :
    (acceptedBytes outcomes size).1 ≤ size := by
  induction outcomes generalizing size with
  | nil => cases size <;> simp [acceptedBytes]
  | cons o outcomes ih =>
    cases size with
    | zero => simp [acceptedBytes]
    | succ size =>
      cases o with
      | interrupted => exact ih (size + 1)
      | failed => exact Nat.zero_le _
      | wrote n =>
        have hrest := ih (size + 1 - n)
        rw [acceptedBytes]
        · split
          · exact Nat.zero_le _
          · simp only
            omega
        · omega

theorem appendedBytes_le (log : TxnLog) :
    appendedBytes io heapStart heapLimit log ≤ (frameBytes heapStart heapLimit log).length := by
  have hheader := acceptedBytes_le io.writes 24
  have hbody := acceptedBytes_le (acceptedBytes io.writes 24).2 (24 * log.entries.length)
  rw [frameBytes_length]
  unfold appendedBytes
  simp only
  repeat' split
  all_goals omega

/-- A call writes nothing unless every logged object lies in the heap. -/
theorem loggable_of_appendedBytes (log : TxnLog)
    (h : 0 < appendedBytes io heapStart heapLimit log) :
    log.entries.all (loggable heapStart heapLimit) = true := by
  unfold appendedBytes at h
  split at h
  · omega
  split at h
  · omega
  split at h
  · omega
  next hall => simpa only [Bool.not_eq_false] using hall

theorem frameBytes_take_header (log : TxnLog) {n : Nat} (hn : n ≤ 24) :
    (frameBytes heapStart heapLimit log).take n
      = (wordsBytes (headerWords heapStart heapLimit log)).take n := by
  unfold frameBytes
  exact List.take_append_of_le_length (by rw [headerBytes_length]; exact hn)

theorem frameBytes_take_body (log : TxnLog) (n : Nat) :
    (frameBytes heapStart heapLimit log).take (24 + n)
      = wordsBytes (headerWords heapStart heapLimit log)
        ++ (wordsBytes (bodyWords heapStart heapLimit log)).take n := by
  have h24 := headerBytes_length heapStart heapLimit log
  unfold frameBytes
  rw [List.take_append, h24, Nat.add_sub_cancel_left, List.take_of_length_le (by omega)]

/-- **One append**: the file grows by the part of the frame that gets written;
the call succeeds when that is all of it and `fsync` succeeds. -/
theorem txnLogAppendFsync_spec (log : TxnLog) (file : Option (List UInt8)) :
    (txnLogAppendFsync io heapStart heapLimit (some log) file).2.getD []
        = file.getD [] ++ (frameBytes heapStart heapLimit log).take
            (appendedBytes io heapStart heapLimit log) ∧
      ((txnLogAppendFsync io heapStart heapLimit (some log) file).1 = true ↔
        appendedBytes io heapStart heapLimit log = (frameBytes heapStart heapLimit log).length ∧
          io.fsyncs = true) := by
  have hlen := frameBytes_length heapStart heapLimit log
  have h24 := headerBytes_length heapStart heapLimit log
  have hbody : (wordsBytes (bodyWords heapStart heapLimit log)).length
      = 24 * log.entries.length := by
    rw [wordsBytes_length, bodyWords_length]
    omega
  have hle := acceptedBytes_le io.writes 24
  have hle' := acceptedBytes_le (acceptedBytes io.writes 24).2 (24 * log.entries.length)
  have hnone : ∀ contents : List UInt8, contents = file.getD [] →
      contents = file.getD [] ++ (frameBytes heapStart heapLimit log).take 0 ∧
        (false = true ↔ 0 = 24 + 24 * log.entries.length ∧ io.fsyncs = true) :=
    fun contents h => ⟨by rw [h, List.take_zero, List.append_nil],
      ⟨fun h => absurd h (by decide), fun h => by omega⟩⟩
  unfold txnLogAppendFsync appendedBytes
  simp only [writeAll_eq, h24, hbody, hlen]
  split
  · exact hnone _ rfl
  split
  · exact hnone _ rfl
  split
  · exact hnone _ rfl
  by_cases hheader : (acceptedBytes io.writes 24).1 = 24
  · -- the header is written: the entries follow, when there are any
    rw [if_neg (by omega), hheader, frameBytes_take_body, List.take_of_length_le (by omega)]
    simp only [decide_true]
    by_cases hnil : log.entries = []
    · have hbodynil : bodyWords heapStart heapLimit log = [] := by
        unfold bodyWords
        rw [hnil, List.flatMap_nil]
      have hzero : log.entries.length = 0 := by rw [hnil]; rfl
      rw [hzero] at hle'
      rw [if_pos hnil, hbodynil, hzero, wordsBytes_nil, List.take_nil, List.append_nil]
      exact ⟨rfl, ⟨fun h => ⟨by omega, h⟩, fun h => h.2⟩⟩
    · rw [if_neg hnil]
      by_cases hall : (acceptedBytes (acceptedBytes io.writes 24).2
          (24 * log.entries.length)).1 = 24 * log.entries.length
      · simp only [hall, decide_true, List.append_assoc, Option.getD_some, true_and]
      · simp only [hall, decide_false, List.append_assoc, Option.getD_some, true_and]
        exact ⟨fun h => absurd h (by decide), fun h => by omega⟩
  · -- the header is cut
    rw [if_pos (by omega), frameBytes_take_header heapStart heapLimit log hle]
    simp only [hheader, decide_false, Option.getD_some, true_and]
    exact ⟨fun h => absurd h (by decide), fun h => by omega⟩

/-- **A successful append** extends the file by exactly the frame. -/
theorem txnLogAppendFsync_success {log : Option TxnLog} {file : Option (List UInt8)}
    (h : (txnLogAppendFsync io heapStart heapLimit log file).1 = true) :
    ∃ l, log = some l ∧ l.entries.all (loggable heapStart heapLimit) = true ∧
      (txnLogAppendFsync io heapStart heapLimit log file).2.getD []
        = file.getD [] ++ frameBytes heapStart heapLimit l := by
  cases log with
  | none => exact absurd h (by simp [txnLogAppendFsync])
  | some l =>
    obtain ⟨hfile, hok⟩ := txnLogAppendFsync_spec io heapStart heapLimit l file
    obtain ⟨hwhole, -⟩ := hok.mp h
    have hlen := frameBytes_length heapStart heapLimit l
    refine ⟨l, rfl, loggable_of_appendedBytes io heapStart heapLimit l (by omega), ?_⟩
    rw [hfile, hwhole, List.take_length]

end Append

end LivingObjects.Journal
