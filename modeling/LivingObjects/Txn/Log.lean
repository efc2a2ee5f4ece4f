/-
  LivingObjects.Txn.Log — the in-memory transaction log.

  The four routines of `txn.s` over the words of a log buffer, numbered from the
  buffer's start: a count, then the triples.  `HoldsLog` ties the words to the list
  of entries; each routine does to the list what its name says, whatever the size
  of the buffer is meant to be.
-/
import Mathlib
import LivingObjects.Journal.Append
import LivingObjects.Lib.Segment

namespace LivingObjects.Txn

open LivingObjects.Lib
open LivingObjects.VM
open LivingObjects.Journal

/-! ## §1. The routines. -/

/-- The words of a log buffer and of what lies behind it. -/
abbrev LogWords := Nat → UInt64

/-- The word of the object of a triple; the other two follow. -/
def tripleAt (i : Nat) : Nat := 1 + 3 * i

/-- The words `txn_log_write` stores to. -/
def txnLogWriteOffsets (w : LogWords) : List Nat :=
  let count := (w 0).toNat
  [tripleAt count, tripleAt count + 1, tripleAt count + 2, 0]

/-- `txn_log_write`. -/
def txnLogWrite (w : LogWords) (e : LogEntry) : LogWords :=
  let count := (w 0).toNat
  let w := Function.update w (tripleAt count) e.object
  let w := Function.update w (tripleAt count + 1) e.fieldIndex
  let w := Function.update w (tripleAt count + 2) e.value
  Function.update w 0 (UInt64.ofNat (count + 1))

/-- The triple at a position. -/
def entryAt (w : LogWords) (i : Nat) : LogEntry :=
  ⟨w (tripleAt i), w (tripleAt i + 1), w (tripleAt i + 2)⟩

/-- The loop of `txn_log_read`, over the first triples, from the last one back. -/
def txnLogReadLoop (w : LogWords) (object : Oop) (fieldIndex : UInt64) : Nat → Option Oop
  | 0 => none
  | i + 1 =>
    let e := entryAt w i
    if e.object = object ∧ e.fieldIndex = fieldIndex then some e.value
    else txnLogReadLoop w object fieldIndex i

/-- `txn_log_read`; `none` is `*found = 0`. -/
def txnLogRead (w : LogWords) (object : Oop) (fieldIndex : UInt64) : Option Oop :=
  txnLogReadLoop w object fieldIndex (w 0).toNat

/-- The loop of `txn_commit`. -/
def txnCommitLoop (w : LogWords) : Nat → Nat → Mem → Mem
  | 0, _, m => m
  | left + 1, i, m => txnCommitLoop w left (i + 1) (commitEntry m (entryAt w i))

/-- `txn_abort`. -/
def txnAbort (w : LogWords) : LogWords := Function.update w 0 0

/-- `txn_commit` (and `txn_commit_durable`): the heap and the cleared log. -/
def txnCommitWords (w : LogWords) (m : Mem) : Mem × LogWords :=
  (txnCommitLoop w (w 0).toNat 0 m, txnAbort w)

/-! ## §2. Lists of entries. -/

/-- The words of a triple. -/
def tripleWords (e : LogEntry) : List UInt64 := [e.object, e.fieldIndex, e.value]

/-- The words hold this log. -/
structure HoldsLog (w : LogWords) (entries : List LogEntry) : Prop where
  count : w 0 = UInt64.ofNat entries.length
  triples : Holds w 1 (entries.flatMap tripleWords)
  inMemory : entries.length < 2 ^ 64

/-- The last entry for a field. -/
def readEntry (entries : List LogEntry) (object : Oop) (fieldIndex : UInt64) : Option Oop :=
  (entries.reverse.find? (fun e => e.object = object ∧ e.fieldIndex = fieldIndex)).map
    LogEntry.value

theorem readEntry_append (entries : List LogEntry) (e : LogEntry) (object : Oop)
    (fieldIndex : UInt64) :
    readEntry (entries ++ [e]) object fieldIndex
      = if e.object = object ∧ e.fieldIndex = fieldIndex then some e.value
        else readEntry entries object fieldIndex := by
  unfold readEntry
  rw [List.reverse_append, List.reverse_singleton, List.singleton_append, List.find?_cons]
  by_cases hmatch : e.object = object ∧ e.fieldIndex = fieldIndex
  · rw [if_pos hmatch]
    simp [hmatch]
  · rw [if_neg hmatch]
    simp [hmatch]

theorem flatMap_tripleWords_length (entries : List LogEntry) :
    (entries.flatMap tripleWords).length = 3 * entries.length := by
  induction entries with
  | nil => rfl
  | cons e es ih =>
    rw [List.flatMap_cons, List.length_append, ih, List.length_cons]
    simp only [tripleWords, List.length_cons, List.length_nil]
    omega

theorem HoldsLog.count_toNat {w : LogWords} {entries : List LogEntry} (h : HoldsLog w entries) :
    (w 0).toNat = entries.length := by
  rw [h.count]
  exact toNat_ofNat64 h.inMemory

/-- The triples are the entries. -/
theorem Holds.entryAt {w : LogWords} {entries rest : List LogEntry} {e : LogEntry}
    (h : Holds w 1 ((entries ++ e :: rest).flatMap tripleWords)) :
    entryAt w entries.length = e := by
  rw [List.flatMap_append, holds_append, flatMap_tripleWords_length, List.flatMap_cons,
    holds_append] at h
  obtain ⟨hobject, hfield, hvalue, -⟩ := h.2.1
  unfold Txn.entryAt tripleAt
  rw [hobject, hfield, hvalue]

/-- An empty log, whatever stands behind its count. -/
theorem txnAbort_holds (w : LogWords) : HoldsLog (txnAbort w) [] where
  count := Function.update_self 0 0 w
  triples := trivial
  inMemory := by simp

/-- `txn_log_write` appends an entry. -/
theorem HoldsLog.write {w : LogWords} {entries : List LogEntry} (h : HoldsLog w entries)
    (e : LogEntry) (hroom : entries.length + 1 < 2 ^ 64) :
    HoldsLog (txnLogWrite w e) (entries ++ [e]) := by
  have hcount := h.count_toNat
  have hlength := flatMap_tripleWords_length entries
  constructor
  · rw [txnLogWrite, Function.update_self, hcount, List.length_append, List.length_singleton]
  · rw [List.flatMap_append, List.flatMap_singleton, holds_append, hlength]
    unfold txnLogWrite
    simp only [hcount, tripleAt]
    constructor
    · refine ((h.triples.update_out _ ?_).update_out _ ?_).update_out _ ?_ |>.update_out _ ?_ <;>
        omega
    · refine ⟨?_, ?_, ?_, trivial⟩
      · rw [Function.update_of_ne (by omega), Function.update_of_ne (by omega),
          Function.update_of_ne (by omega), Function.update_self]
      · rw [Function.update_of_ne (by omega), Function.update_of_ne (by omega),
          Function.update_self]
      · rw [Function.update_of_ne (by omega), Function.update_self]
  · rw [List.length_append, List.length_singleton]
    exact hroom

theorem txnLogReadLoop_eq {w : LogWords} (object : Oop) (fieldIndex : UInt64)
    (entries : List LogEntry) {rest : List LogEntry}
    (h : Holds w 1 ((entries ++ rest).flatMap tripleWords)) :
    txnLogReadLoop w object fieldIndex entries.length = readEntry entries object fieldIndex := by
  induction entries using List.reverseRecOn generalizing rest with
  | nil => rfl
  | append_singleton es e ih =>
    rw [List.append_assoc, List.singleton_append] at h
    rw [List.length_append, List.length_singleton, txnLogReadLoop, Holds.entryAt h,
      readEntry_append, ih h]

/-- `txn_log_read` finds the last entry for the field. -/
theorem HoldsLog.read {w : LogWords} {entries : List LogEntry} (h : HoldsLog w entries)
    (object : Oop) (fieldIndex : UInt64) :
    txnLogRead w object fieldIndex = readEntry entries object fieldIndex := by
  have htriples := h.triples
  rw [← List.append_nil entries] at htriples
  rw [txnLogRead, h.count_toNat]
  exact txnLogReadLoop_eq object fieldIndex entries htriples

theorem txnCommitLoop_eq {w : LogWords} (rest before : List LogEntry) (m : Mem)
    (h : Holds w 1 ((before ++ rest).flatMap tripleWords)) :
    txnCommitLoop w rest.length before.length m = rest.foldl commitEntry m := by
  induction rest generalizing before m with
  | nil => rfl
  | cons e es ih =>
    have hnext := ih (before ++ [e]) (commitEntry m e)
      (by rw [List.append_assoc, List.singleton_append]; exact h)
    rw [List.length_append, List.length_singleton] at hnext
    rw [List.length_cons, txnCommitLoop, Holds.entryAt h, List.foldl_cons, hnext]

/-- `txn_commit` installs the entries in order and empties the log. -/
theorem HoldsLog.commit {w : LogWords} {entries : List LogEntry} (h : HoldsLog w entries)
    (m : Mem) :
    (txnCommitWords w m).1 = entries.foldl commitEntry m ∧
      HoldsLog (txnCommitWords w m).2 [] := by
  refine ⟨?_, txnAbort_holds w⟩
  rw [txnCommitWords, h.count_toNat]
  exact txnCommitLoop_eq entries [] m h.triples

end LivingObjects.Txn
