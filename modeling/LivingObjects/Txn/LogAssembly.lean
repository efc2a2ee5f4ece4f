/-
  LivingObjects.Txn.LogAssembly — the transaction log in assembly.

  The routines of `txn.s` on the machine of `Lib.Assembly`, line by line, over a log buffer in
  the memory of the process.  Each does to the words of the buffer what `Txn.Log` says; a
  session of calls in any order does to memory what the list of entries says, as long as the
  buffer has room and no entry that is committed lies in the buffer itself.
-/
import LivingObjects.Lib.Assembly
import LivingObjects.Txn.Log
import LivingObjects.Txn.Overlay

namespace LivingObjects.Txn.LogAssembly

open LivingObjects.Lib
open LivingObjects.Lib.Assembly
open LivingObjects.Lib.AArch64 (subFlags)
open LivingObjects.VM
open LivingObjects.Journal

/-! ## §1. The code. -/

inductive Label where
  | txnLogWrite
  | txnLogRead
  | readLoop
  | readNext
  | readNotFound
  | txnCommit
  | commitLoop
  | commitByteWrite
  | commitNext
  | commitDone
  | txnCommitDurable
  | txnAbort
deriving DecidableEq, Repr

/-- `_txn_log_write`. -/
def txnLogWriteLines : Code Label :=
  [ .label .txnLogWrite,
    .ldr 4 0 0,
    .addShifted 5 4 4 1,
    .add 5 5 (.imm 1),
    .strAt 1 0 5,
    .add 5 5 (.imm 1),
    .strAt 2 0 5,
    .add 5 5 (.imm 1),
    .strAt 3 0 5,
    .add 4 4 (.imm 1),
    .str (.reg 4) 0 0,
    .ret ]

/-- `_txn_log_read`. -/
def txnLogReadLines : Code Label :=
  [ .label .txnLogRead,
    .ldr 4 0 0,
    .cbz 4 .readNotFound,
    .sub 5 4 (.imm 1),
    .label .readLoop,
    .addShifted 6 5 5 1,
    .add 6 6 (.imm 1),
    .ldrAt 7 0 6,
    .add 6 6 (.imm 1),
    .ldrAt 8 0 6,
    .cmp 7 (.reg 1),
    .bCond .ne .readNext,
    .cmp 8 (.reg 2),
    .bCond .ne .readNext,
    .add 6 6 (.imm 1),
    .ldrAt 0 0 6,
    .mov 9 (.imm 1),
    .str (.reg 9) 3 0,
    .ret,
    .label .readNext,
    .cbz 5 .readNotFound,
    .sub 5 5 (.imm 1),
    .b .readLoop,
    .label .readNotFound,
    .mov 0 (.imm 0),
    .str (.reg 0) 3 0,
    .ret ]

/-- `_txn_commit`. -/
def txnCommitLines : Code Label :=
  [ .label .txnCommit,
    .ldr 1 0 0,
    .cbz 1 .commitDone,
    .mov 2 (.imm 0),
    .label .commitLoop,
    .addShifted 3 2 2 1,
    .add 3 3 (.imm 1),
    .ldrAt 4 0 3,
    .add 3 3 (.imm 1),
    .ldrAt 5 0 3,
    .add 3 3 (.imm 1),
    .ldrAt 6 0 3,
    .tbnz 5 63 .commitByteWrite,
    .add 5 5 (.imm 3),
    .strAt 6 4 5,
    .b .commitNext,
    .label .commitByteWrite,
    .lsl 9 5 1,
    .lsr 9 9 1,
    .asr 10 6 2,
    .add 11 4 (.imm 24),
    .strbAt 10 11 9,
    .label .commitNext,
    .add 2 2 (.imm 1),
    .cmp 2 (.reg 1),
    .bCond .lt .commitLoop,
    .label .commitDone,
    .str xzr 0 0,
    .ret ]

/-- `txn.s`. -/
def txnCode : Code Label :=
  txnLogWriteLines ++ txnLogReadLines ++ txnCommitLines ++
    [ .label .txnCommitDurable,
      .b .txnCommit,
      .label .txnAbort,
      .str xzr 0 0,
      .ret ]

theorem txnLogWrite_lines : txnCode.from .txnLogWrite =
    txnLogWriteLines ++ txnCode.from .txnLogRead := rfl

theorem txnLogRead_lines : txnCode.from .txnLogRead =
    .label .txnLogRead :: .ldr 4 0 0 :: .cbz 4 .readNotFound :: .sub 5 4 (.imm 1) ::
      txnCode.from .readLoop := rfl

theorem readLoop_lines : txnCode.from .readLoop =
    .label .readLoop :: .addShifted 6 5 5 1 :: .add 6 6 (.imm 1) :: .ldrAt 7 0 6 ::
      .add 6 6 (.imm 1) :: .ldrAt 8 0 6 :: .cmp 7 (.reg 1) :: .bCond .ne .readNext ::
        .cmp 8 (.reg 2) :: .bCond .ne .readNext :: .add 6 6 (.imm 1) :: .ldrAt 0 0 6 ::
          .mov 9 (.imm 1) :: .str (.reg 9) 3 0 :: .ret :: txnCode.from .readNext := rfl

theorem readNext_lines : txnCode.from .readNext =
    .label .readNext :: .cbz 5 .readNotFound :: .sub 5 5 (.imm 1) :: .b .readLoop ::
      txnCode.from .readNotFound := rfl

theorem readNotFound_lines : txnCode.from .readNotFound =
    .label .readNotFound :: .mov 0 (.imm 0) :: .str (.reg 0) 3 0 :: .ret ::
      txnCode.from .txnCommit := rfl

theorem txnCommit_lines : txnCode.from .txnCommit =
    .label .txnCommit :: .ldr 1 0 0 :: .cbz 1 .commitDone :: .mov 2 (.imm 0) ::
      txnCode.from .commitLoop := rfl

theorem commitLoop_lines : txnCode.from .commitLoop =
    .label .commitLoop :: .addShifted 3 2 2 1 :: .add 3 3 (.imm 1) :: .ldrAt 4 0 3 ::
      .add 3 3 (.imm 1) :: .ldrAt 5 0 3 :: .add 3 3 (.imm 1) :: .ldrAt 6 0 3 ::
        .tbnz 5 63 .commitByteWrite :: .add 5 5 (.imm 3) :: .strAt 6 4 5 :: .b .commitNext ::
          txnCode.from .commitByteWrite := rfl

theorem commitByteWrite_lines : txnCode.from .commitByteWrite =
    .label .commitByteWrite :: .lsl 9 5 1 :: .lsr 9 9 1 :: .asr 10 6 2 :: .add 11 4 (.imm 24) ::
      .strbAt 10 11 9 :: txnCode.from .commitNext := rfl

theorem commitNext_lines : txnCode.from .commitNext =
    .label .commitNext :: .add 2 2 (.imm 1) :: .cmp 2 (.reg 1) :: .bCond .lt .commitLoop ::
      txnCode.from .commitDone := rfl

theorem commitDone_lines : txnCode.from .commitDone =
    .label .commitDone :: .str xzr 0 0 :: .ret :: txnCode.from .txnCommitDurable := rfl

theorem txnCommitDurable_lines : txnCode.from .txnCommitDurable =
    .label .txnCommitDurable :: .b .txnCommit :: txnCode.from .txnAbort := rfl

theorem txnAbort_lines : txnCode.from .txnAbort =
    .label .txnAbort :: .str xzr 0 0 :: .ret :: [] := rfl

/-! ## §2. The words of the buffer. -/

/-- The words from an address on. -/
def wordsFrom (m : Mem) (log : Nat) : LogWords := fun i => load64 m (log + 8 * i)

theorem wordsFrom_store (m : Mem) (log i : Nat) (v : UInt64) :
    wordsFrom (store64 m (log + 8 * i) v) log = Function.update (wordsFrom m log) i v := by
  funext j
  unfold wordsFrom
  by_cases heq : j = i
  · rw [heq, Function.update_self, load64_store64_self]
  · rw [Function.update_of_ne heq, load64_store64_of_disjoint _ _ (by omega)]

/-- The words of a triple, where `[x0, x, lsl #3]` finds them. -/
theorem load_triple {s : State} {log i : Nat} {r : Reg} (hlog : (s.regs 0).toNat = log)
    (hi : (s.regs r).toNat = i) (hroom : log + 8 * (tripleAt i + 3) ≤ 2 ^ 64) :
    s.load (s.regs 0 + (s.regs r + s.regs r <<< 1 + 1#64) <<< 3) =
        (entryAt (wordsFrom s.mem log) i).object.toBitVec ∧
      s.load (s.regs 0 + (s.regs r + s.regs r <<< 1 + 1#64 + 1#64) <<< 3) =
        (entryAt (wordsFrom s.mem log) i).fieldIndex.toBitVec ∧
      s.load (s.regs 0 + (s.regs r + s.regs r <<< 1 + 1#64 + 1#64 + 1#64) <<< 3) =
        (entryAt (wordsFrom s.mem log) i).value.toBitVec := by
  unfold tripleAt at hroom
  refine ⟨State.load_of_toNat ?_, State.load_of_toNat ?_, State.load_of_toNat ?_⟩
  · unfold tripleAt
    bv_omega
  · unfold tripleAt
    bv_omega
  · unfold tripleAt
    bv_omega

/-- The registers that the routines use. -/
def txnChanged : List Reg := [0, 1, 2, 3, 4, 5, 6, 7, 8, 9, 10, 11]

/-! ## §3. `_txn_log_write`. -/

section Write

variable {log : Nat} {s : State} {e : LogEntry}

/-- The four stores of `txn_log_write`. -/
def logWriteMem (m : Mem) (log : Nat) (e : LogEntry) : Mem :=
  let count := (load64 m log).toNat
  let m := store64 m (log + 8 * tripleAt count) e.object
  let m := store64 m (log + 8 * (tripleAt count + 1)) e.fieldIndex
  let m := store64 m (log + 8 * (tripleAt count + 2)) e.value
  store64 m log (UInt64.ofNat (count + 1))

theorem wordsFrom_logWriteMem (m : Mem) (log : Nat) (e : LogEntry) :
    wordsFrom (logWriteMem m log e) log = txnLogWrite (wordsFrom m log) e := by
  unfold logWriteMem txnLogWrite
  simp only
  have hfirst := fun m v => wordsFrom_store m log 0 v
  simp only [Nat.mul_zero, Nat.add_zero] at hfirst
  rw [hfirst, wordsFrom_store, wordsFrom_store, wordsFrom_store]
  rfl

theorem logWrite_comesTo (hlog : (s.regs 0).toNat = log) (hobject : s.regs 1 = e.object.toBitVec)
    (hfield : s.regs 2 = e.fieldIndex.toBitVec) (hvalue : s.regs 3 = e.value.toBitVec)
    (hroom : log + 8 * (tripleAt (load64 s.mem log).toNat + 3) ≤ 2 ^ 64) :
    ComesTo txnCode (txnCode.from .txnLogWrite, s) (returnPoint txnCode s) fun s' =>
      s'.mem = logWriteMem s.mem log e ∧ KeepsRegs txnChanged s s' := by
  rw [txnLogWrite_lines]
  refine .head rfl (.head rfl (.head rfl (.head rfl (.head rfl (.head rfl (.head rfl (.head rfl
    (.head rfl (.head rfl (.head rfl (.returns ?_ ⟨?_, ?_⟩)))))))))))
  · simp
  · have hcount : s.load (s.regs 0) = (load64 s.mem log).toBitVec := State.load_of_toNat hlog
    simp [hobject, hfield, hvalue, hcount, hlog]
    unfold logWriteMem
    unfold tripleAt at *
    congr 1
    · congr 1
      · congr 1
        · congr 1
          omega
        · omega
      · omega
  · simp [txnChanged]

end Write

/-! ## §4. `_txn_log_read`. -/

/-- What `txn_log_read` gives back, and leaves in `*found_ptr`. -/
structure Answers (found : Nat) (reply : Option Oop) (s s' : State) : Prop where
  value : s'.regs 0 = (reply.getD 0).toBitVec
  mem : s'.mem = store64 s.mem found (if reply.isSome then 1 else 0)
  regs : KeepsRegs txnChanged s s'

/-- The arguments of `txn_log_read`. -/
structure Asks (log found : Nat) (object : Oop) (fieldIndex : UInt64) (s : State) : Prop where
  log : (s.regs 0).toNat = log
  object : s.regs 1 = object.toBitVec
  fieldIndex : s.regs 2 = fieldIndex.toBitVec
  found : (s.regs 3).toNat = found

section Read

variable {log found i : Nat} {object : Oop} {fieldIndex : UInt64} {s t : State}

theorem Asks.keeps (h : Asks log found object fieldIndex s) (hkeeps : Keeps [4, 5, 6, 7, 8] s t) :
    Asks log found object fieldIndex t where
  log := by rw [hkeeps.regs 0 (by decide), h.log]
  object := by rw [hkeeps.regs 1 (by decide), h.object]
  fieldIndex := by rw [hkeeps.regs 2 (by decide), h.fieldIndex]
  found := by rw [hkeeps.regs 3 (by decide), h.found]

/-- `.Lread_not_found`. -/
theorem readNotFound_comesTo (hasks : Asks log found object fieldIndex s) :
    ComesTo txnCode (txnCode.from .readNotFound, s) (returnPoint txnCode s)
      (Answers found none s) := by
  rw [readNotFound_lines]
  refine .head rfl (.head rfl (.head rfl (.returns ?_ ⟨?_, ?_, ?_⟩)))
  · simp
  · simp
  · simp [hasks.found]
  · simp [txnChanged]

/-- One turn of `.Lread_loop`. -/
theorem readLoop_turns (hasks : Asks log found object fieldIndex s) (hi : (s.regs 5).toNat = i)
    (hroom : log + 8 * (tripleAt i + 3) ≤ 2 ^ 64) :
    if (entryAt (wordsFrom s.mem log) i).object = object ∧
        (entryAt (wordsFrom s.mem log) i).fieldIndex = fieldIndex then
      ComesTo txnCode (txnCode.from .readLoop, s) (returnPoint txnCode s)
        (Answers found (some (entryAt (wordsFrom s.mem log) i).value) s)
    else ComesTo txnCode (txnCode.from .readLoop, s) (txnCode.from .readNext)
      fun t => (t.regs 5).toNat = i ∧ Keeps [4, 5, 6, 7, 8] s t := by
  obtain ⟨hobject, hfield, hvalue⟩ := load_triple hasks.log hi hroom
  simp at hobject hfield hvalue
  rw [readLoop_lines]
  by_cases hmatch : (entryAt (wordsFrom s.mem log) i).object = object
  swap
  · rw [if_neg (fun h => hmatch h.1)]
    refine .head rfl (.head rfl (.head rfl (.head rfl (.head rfl (.head rfl (.head rfl
      (.taken ?_ (.here ⟨?_, ?_⟩))))))))
    · simpa [hobject, hasks.object, UInt64.toBitVec_inj] using hmatch
    · simpa using hi
    · simp
  by_cases hmatch' : (entryAt (wordsFrom s.mem log) i).fieldIndex = fieldIndex
  swap
  · rw [if_neg (fun h => hmatch' h.2)]
    refine .head rfl (.head rfl (.head rfl (.head rfl (.head rfl (.head rfl (.head rfl
      (.notTaken ?_ (.head rfl (.taken ?_ (.here ⟨?_, ?_⟩))))))))))
    · simpa [hobject, hasks.object, UInt64.toBitVec_inj] using hmatch
    · simpa [hfield, hasks.fieldIndex, UInt64.toBitVec_inj] using hmatch'
    · simpa using hi
    · simp
  rw [if_pos ⟨hmatch, hmatch'⟩]
  refine .head rfl (.head rfl (.head rfl (.head rfl (.head rfl (.head rfl (.head rfl
    (.notTaken ?_ (.head rfl (.notTaken ?_ (.head rfl (.head rfl (.head rfl (.head rfl
      (.returns ?_ ⟨?_, ?_, ?_⟩))))))))))))))
  · simpa [hobject, hasks.object, UInt64.toBitVec_inj] using hmatch
  · simpa [hfield, hasks.fieldIndex, UInt64.toBitVec_inj] using hmatch'
  · simp
  · simp [hvalue]
  · simp [hasks.found]
  · simp [txnChanged]

/-- From a state that the arguments are still in, to the one the routine began in. -/
theorem Answers.of_keeps {reply : Option Oop} {u : State} (hkeeps : Keeps [4, 5, 6, 7, 8] s t)
    (h : Answers found reply t u) : Answers found reply s u where
  value := h.value
  mem := by rw [h.mem, hkeeps.mem]
  regs := (hkeeps.regs.mono (by decide)).trans h.regs

/-- `.Lread_loop`, from an entry back to the first one. -/
theorem readLoop_comesTo (hasks : Asks log found object fieldIndex s) (hi : (s.regs 5).toNat = i)
    (hroom : log + 8 * (tripleAt i + 3) ≤ 2 ^ 64) :
    ComesTo txnCode (txnCode.from .readLoop, s) (returnPoint txnCode s)
      (Answers found (txnLogReadLoop (wordsFrom s.mem log) object fieldIndex (i + 1)) s) := by
  induction i generalizing s with
  | zero =>
    have hturn := readLoop_turns hasks hi hroom
    rw [txnLogReadLoop]
    split at hturn
    · next hmatch =>
      rw [if_pos hmatch]
      exact hturn
    · next hmatch =>
      rw [if_neg hmatch]
      refine hturn.andThen fun t ht => ?_
      obtain ⟨hi', hkeeps⟩ := ht
      rw [readNext_lines, ← hkeeps.returnPoint (by decide)]
      refine .head rfl (.cbzTaken (BitVec.eq_of_toNat_eq hi') ?_)
      exact (readNotFound_comesTo (hasks.keeps hkeeps)).imp fun u hu => hu.of_keeps hkeeps
  | succ i ih =>
    have hturn := readLoop_turns hasks hi hroom
    rw [txnLogReadLoop]
    split at hturn
    · next hmatch =>
      rw [if_pos hmatch]
      exact hturn
    · next hmatch =>
      rw [if_neg hmatch]
      refine hturn.andThen fun t ht => ?_
      obtain ⟨hi', hkeeps⟩ := ht
      have hkeeps' : Keeps [4, 5, 6, 7, 8] s (t.write 5 (t.regs 5 - 1)) := by simpa using hkeeps
      have hlater := @ih (t.write 5 (t.regs 5 - 1)) (hasks.keeps hkeeps') ?_ ?_
      · rw [hkeeps'.mem, hkeeps'.returnPoint (by decide)] at hlater
        rw [readNext_lines]
        refine .head rfl (.cbzNotTaken ?_ (.head rfl (.head rfl ?_)))
        · intro hzero
          rw [hzero] at hi'
          exact absurd hi' (Nat.zero_ne_add_one i)
        · exact hlater.imp fun u hu => hu.of_keeps hkeeps'
      · simp only [State.write_regs, reduceIte]
        bv_omega
      · unfold tripleAt at *
        omega

/-- `_txn_log_read` is `txn_log_read`. -/
theorem logRead_comesTo (hasks : Asks log found object fieldIndex s)
    (hroom : log + 8 * (3 * (load64 s.mem log).toNat + 1) ≤ 2 ^ 64) :
    ComesTo txnCode (txnCode.from .txnLogRead, s) (returnPoint txnCode s)
      (Answers found (txnLogRead (wordsFrom s.mem log) object fieldIndex) s) := by
  have hcount : s.load (s.regs 0) = (load64 s.mem log).toBitVec := State.load_of_toNat hasks.log
  rw [txnLogRead_lines, txnLogRead]
  change ComesTo _ _ _ (Answers found (txnLogReadLoop _ object fieldIndex (load64 s.mem log).toNat) s)
  -- the state with the count in `x4`
  generalize ht : s.write 4 (load64 s.mem log).toBitVec = t
  have hkeeps : Keeps [4, 5, 6, 7, 8] s t := by
    rw [← ht]
    simp
  have hstart : s.write 4 (s.load (s.regs 0 + BitVec.ofInt 64 0)) = t := by
    rw [← ht, ← hcount]
    simp
  have hn : (t.regs 4).toNat = (load64 s.mem log).toNat := by
    rw [← ht, State.write_regs, if_pos rfl]
    rfl
  refine .head rfl (.head rfl ?_)
  rw [hstart, ← hkeeps.returnPoint (by decide)]
  cases hcases : (load64 s.mem log).toNat with
  | zero =>
    refine .cbzTaken (BitVec.eq_of_toNat_eq (hn.trans hcases)) ?_
    exact (readNotFound_comesTo (hasks.keeps hkeeps)).imp fun u hu => hu.of_keeps hkeeps
  | succ n =>
    rw [hcases] at hn hroom
    have hkeeps' : Keeps [4, 5, 6, 7, 8] s (t.write 5 (t.regs 4 - 1)) := by simpa using hkeeps
    have hloop := @readLoop_comesTo log found n object fieldIndex (t.write 5 (t.regs 4 - 1))
      (hasks.keeps hkeeps') ?_ ?_
    · rw [hkeeps'.mem] at hloop
      refine .cbzNotTaken ?_ (.head rfl (hloop.imp fun u hu => hu.of_keeps hkeeps'))
      intro hzero
      rw [hzero] at hn
      exact absurd hn (Nat.zero_ne_add_one n)
    · simp only [State.write_regs, reduceIte]
      bv_omega
    · unfold tripleAt
      omega

end Read

/-! ## §5. `_txn_commit`. -/

section Commit

variable {log i count : Nat} {s t : State}

/-- The marker of a byte write. -/
theorem marker_iff (x : UInt64) : x.toBitVec[63] = true ↔ ¬ x >>> 63 = 0 := by
  rw [← UInt64.toNat_inj, UInt64.toNat_shiftRight]
  show x.toBitVec.toNat.testBit 63 = true ↔ ¬ x.toNat >>> 63 = 0
  rw [Nat.testBit_eq_decide_div_mod_eq, Nat.shiftRight_eq_div_pow, decide_eq_true_iff]
  have hx := x.toNat_lt
  show x.toNat / 2 ^ 63 % 2 = 1 ↔ _
  omega

/-- `lsl` and `lsr` take the marker away. -/
theorem shifts_marker (x : UInt64) :
    (x.toNat <<< 1 % 18446744073709551616) >>> 1 = (x &&& ~~~byteFieldMarker).toNat := by
  have hmask : (x &&& ~~~byteFieldMarker).toNat = x.toNat % 2 ^ 63 := by
    rw [UInt64.toNat_and]
    exact Nat.and_two_pow_sub_one_eq_mod x.toNat 63
  omega

/-- The arithmetic shift does not reach the low byte. -/
theorem asr_byte (x : UInt64) :
    (⟨(x.toBitVec.sshiftRight 2).setWidth 8⟩ : UInt8) = untagSmallintByte x := by
  refine UInt8.toBitVec_inj.mp ?_
  show _ = (x.toBitVec >>> 2#64).setWidth 8
  refine BitVec.eq_of_getLsbD_eq fun i hi => ?_
  have hlow : ¬ 64 ≤ i := by omega
  have hnext : 2 + i < 64 := by omega
  simp [BitVec.getLsbD_sshiftRight, hlow, hnext]

/-- The registers at `.Lcommit_loop`. -/
structure Commits (log count i : Nat) (s : State) : Prop where
  log : (s.regs 0).toNat = log
  count : (s.regs 1).toNat = count
  index : (s.regs 2).toNat = i

/-- An entry in the registers. -/
structure Installs (e : LogEntry) (log count i : Nat) (s : State) : Prop extends
    Commits log count i s where
  object : s.regs 4 = e.object.toBitVec
  fieldIndex : s.regs 5 = e.fieldIndex.toBitVec
  value : s.regs 6 = e.value.toBitVec

/-- What follows the loads of `.Lcommit_loop`. -/
def commitStores : Code Label :=
  .tbnz 5 63 .commitByteWrite :: .add 5 5 (.imm 3) :: .strAt 6 4 5 :: .b .commitNext ::
    txnCode.from .commitByteWrite

theorem commitLoop_loads (hcommits : Commits log count i s) (hi : i < count)
    (hroom : log + 8 * (tripleAt count) ≤ 2 ^ 64) :
    ComesTo txnCode (txnCode.from .commitLoop, s) commitStores fun t =>
      Installs (entryAt (wordsFrom s.mem log) i) log count i t ∧ Keeps txnChanged s t := by
  obtain ⟨hobject, hfield, hvalue⟩ := load_triple hcommits.log hcommits.index
    (by unfold tripleAt at *; omega)
  simp at hobject hfield hvalue
  rw [commitLoop_lines]
  refine .head rfl (.head rfl (.head rfl (.head rfl (.head rfl (.head rfl (.head rfl
    (.head rfl (.here ⟨⟨⟨?_, ?_, ?_⟩, ?_, ?_, ?_⟩, ?_⟩))))))))
  · simpa using hcommits.log
  · simpa using hcommits.count
  · simpa using hcommits.index
  · simp [hobject]
  · simp [hfield]
  · simp [hvalue]
  · simp [txnChanged]

theorem commitStores_comesTo {e : LogEntry} (h : Installs e log count i s) :
    ComesTo txnCode (commitStores, s) (txnCode.from .commitNext) fun t =>
      Commits log count i t ∧ t.mem = commitEntry s.mem e ∧ KeepsRegs txnChanged s t := by
  unfold commitStores commitEntry
  by_cases hbyte : e.fieldIndex >>> 63 ≠ 0
  · rw [if_pos hbyte, ← asr_byte, ← shifts_marker]
    refine .tbnzTaken ?_ ?_
    · simpa [h.fieldIndex, marker_iff] using hbyte
    rw [commitByteWrite_lines]
    refine .head rfl (.head rfl (.head rfl (.head rfl (.head rfl (.head rfl (.here
      ⟨⟨?_, ?_, ?_⟩, ?_, ?_⟩))))))
    · simpa using h.log
    · simpa using h.count
    · simpa using h.index
    · simp [h.object, h.fieldIndex, h.value, wrap64, objFieldAddr]
    · simp [txnChanged]
  · rw [if_neg hbyte]
    refine .tbnzNotTaken ?_ (.head rfl (.head rfl (.head rfl (.here ⟨⟨?_, ?_, ?_⟩, ?_, ?_⟩))))
    · have hmarker := (marker_iff e.fieldIndex).not.mpr hbyte
      simpa [h.fieldIndex] using hmarker
    · simpa using h.log
    · simpa using h.count
    · simpa using h.index
    · simp [h.object, h.fieldIndex, h.value, wrap64, objFieldAddr]
      congr 2
      omega
    · simp [txnChanged]

/-- The next entry. -/
theorem commitNext_loops (hcommits : Commits log count i s) (hmore : i + 1 < count)
    (hcount : count < 2 ^ 63) :
    ComesTo txnCode (txnCode.from .commitNext, s) (txnCode.from .commitLoop) fun t =>
      Commits log count (i + 1) t ∧ Keeps txnChanged s t := by
  have hindex := hcommits.index
  have hat := hcommits.count
  have hnext : (s.regs 2 + 1#64).toNat = i + 1 := by bv_omega
  rw [commitNext_lines]
  refine .head rfl (.head rfl (.head rfl (.taken ?_ (.here ⟨⟨?_, ?_, ?_⟩, ?_⟩))))
  · simp only [State.setFlags_flags, holds_lt, State.write_regs, reduceIte, Operand.eval_imm,
      Operand.eval_reg, Fin.reduceEq]
    rw [toInt_eq_toNat (by omega), toInt_eq_toNat (by omega), hnext, hat]
    exact decide_eq_true (by omega)
  · simpa using hcommits.log
  · simpa using hcommits.count
  · exact hnext
  · simp [txnChanged]

/-- After the last entry. -/
theorem commitNext_ends (hcommits : Commits log count i s) (hlast : i + 1 = count)
    (hcount : count < 2 ^ 63) :
    ComesTo txnCode (txnCode.from .commitNext, s) (txnCode.from .commitDone) fun t =>
      Commits log count count t ∧ Keeps txnChanged s t := by
  have hindex := hcommits.index
  have hat := hcommits.count
  have hnext : (s.regs 2 + 1#64).toNat = i + 1 := by bv_omega
  rw [commitNext_lines]
  refine .head rfl (.head rfl (.head rfl (.notTaken ?_ (.here ⟨⟨?_, ?_, ?_⟩, ?_⟩))))
  · simp only [State.setFlags_flags, holds_lt, State.write_regs, reduceIte, Operand.eval_imm,
      Operand.eval_reg, Fin.reduceEq]
    rw [toInt_eq_toNat (by omega), toInt_eq_toNat (by omega), hnext, hat]
    exact decide_eq_false (by omega)
  · simpa using hcommits.log
  · simpa using hcommits.count
  · exact hnext.trans hlast
  · simp [txnChanged]

/-- The entry is not for these addresses. -/
def OffBuffer (low high : Nat) (e : LogEntry) : Prop :=
  ∀ a, low ≤ a → a < high → Leaves (commitEntry · e) a

theorem OffBuffer.wordsFrom {high j : Nat} {e : LogEntry} (h : OffBuffer log high e) (m : Mem)
    (hj : log + 8 * j + 8 ≤ high) : wordsFrom (commitEntry m e) log j = wordsFrom m log j :=
  load64_congr fun k hk => h _ (by omega) (by omega) m

theorem entryAt_congr {w w' : LogWords} {i : Nat} (h : ∀ j < tripleAt (i + 1), w' j = w j) :
    entryAt w' i = entryAt w i := by
  unfold entryAt
  rw [h, h, h]
  · unfold tripleAt
    omega
  · unfold tripleAt
    omega
  · unfold tripleAt
    omega

/-- One turn of `.Lcommit_loop`, up to its test. -/
theorem commitLoop_turns {w : LogWords} (hcommits : Commits log count i s) (hi : i < count)
    (hroom : log + 8 * tripleAt count ≤ 2 ^ 64)
    (hwords : ∀ j < tripleAt count, wordsFrom s.mem log j = w j) :
    ComesTo txnCode (txnCode.from .commitLoop, s) (txnCode.from .commitNext) fun t =>
      Commits log count i t ∧ t.mem = commitEntry s.mem (entryAt w i) ∧
        KeepsRegs txnChanged s t := by
  have hentry : entryAt (wordsFrom s.mem log) i = entryAt w i :=
    entryAt_congr fun j hj => hwords j (by unfold tripleAt at *; omega)
  refine (commitLoop_loads hcommits hi hroom).andThen fun t ht => ?_
  obtain ⟨hinstalls, hkeeps⟩ := ht
  rw [hentry] at hinstalls
  refine (commitStores_comesTo hinstalls).imp fun u hu => ⟨hu.1, ?_, hkeeps.regs.trans hu.2.2⟩
  rw [hu.2.1, hkeeps.mem]

/-- `.Lcommit_loop`, from an entry on. -/
theorem commitLoop_comesTo {w : LogWords} (left : Nat) (hcommits : Commits log count i s)
    (hcount : i + (left + 1) = count) (hroom : log + 8 * tripleAt count ≤ 2 ^ 64)
    (hwords : ∀ j < tripleAt count, wordsFrom s.mem log j = w j)
    (hoff : ∀ j < count, OffBuffer log (log + 8 * tripleAt count) (entryAt w j)) :
    ComesTo txnCode (txnCode.from .commitLoop, s) (txnCode.from .commitDone) fun t =>
      Commits log count count t ∧ t.mem = txnCommitLoop w (left + 1) i s.mem ∧
        KeepsRegs txnChanged s t := by
  have hsmall : count < 2 ^ 63 := by
    unfold tripleAt at hroom
    omega
  induction left generalizing i s with
  | zero =>
    refine (commitLoop_turns hcommits (by omega) hroom hwords).andThen fun t ht => ?_
    obtain ⟨hcommits', hmem, hregs⟩ := ht
    refine (commitNext_ends hcommits' hcount hsmall).imp fun u hu => ⟨hu.1, ?_, ?_⟩
    · rw [hu.2.mem, hmem]
      rfl
    · exact hregs.trans hu.2.regs
  | succ left ih =>
    refine (commitLoop_turns hcommits (by omega) hroom hwords).andThen fun t ht => ?_
    obtain ⟨hcommits', hmem, hregs⟩ := ht
    refine (commitNext_loops hcommits' (by omega) hsmall).andThen fun u hu => ?_
    obtain ⟨hcommits'', hkeeps⟩ := hu
    have humem : u.mem = commitEntry s.mem (entryAt w i) := hkeeps.mem.trans hmem
    have hlater := ih hcommits'' (by omega) fun j hj => by
      rw [humem, (hoff i (by omega)).wordsFrom _ (by omega)]
      exact hwords j hj
    rw [humem] at hlater
    exact hlater.imp fun v hv => ⟨hv.1, hv.2.1, (hregs.trans hkeeps.regs).trans hv.2.2⟩

/-- `.Lcommit_done`. -/
theorem commitDone_comesTo (hlog : (s.regs 0).toNat = log) :
    ComesTo txnCode (txnCode.from .commitDone, s) (returnPoint txnCode s) fun t =>
      t.mem = store64 s.mem log 0 ∧ KeepsRegs txnChanged s t := by
  rw [commitDone_lines]
  refine .head rfl (.head rfl (.returns ?_ ⟨?_, ?_⟩))
  · simp
  · simp [xzr, hlog]
  · simp

/-- `_txn_commit` is `txn_commit`. -/
theorem commit_comesTo (hlog : (s.regs 0).toNat = log)
    (hroom : log + 8 * tripleAt (load64 s.mem log).toNat ≤ 2 ^ 64)
    (hoff : ∀ j < (load64 s.mem log).toNat,
      OffBuffer log (log + 8 * tripleAt (load64 s.mem log).toNat)
        (entryAt (wordsFrom s.mem log) j)) :
    ComesTo txnCode (txnCode.from .txnCommit, s) (returnPoint txnCode s) fun t =>
      t.mem = store64 (txnCommitWords (wordsFrom s.mem log) s.mem).1 log 0 ∧
        KeepsRegs txnChanged s t := by
  have hcount : s.load (s.regs 0) = (load64 s.mem log).toBitVec := State.load_of_toNat hlog
  -- the state with the count in `x1`
  generalize ht : s.write 1 (load64 s.mem log).toBitVec = t
  have hkeeps : Keeps txnChanged s t := by
    rw [← ht]
    simp [txnChanged]
  have hstart : s.write 1 (s.load (s.regs 0 + BitVec.ofInt 64 0)) = t := by
    rw [← ht, ← hcount]
    simp
  have hn : (t.regs 1).toNat = (load64 s.mem log).toNat := by
    rw [← ht, State.write_regs, if_pos rfl]
    rfl
  have hlog' : (t.regs 0).toNat = log := by
    rw [← ht, State.write_regs, if_neg (by decide), hlog]
  have hresult : (txnCommitWords (wordsFrom s.mem log) s.mem).1 =
      txnCommitLoop (wordsFrom s.mem log) (load64 s.mem log).toNat 0 s.mem := rfl
  rw [hresult, txnCommit_lines, ← hkeeps.returnPoint (by decide)]
  refine .head rfl (.head rfl ?_)
  rw [hstart]
  cases hcases : (load64 s.mem log).toNat with
  | zero =>
    refine .cbzTaken (BitVec.eq_of_toNat_eq (hn.trans hcases)) ?_
    refine (commitDone_comesTo hlog').imp fun u hu => ⟨?_, hkeeps.regs.trans hu.2⟩
    rw [hu.1, hkeeps.mem]
    rfl
  | succ n =>
    rw [hcases] at hn hroom hoff
    refine .cbzNotTaken ?_ (.head rfl ?_)
    · intro hzero
      rw [hzero] at hn
      exact absurd hn (Nat.zero_ne_add_one n)
    have hkeeps' : Keeps txnChanged s (t.write 2 0) := by
      simpa [txnChanged] using hkeeps
    have hloop := @commitLoop_comesTo log 0 (n + 1) (t.write 2 0) (wordsFrom s.mem log) n
      ⟨by simpa using hlog', by simpa using hn, by simp⟩ (Nat.zero_add _) hroom
      (fun j _ => by rw [hkeeps'.mem]) hoff
    rw [hkeeps'.mem] at hloop
    refine hloop.andThen fun u hu => ?_
    have hregs := hkeeps'.regs.trans hu.2.2
    rw [hkeeps.returnPoint (by decide), ← hregs.returnPoint (by decide)]
    refine (commitDone_comesTo hu.1.log).imp fun v hv => ⟨?_, hregs.trans hv.2⟩
    rw [hv.1, hu.2.1]

end Commit

/-- `_txn_commit_durable`. -/
theorem commitDurable_comesTo {s : State} {post : State → Prop}
    (h : ComesTo txnCode (txnCode.from .txnCommit, s) (returnPoint txnCode s) post) :
    ComesTo txnCode (txnCode.from .txnCommitDurable, s) (returnPoint txnCode s) post := by
  rw [txnCommitDurable_lines]
  exact .head rfl (.head rfl h)

/-- `_txn_abort`. -/
theorem abort_comesTo {log : Nat} {s : State} (hlog : (s.regs 0).toNat = log) :
    ComesTo txnCode (txnCode.from .txnAbort, s) (returnPoint txnCode s) fun t =>
      t.mem = store64 s.mem log 0 ∧ KeepsRegs txnChanged s t := by
  rw [txnAbort_lines]
  refine .head rfl (.head rfl (.returns ?_ ⟨?_, ?_⟩))
  · simp
  · simp [xzr, hlog]
  · simp

/-! ## §6. Sessions. -/

/-- A call to one of the routines. -/
inductive Call where
  | write (e : LogEntry)
  | read (object : Oop) (fieldIndex : UInt64)
  | commit
  | commitDurable
  | abort
deriving DecidableEq, Repr

namespace Call

def label : Call → Label
  | write _ => .txnLogWrite
  | read _ _ => .txnLogRead
  | commit => .txnCommit
  | commitDurable => .txnCommitDurable
  | abort => .txnAbort

/-- The registers of a call. -/
def Given (log found : Nat) (s : State) : Call → Prop
  | write e => (s.regs 0).toNat = log ∧ s.regs 1 = e.object.toBitVec ∧
      s.regs 2 = e.fieldIndex.toBitVec ∧ s.regs 3 = e.value.toBitVec
  | read object fieldIndex => Asks log found object fieldIndex s
  | _ => (s.regs 0).toNat = log

/-- What a call answers on a list of entries. -/
def answer (entries : List LogEntry) : Call → Option (Option Oop)
  | read object fieldIndex => some (readEntry entries object fieldIndex)
  | _ => none

/-- The entries after a call. -/
def entriesAfter (entries : List LogEntry) : Call → List LogEntry
  | write e => entries ++ [e]
  | read _ _ => entries
  | _ => []

/-- The heap after a call. -/
def heapAfter (entries : List LogEntry) (heap : Mem) : Call → Mem
  | commit => entries.foldl commitEntry heap
  | commitDurable => entries.foldl commitEntry heap
  | _ => heap

/-- What a caller owes a routine: room for a write, and a buffer that no installed entry hits. -/
def Allowed (log capacity : Nat) (entries : List LogEntry) : Call → Prop
  | write _ => entries.length < capacity
  | commit => ∀ e ∈ entries, OffBuffer log (log + 8 * tripleAt capacity) e
  | commitDurable => ∀ e ∈ entries, OffBuffer log (log + 8 * tripleAt capacity) e
  | _ => True

end Call

/-- The memory of the process holds the log, and this heap outside the buffer and the cell
that `found_ptr` names. -/
structure Represents (log capacity found : Nat) (m : Mem) (entries : List LogEntry) (heap : Mem) :
    Prop where
  buffer : HoldsLog (wordsFrom m log) entries
  room : entries.length ≤ capacity
  heap : ∀ a, a < log ∨ log + 8 * tripleAt capacity ≤ a → a < found ∨ found + 8 ≤ a → m a = heap a

section Session

variable {log capacity found : Nat} {entries : List LogEntry} {heap : Mem} {s : State}

/-- Triples that the log holds are its entries. -/
theorem entryAt_mem {w : LogWords} (h : HoldsLog w entries) {j : Nat} (hj : j < entries.length) :
    entryAt w j ∈ entries := by
  have htriples := h.triples
  have hsplit : entries = entries.take j ++ entries[j] :: entries.drop (j + 1) := by simp
  rw [hsplit] at htriples
  have hentry := Holds.entryAt htriples
  rw [List.length_take, Nat.min_eq_left (Nat.le_of_lt hj)] at hentry
  rw [hentry]
  exact List.getElem_mem hj

/-- The log is read from its own words only. -/
theorem holdsLog_congr {w w' : LogWords} (h : HoldsLog w entries)
    (hsame : ∀ j < tripleAt entries.length, w' j = w j) : HoldsLog w' entries where
  count := by
    rw [hsame 0 (by unfold tripleAt; omega)]
    exact h.count
  triples := h.triples.congr fun j _ hj => hsame j (by
    rw [flatMap_tripleWords_length] at hj
    exact hj)
  inMemory := h.inMemory

theorem Represents.count {m : Mem} (h : Represents log capacity found m entries heap) :
    (load64 m log).toNat = entries.length := h.buffer.count_toNat

/-- A store outside the buffer. -/
theorem Represents.wordsFrom {m m' : Mem} (h : Represents log capacity found m entries heap)
    (hsame : ∀ a, log ≤ a → a < log + 8 * tripleAt capacity → m' a = m a) :
    HoldsLog (wordsFrom m' log) entries := by
  have hroom := h.room
  refine holdsLog_congr h.buffer fun j hj => load64_congr fun k hk => hsame _ (by omega) ?_
  unfold tripleAt at *
  omega

theorem write_represents {e : LogEntry} (hspace : log + 8 * tripleAt capacity ≤ 2 ^ 64)
    (h : Represents log capacity found s.mem entries heap) (hroom : entries.length < capacity) :
    Represents log capacity found (logWriteMem s.mem log e) (entries ++ [e]) heap := by
  have hcount := h.count
  unfold tripleAt at hspace
  refine ⟨?_, ?_, fun a ha hfound => ?_⟩
  · rw [wordsFrom_logWriteMem]
    exact h.buffer.write e (by omega)
  · rw [List.length_append, List.length_singleton]
    exact hroom
  · rw [← h.heap a ha hfound]
    unfold logWriteMem
    simp only [hcount]
    unfold tripleAt at *
    rw [store64_of_out _ _ (by omega), store64_of_out _ _ (by omega),
      store64_of_out _ _ (by omega), store64_of_out _ _ (by omega)]

theorem read_represents (hoff : found + 8 ≤ log ∨ log + 8 * tripleAt capacity ≤ found)
    (h : Represents log capacity found s.mem entries heap) (v : UInt64) :
    Represents log capacity found (store64 s.mem found v) entries heap := by
  refine ⟨h.wordsFrom fun a hlo hhi => store64_of_out _ _ (by omega), h.room, fun a ha hfound => ?_⟩
  rw [store64_of_out _ _ (by omega), h.heap a ha hfound]

/-- The buffer after `str xzr, [x0]`. -/
theorem cleared_represents {m heap' : Mem} (hcapacity : log < log + 8 * tripleAt capacity)
    (hheap : ∀ a, a < log ∨ log + 8 * tripleAt capacity ≤ a → a < found ∨ found + 8 ≤ a →
      m a = heap' a) : Represents log capacity found (store64 m log 0) [] heap' := by
  have hfirst := wordsFrom_store m log 0 0
  rw [Nat.mul_zero, Nat.add_zero] at hfirst
  refine ⟨?_, Nat.zero_le _, fun a ha hfound => ?_⟩
  · rw [hfirst]
    exact txnAbort_holds _
  · unfold tripleAt at *
    rw [store64_of_out _ _ (by omega), hheap a ha hfound]

theorem commit_represents (hspace : log < log + 8 * tripleAt capacity)
    (h : Represents log capacity found s.mem entries heap) :
    Represents log capacity found (store64 (txnCommitWords (wordsFrom s.mem log) s.mem).1 log 0) []
      (entries.foldl commitEntry heap) := by
  rw [(h.buffer.commit s.mem).1]
  exact cleared_represents hspace fun a ha hfound =>
    bytewise_foldl commitEntry_bytewise entries (h.heap a ha hfound)

/-- **What one call does.** -/
theorem Call.comesTo (c : Call) (hspace : log + 8 * tripleAt capacity ≤ 2 ^ 64)
    (hoff : found + 8 ≤ log ∨ log + 8 * tripleAt capacity ≤ found)
    (h : Represents log capacity found s.mem entries heap) (hgiven : c.Given log found s)
    (hallowed : c.Allowed log capacity entries) :
    ComesTo txnCode (txnCode.from c.label, s) (returnPoint txnCode s) fun t =>
      Represents log capacity found t.mem (c.entriesAfter entries) (c.heapAfter entries heap) ∧
        KeepsRegs txnChanged s t ∧
        ∀ reply, c.answer entries = some reply → t.regs 0 = (reply.getD 0).toBitVec ∧
          load64 t.mem found = if reply.isSome then 1 else 0 := by
  have hcount := h.count
  have hroom := h.room
  have hcapacity : log < log + 8 * tripleAt capacity := by
    unfold tripleAt
    omega
  cases c with
  | write e =>
    obtain ⟨hlog, hobject, hfield, hvalue⟩ := hgiven
    refine (logWrite_comesTo hlog hobject hfield hvalue ?_).imp fun t ht => ⟨?_, ht.2, ?_⟩
    · change entries.length < capacity at hallowed
      unfold tripleAt at *
      omega
    · rw [ht.1]
      exact write_represents hspace h hallowed
    · intro reply hreply
      cases hreply
  | read object fieldIndex =>
    refine (logRead_comesTo hgiven ?_).imp fun t ht => ⟨?_, ht.regs, ?_⟩
    · unfold tripleAt at *
      omega
    · rw [ht.mem]
      exact read_represents hoff h _
    · intro reply hreply
      have hread : txnLogRead (LogAssembly.wordsFrom s.mem log) object fieldIndex = reply :=
        (h.buffer.read object fieldIndex).trans (Option.some.inj hreply)
      refine ⟨?_, ?_⟩
      · rw [ht.value, hread]
      · rw [ht.mem, load64_store64_self, hread]
  | commit =>
    refine (commit_comesTo hgiven ?_ ?_).imp fun t ht => ⟨?_, ht.2, ?_⟩
    · unfold tripleAt at *
      omega
    · rw [hcount]
      intro j hj a hlo hhi
      exact hallowed _ (entryAt_mem h.buffer hj) a hlo (by unfold tripleAt at *; omega)
    · rw [ht.1]
      exact commit_represents hcapacity h
    · intro reply hreply
      cases hreply
  | commitDurable =>
    refine (commitDurable_comesTo (commit_comesTo hgiven ?_ ?_)).imp fun t ht => ⟨?_, ht.2, ?_⟩
    · unfold tripleAt at *
      omega
    · rw [hcount]
      intro j hj a hlo hhi
      exact hallowed _ (entryAt_mem h.buffer hj) a hlo (by unfold tripleAt at *; omega)
    · rw [ht.1]
      exact commit_represents hcapacity h
    · intro reply hreply
      cases hreply
  | abort =>
    refine (abort_comesTo hgiven).imp fun t ht => ⟨?_, ht.2, ?_⟩
    · rw [ht.1]
      exact cleared_represents hcapacity h.heap
    · intro reply hreply
      cases hreply

/-- A step of the process: a call, or a store of its own. -/
inductive Act where
  | call (c : Call)
  | store (address : Nat) (value : UInt64)
deriving DecidableEq, Repr

namespace Act

def entriesAfter (entries : List LogEntry) : Act → List LogEntry
  | call c => c.entriesAfter entries
  | store _ _ => entries

def heapAfter (entries : List LogEntry) (heap : Mem) : Act → Mem
  | call c => c.heapAfter entries heap
  | store address value => store64 heap address value

def Allowed (log capacity : Nat) (entries : List LogEntry) : Act → Prop
  | call c => c.Allowed log capacity entries
  | store address _ => address + 8 ≤ log ∨ log + 8 * tripleAt capacity ≤ address

end Act

/-- Every act of a session is allowed when its turn comes. -/
def AllAllowed (log capacity : Nat) : List Act → List LogEntry → Prop
  | [], _ => True
  | act :: acts, entries =>
    act.Allowed log capacity entries ∧ AllAllowed log capacity acts (act.entriesAfter entries)

/-- The process goes through the acts: whatever else is in the registers, every call comes
back with the answer that the entries give, and memory holds the entries and the heap. -/
def Serves (log capacity found : Nat) : List Act → List LogEntry → Mem → Mem → Prop
  | [], entries, heap, m => Represents log capacity found m entries heap
  | .store address value :: acts, entries, heap, m =>
    Represents log capacity found m entries heap ∧
      Serves log capacity found acts entries (store64 heap address value)
        (store64 m address value)
  | .call c :: acts, entries, heap, m =>
    Represents log capacity found m entries heap ∧
      ∀ s : State, s.mem = m → c.Given log found s →
        ComesTo txnCode (txnCode.from c.label, s) (returnPoint txnCode s) fun t =>
          KeepsRegs txnChanged s t ∧
          (∀ reply, c.answer entries = some reply → t.regs 0 = (reply.getD 0).toBitVec ∧
            load64 t.mem found = if reply.isSome then 1 else 0) ∧
          Serves log capacity found acts (c.entriesAfter entries) (c.heapAfter entries heap) t.mem

/-- **The routines are the log.**  Over any sequence of calls and stores, each call to `txn.s`
answers what the entries written so far answer, and memory holds the entries and the heap that
the calls say. -/
theorem session_refines (acts : List Act) {m : Mem}
    (hspace : log + 8 * tripleAt capacity ≤ 2 ^ 64)
    (hoff : found + 8 ≤ log ∨ log + 8 * tripleAt capacity ≤ found)
    (hallowed : AllAllowed log capacity acts entries)
    (h : Represents log capacity found m entries heap) :
    Serves log capacity found acts entries heap m := by
  induction acts generalizing entries heap m with
  | nil => exact h
  | cons act acts ih =>
    obtain ⟨hfirst, hlater⟩ := hallowed
    cases act with
    | call c =>
      refine ⟨h, fun s hs hgiven => ?_⟩
      rw [← hs] at h
      refine (c.comesTo hspace hoff h hgiven hfirst).imp fun t ht => ?_
      obtain ⟨hrepresents, hregs, hanswer⟩ := ht
      exact ⟨hregs, hanswer, ih hlater hrepresents⟩
    | store address value =>
      refine ⟨h, ih hlater ⟨?_, h.room, fun a ha hfound => ?_⟩⟩
      · change address + 8 ≤ log ∨ log + 8 * tripleAt capacity ≤ address at hfirst
        exact h.wordsFrom fun a hlo hhi => store64_of_out _ _ (by omega)
      · exact bytewise_store64 address value (h.heap a ha hfound)

end Session

/-- A field of the object at 65536. -/
def fieldWrite : LogEntry := ⟨65536, 0, 5⟩

/-- A write, a reading of it, a commit, and a reading after. -/
def sampleSession : List Act :=
  [ .call (.write fieldWrite), .call (.read 65536 0), .store 70000 9, .call .commit,
    .call (.read 65536 0) ]

theorem fieldWrite_off : OffBuffer 4096 (4096 + 8 * tripleAt 64) fieldWrite := by
  intro a hlo hhi m
  have htarget : commitEntry m fieldWrite = store64 m 65560 5 := rfl
  unfold tripleAt at hhi
  show commitEntry m fieldWrite a = m a
  rw [htarget, store64_of_out _ _ (by omega)]

theorem sampleSession_serves :
    Serves 4096 64 8192 sampleSession [] (fun _ => 0) fun _ => 0 := by
  refine session_refines sampleSession (by decide) (.inr (by decide)) ?_ ⟨⟨?_, trivial, ?_⟩, ?_, ?_⟩
  · refine ⟨?_, trivial, .inr (by decide), ?_, trivial, trivial⟩
    · show 0 < 64
      decide
    · intro e he
      rw [List.mem_singleton.mp he]
      exact fieldWrite_off
  · decide
  · decide
  · decide
  · exact fun _ _ _ => rfl

end LivingObjects.Txn.LogAssembly
