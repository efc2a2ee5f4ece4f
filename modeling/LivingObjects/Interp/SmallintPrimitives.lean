/-
  LivingObjects.Interp.SmallintPrimitives — SmallInteger arithmetic, in C and in assembly.

  `try_smallint_primitive` of `interpret.c` and the entries `.Lprim_add` to `.Lprim_mul`
  of `interpret.s` work on the same two words of the operand stack.  The C code computes
  with the overflow builtins and `fits_smallint`; the assembly code with flags, `smulh`
  and a shift to the left and back.  `smallint_primitives_exact`: both give the integer
  result when it fits in 62 bits, and both leave memory alone when it does not.
-/
import LivingObjects.Lib.AArch64
import LivingObjects.Txn.Access

namespace LivingObjects.Interp

open LivingObjects.Lib
open LivingObjects.Lib.AArch64
open LivingObjects.VM
open LivingObjects.Txn (untagSmallint)

/-! ## §1. The C interpreter. -/

/-- `tag_smallint`: `((uint64_t)value << SMALLINT_SHIFT) | TAG_SMALLINT`. -/
def tagSmallintWord (value : Int) : Oop :=
  (UInt64.ofBitVec (BitVec.ofInt 64 value) <<< smallintShift) ||| tagSmallint

/-- `PrimitiveResult`, and the `SIGTRAP` raised before `PRIMITIVE_UNSUPPORTED`. -/
inductive PrimitiveResult where
  | succeeded
  | failed
  | unsupported
  | trapped
deriving DecidableEq, Repr

/-- The cases of the switch in `try_smallint_primitive`. -/
inductive SmallintPrimitive where
  | add
  | sub
  | lt
  | eq
  | mul
deriving DecidableEq, Repr

/-- `PRIM_SMALLINT_ADD` to `PRIM_SMALLINT_MUL`. -/
def SmallintPrimitive.number : SmallintPrimitive → UInt64
  | .add => 1
  | .sub => 2
  | .lt => 3
  | .eq => 4
  | .mul => 5

def smallintPrimitives : List SmallintPrimitive := [.add, .sub, .lt, .eq, .mul]

/-- `__builtin_add_overflow` and its like on `int64_t`, from the exact result: whether it
overflows, and the word that is stored. -/
def builtinOverflow (exact : Int) : Bool × Int :=
  (decide (¬ FitsSigned 64 exact), exact.bmod (2 ^ 64))

/-- `fits_smallint`: from `INT64_MIN >> SMALLINT_SHIFT` to `INT64_MAX >> SMALLINT_SHIFT`. -/
def fitsSmallint (value : Int) : Bool :=
  decide (-2 ^ 63 / 4 ≤ value) && decide (value ≤ (2 ^ 63 - 1) / 4)

/-- `replace_receiver_and_arg`; `spPtr` is where the stack pointer is kept. -/
def replaceReceiverAndArg (m : Mem) (spPtr : Nat) (result : Oop) : Mem :=
  let sp := wrap64 ((load64 m spPtr).toNat + 8)
  store64 (store64 m sp result) spPtr (UInt64.ofNat sp)

/-- `if (__builtin_…_overflow(lhs, rhs, &value) || !fits_smallint(value))`, and what follows. -/
def replaceIfFits (m : Mem) (spPtr : Nat) (computed : Bool × Int) : PrimitiveResult × Mem :=
  if computed.1 || !fitsSmallint computed.2 then (.failed, m)
  else (.succeeded, replaceReceiverAndArg m spPtr (tagSmallintWord computed.2))

/-- `try_smallint_primitive`. -/
def trySmallintPrimitive (m : Mem) (spPtr : Nat) (primitive : UInt64) (argCount : Nat) :
    PrimitiveResult × Mem :=
  match smallintPrimitives.find? (fun p => p.number == primitive) with
  | none => (.unsupported, m)
  | some p =>
    if argCount ≠ 1 then (.failed, m)
    else
      let sp := (load64 m spPtr).toNat
      let arg := load64 m sp
      let receiver := load64 m (wrap64 (sp + 8))
      if !isSmallint receiver then (.trapped, m)
      else if !isSmallint arg then (.failed, m)
      else
        let lhs := untagSmallint receiver
        let rhs := untagSmallint arg
        match p with
        | .add => replaceIfFits m spPtr (builtinOverflow (lhs + rhs))
        | .sub => replaceIfFits m spPtr (builtinOverflow (lhs - rhs))
        | .mul => replaceIfFits m spPtr (builtinOverflow (lhs * rhs))
        | .lt =>
          (.succeeded,
            replaceReceiverAndArg m spPtr (if lhs < rhs then taggedTrue else taggedFalse))
        | .eq =>
          (.succeeded,
            replaceReceiverAndArg m spPtr (if lhs = rhs then taggedTrue else taggedFalse))

/-! ## §2. The assembly interpreter. -/

/-- Where the entries branch to. -/
inductive Label where
  | dispatch
  | primitiveFailed
  | primReceiverTypeError
deriving DecidableEq, Repr

/-- `.Lprim_add`. -/
def primAdd : List (Instr Label) :=
  [.ldr 5 19 0,
   .ldr 6 5 0,
   .ldr 7 5 8,
   .and 9 7 (.imm 3),
   .cmp 9 (.imm 1),
   .bCond .ne .primReceiverTypeError,
   .and 9 6 (.imm 3),
   .cmp 9 (.imm 1),
   .bCond .ne .primitiveFailed,
   .asr 6 6 2,
   .asr 7 7 2,
   .adds 8 7 (.reg 6),
   .bCond .vs .primitiveFailed,
   .lsl 9 8 2,
   .asr 10 9 2,
   .cmp 10 (.reg 8),
   .bCond .ne .primitiveFailed,
   .lsl 8 8 2,
   .orr 8 8 (.imm 1),
   .add 5 5 (.imm 16),
   .sub 5 5 (.imm 8),
   .str 8 5 0,
   .str 5 19 0,
   .b .dispatch]

/-- `.Lprim_sub`. -/
def primSub : List (Instr Label) :=
  [.ldr 5 19 0,
   .ldr 6 5 0,
   .ldr 7 5 8,
   .and 9 7 (.imm 3),
   .cmp 9 (.imm 1),
   .bCond .ne .primReceiverTypeError,
   .and 9 6 (.imm 3),
   .cmp 9 (.imm 1),
   .bCond .ne .primitiveFailed,
   .asr 6 6 2,
   .asr 7 7 2,
   .subs 8 7 (.reg 6),
   .bCond .vs .primitiveFailed,
   .lsl 9 8 2,
   .asr 10 9 2,
   .cmp 10 (.reg 8),
   .bCond .ne .primitiveFailed,
   .lsl 8 8 2,
   .orr 8 8 (.imm 1),
   .add 5 5 (.imm 8),
   .str 8 5 0,
   .str 5 19 0,
   .b .dispatch]

/-- `.Lprim_lt`. -/
def primLt : List (Instr Label) :=
  [.ldr 5 19 0,
   .ldr 6 5 0,
   .ldr 7 5 8,
   .and 8 7 (.imm 3),
   .cmp 8 (.imm 1),
   .bCond .ne .primReceiverTypeError,
   .and 8 6 (.imm 3),
   .cmp 8 (.imm 1),
   .bCond .ne .primitiveFailed,
   .cmp 7 (.reg 6),
   .mov 8 (.imm 7),
   .mov 9 (.imm 11),
   .csel 8 8 9 .lt,
   .add 5 5 (.imm 8),
   .str 8 5 0,
   .str 5 19 0,
   .b .dispatch]

/-- `.Lprim_eq`. -/
def primEq : List (Instr Label) :=
  [.ldr 5 19 0,
   .ldr 6 5 0,
   .ldr 7 5 8,
   .and 8 7 (.imm 3),
   .cmp 8 (.imm 1),
   .bCond .ne .primReceiverTypeError,
   .and 8 6 (.imm 3),
   .cmp 8 (.imm 1),
   .bCond .ne .primitiveFailed,
   .cmp 7 (.reg 6),
   .mov 8 (.imm 7),
   .mov 9 (.imm 11),
   .csel 8 8 9 .eq,
   .add 5 5 (.imm 8),
   .str 8 5 0,
   .str 5 19 0,
   .b .dispatch]

/-- `.Lprim_mul`. -/
def primMul : List (Instr Label) :=
  [.ldr 5 19 0,
   .ldr 6 5 0,
   .ldr 7 5 8,
   .and 9 7 (.imm 3),
   .cmp 9 (.imm 1),
   .bCond .ne .primReceiverTypeError,
   .and 9 6 (.imm 3),
   .cmp 9 (.imm 1),
   .bCond .ne .primitiveFailed,
   .asr 6 6 2,
   .asr 7 7 2,
   .mul 8 7 6,
   .smulh 9 7 6,
   .asr 11 8 63,
   .cmp 9 (.reg 11),
   .bCond .ne .primitiveFailed,
   .lsl 9 8 2,
   .asr 10 9 2,
   .cmp 10 (.reg 8),
   .bCond .ne .primitiveFailed,
   .lsl 8 8 2,
   .orr 8 8 (.imm 1),
   .add 5 5 (.imm 8),
   .str 8 5 0,
   .str 5 19 0,
   .b .dispatch]

/-- The code of a primitive. -/
def SmallintPrimitive.code : SmallintPrimitive → List (Instr Label)
  | .add => primAdd
  | .sub => primSub
  | .lt => primLt
  | .eq => primEq
  | .mul => primMul

/-! ## §3. Tagged words. -/

theorem isSmallint_iff (value : Oop) : isSmallint value = true ↔ value.toNat % 4 = 1 := by
  unfold isSmallint
  rw [beq_iff_eq, ← UInt64.toNat_inj, and_tagMask_toNat]
  rfl

/-- A tagged word holds its number times four, plus one. -/
theorem toInt_of_isSmallint {value : Oop} (h : isSmallint value = true) :
    value.toBitVec.toInt = 4 * untagSmallint value + 1 := by
  have hmod : value.toBitVec.toNat % 4 = 1 := (isSmallint_iff value).mp h
  unfold untagSmallint
  rw [BitVec.toInt_eq_toNat_cond]
  split <;> omega

theorem untagSmallint_fits {value : Oop} (h : isSmallint value = true) :
    FitsSigned 62 (untagSmallint value) := by
  have hbounds := toInt_bounds value.toBitVec
  rw [toInt_of_isSmallint h] at hbounds
  unfold FitsSigned
  norm_num at hbounds ⊢
  omega

theorem fitsSmallint_iff (value : Int) : fitsSmallint value = true ↔ FitsSigned 62 value := by
  unfold fitsSmallint FitsSigned
  rw [Bool.and_eq_true, decide_eq_true_iff, decide_eq_true_iff]
  norm_num
  omega

theorem fits64_of_fits62 {value : Int} (h : FitsSigned 62 value) : FitsSigned 64 value := by
  unfold FitsSigned at h ⊢
  norm_num at h ⊢
  omega

/-- The word both interpreters make of a number. -/
theorem tagSmallintWord_toBitVec (value : Int) :
    (tagSmallintWord value).toBitVec = BitVec.ofInt 64 value <<< 2 ||| 1 := by
  unfold tagSmallintWord
  rw [UInt64.toBitVec_or, UInt64.toBitVec_shiftLeft]
  have hshift : smallintShift.toBitVec % 64 = (2 : BitVec 64) := by decide
  rw [hshift]
  rfl

/-- A number that fits comes back from its word. -/
theorem tagSmallintWord_spec {value : Int} (h : FitsSigned 62 value) :
    isSmallint (tagSmallintWord value) = true ∧ untagSmallint (tagSmallintWord value) = value := by
  have hword : (tagSmallintWord value).toBitVec.toNat
      = 4 * (BitVec.ofInt 64 value).toNat % 2 ^ 64 + 1 := by
    rw [tagSmallintWord_toBitVec, BitVec.toNat_or, BitVec.toNat_shiftLeft, Nat.shiftLeft_eq]
    have heven : (BitVec.ofInt 64 value).toNat * 2 ^ 2 % 2 ^ 64
        = ((BitVec.ofInt 64 value).toNat % 2 ^ 62) <<< 2 := by
      rw [Nat.shiftLeft_eq]
      omega
    show (BitVec.ofInt 64 value).toNat * 2 ^ 2 % 2 ^ 64 ||| 1 = _
    rw [heven, ← Nat.shiftLeft_add_eq_or_of_lt (by decide), Nat.shiftLeft_eq]
    omega
  have hsmall : isSmallint (tagSmallintWord value) = true := by
    rw [isSmallint_iff]
    show (tagSmallintWord value).toBitVec.toNat % 4 = 1
    omega
  refine ⟨hsmall, ?_⟩
  have hvalue := toInt_ofInt_of_fits (fits64_of_fits62 h)
  rw [BitVec.toInt_eq_toNat_cond] at hvalue
  unfold untagSmallint
  rw [BitVec.toInt_eq_toNat_cond, hword]
  unfold FitsSigned at h
  norm_num at h hvalue ⊢
  split at hvalue <;> split <;> omega

/-! ## §4. The parts of the assembly code. -/

/-- The first instructions of every entry: load both operands and check their tags, with
`scratch` for the masked words. -/
def loadOperands (scratch : Reg) : List (Instr Label) :=
  [.ldr 5 19 0,
   .ldr 6 5 0,
   .ldr 7 5 8,
   .and scratch 7 (.imm 3),
   .cmp scratch (.imm 1),
   .bCond .ne .primReceiverTypeError,
   .and scratch 6 (.imm 3),
   .cmp scratch (.imm 1),
   .bCond .ne .primitiveFailed]

def untagOperands : List (Instr Label) := [.asr 6 6 2, .asr 7 7 2]

/-- Check that `x8` fits, and tag it. -/
def tagResult : List (Instr Label) :=
  [.lsl 9 8 2,
   .asr 10 9 2,
   .cmp 10 (.reg 8),
   .bCond .ne .primitiveFailed,
   .lsl 8 8 2,
   .orr 8 8 (.imm 1)]

def addResult : List (Instr Label) := [.adds 8 7 (.reg 6), .bCond .vs .primitiveFailed]

def subResult : List (Instr Label) := [.subs 8 7 (.reg 6), .bCond .vs .primitiveFailed]

def mulResult : List (Instr Label) :=
  [.mul 8 7 6,
   .smulh 9 7 6,
   .asr 11 8 63,
   .cmp 9 (.reg 11),
   .bCond .ne .primitiveFailed]

def compareOperands (cond : Cond) : List (Instr Label) :=
  [.cmp 7 (.reg 6), .mov 8 (.imm 7), .mov 9 (.imm 11), .csel 8 8 9 cond]

/-- Store `x8` and the stack pointer in `x5`. -/
def storeResult : List (Instr Label) := [.str 8 5 0, .str 5 19 0, .b .dispatch]

/-- One word is popped; `.Lprim_add` pops two and pushes one. -/
def popWord : List (Instr Label) := [.add 5 5 (.imm 8)]

def popTwoPushOne : List (Instr Label) := [.add 5 5 (.imm 16), .sub 5 5 (.imm 8)]

/-- The registers between the parts. -/
structure Holding (m : Mem) (spPtr sp : BitVec 64) (s : Cpu) : Prop where
  mem : s.mem = m
  spPtr : s.regs 19 = spPtr
  sp : s.regs 5 = sp

/-- Both operands, still tagged or not any more. -/
structure Loaded (m : Mem) (spPtr sp receiver arg : BitVec 64) (s : Cpu) : Prop
    extends Holding m spPtr sp s where
  arg : s.regs 6 = arg
  receiver : s.regs 7 = receiver

/-- A result is ready. -/
structure Ready (m : Mem) (spPtr sp result : BitVec 64) (s : Cpu) : Prop
    extends Holding m spPtr sp s where
  result : s.regs 8 = result

section Parts

variable {m : Mem} {spPtr sp receiver arg : BitVec 64} {s : Cpu}

/-- A masked smallint compares equal with its tag. -/
theorem tagged_eq {value : Oop} (h : isSmallint value = true) :
    (subFlags (value.toBitVec &&& BitVec.ofNat 64 3) (BitVec.ofNat 64 1)).z = true := by
  rw [subFlags_z, decide_eq_true_iff]
  unfold isSmallint at h
  rw [beq_iff_eq, ← UInt64.toBitVec_inj, UInt64.toBitVec_and] at h
  exact h

/-- **The operands** of a primitive, when both are SmallIntegers. -/
theorem loadOperands_reaches {scratch : Reg} (hscratch : scratch = 8 ∨ scratch = 9)
    (ha : isSmallint (load64 s.mem (load64 s.mem (s.regs 19).toNat).toNat) = true)
    (hr : isSmallint (load64 s.mem
      ((load64 s.mem (s.regs 19).toNat).toBitVec + BitVec.ofNat 64 8).toNat) = true) :
    Reaches (loadOperands scratch) s
      (Loaded s.mem (s.regs 19) (load64 s.mem (s.regs 19).toNat).toBitVec
        (load64 s.mem
          ((load64 s.mem (s.regs 19).toNat).toBitVec + BitVec.ofNat 64 8).toNat).toBitVec
        (load64 s.mem (load64 s.mem (s.regs 19).toNat).toNat).toBitVec) := by
  have hta := tagged_eq ha
  have htr := tagged_eq hr
  rcases hscratch with rfl | rfl
  all_goals
    simp only [reaches_iff, loadOperands, AArch64.run, AArch64.step, address, Operand.eval,
      Cond.holds, Cpu.write, Function.update_apply, Fin.isValue, Fin.reduceEq, ↓reduceIte,
      BitVec.add_zero, htr, hta, UInt64.toNat_toBitVec, Bool.not_true, Bool.false_eq_true, true_and]
    exact ⟨⟨rfl, rfl, rfl⟩, rfl, rfl⟩

theorem untagOperands_reaches (h : Loaded m spPtr sp receiver arg s) :
    Reaches untagOperands s
      (Loaded m spPtr sp (receiver.sshiftRight 2) (arg.sshiftRight 2)) := by
  obtain ⟨⟨hmem, hspPtr, hsp⟩, harg, hreceiver⟩ := h
  simp only [reaches_iff, untagOperands, AArch64.run, AArch64.step, Cpu.write,
    Function.update_apply, Fin.isValue, Fin.reduceEq, ↓reduceIte, true_and]
  exact ⟨⟨hmem, hspPtr, hsp⟩, congrArg (BitVec.sshiftRight · 2) harg,
    congrArg (BitVec.sshiftRight · 2) hreceiver⟩

/-- The code leaves the word of `exact` in `x8` if that is a 64-bit number, and fails
otherwise. -/
structure Computes (p : List (Instr Label)) (exact : Int) (m : Mem) (spPtr sp : BitVec 64)
    (s : Cpu) : Prop where
  fits : FitsSigned 64 exact → Reaches p s (Ready m spPtr sp (BitVec.ofInt 64 exact))
  fails : ¬ FitsSigned 64 exact → Leaves p s .primitiveFailed (fun s' => s'.mem = m)

theorem addResult_computes (h : Loaded m spPtr sp receiver arg s) :
    Computes addResult (receiver.toInt + arg.toInt) m spPtr sp s := by
  obtain ⟨⟨hmem, hspPtr, hsp⟩, rfl, rfl⟩ := h
  constructor
  · intro hfits
    have hflag := (saddOverflow_eq_false_iff _ _).mpr hfits
    simp only [reaches_iff, addResult, AArch64.run, AArch64.step, Operand.eval, Cond.holds,
      addFlags, hflag, Cpu.write, Bool.false_eq_true, ↓reduceIte, true_and]
    exact ⟨⟨hmem, hspPtr, hsp⟩, add_eq_ofInt _ _⟩
  · intro hover
    have hflag : (s.regs 7).saddOverflow (s.regs 6) = true := by
      rw [← Bool.not_eq_false, saddOverflow_eq_false_iff]
      exact hover
    simp only [leaves_iff, addResult, AArch64.run, AArch64.step, Operand.eval, Cond.holds, addFlags,
      hflag, Cpu.write, ↓reduceIte, true_and]
    exact hmem

theorem subResult_computes (h : Loaded m spPtr sp receiver arg s) :
    Computes subResult (receiver.toInt - arg.toInt) m spPtr sp s := by
  obtain ⟨⟨hmem, hspPtr, hsp⟩, rfl, rfl⟩ := h
  constructor
  · intro hfits
    have hflag := (ssubOverflow_eq_false_iff _ _).mpr hfits
    simp only [reaches_iff, subResult, AArch64.run, AArch64.step, Operand.eval, Cond.holds,
      subFlags, hflag, Cpu.write, Bool.false_eq_true, ↓reduceIte, true_and]
    exact ⟨⟨hmem, hspPtr, hsp⟩, sub_eq_ofInt _ _⟩
  · intro hover
    have hflag : (s.regs 7).ssubOverflow (s.regs 6) = true := by
      rw [← Bool.not_eq_false, ssubOverflow_eq_false_iff]
      exact hover
    simp only [leaves_iff, subResult, AArch64.run, AArch64.step, Operand.eval, Cond.holds, subFlags,
      hflag, Cpu.write, ↓reduceIte, true_and]
    exact hmem

/-- The high half of the product is compared with the sign of the low half. -/
theorem mulResult_computes (h : Loaded m spPtr sp receiver arg s) :
    Computes mulResult (receiver.toInt * arg.toInt) m spPtr sp s := by
  obtain ⟨⟨hmem, hspPtr, hsp⟩, rfl, rfl⟩ := h
  have hflag := subFlags_z (mulHigh (s.regs 7) (s.regs 6))
    ((s.regs 7 * s.regs 6).sshiftRight 63)
  rw [decide_eq_decide.mpr (mulHigh_eq_iff _ _)] at hflag
  constructor
  · intro hfits
    rw [decide_eq_true hfits] at hflag
    simp only [reaches_iff, mulResult, AArch64.run, AArch64.step, Operand.eval, Cond.holds,
      Cpu.write, Function.update_apply, Fin.isValue, Fin.reduceEq, hflag, Bool.not_true,
      Bool.false_eq_true, ↓reduceIte, true_and]
    exact ⟨⟨hmem, hspPtr, hsp⟩, mul_eq_ofInt _ _⟩
  · intro hover
    rw [decide_eq_false hover] at hflag
    simp only [leaves_iff, mulResult, AArch64.run, AArch64.step, Operand.eval, Cond.holds,
      Cpu.write, Function.update_apply, Fin.isValue, Fin.reduceEq, hflag, Bool.not_false,
      ↓reduceIte, true_and]
    exact hmem

theorem compareOperands_reaches (cond : Cond) (h : Loaded m spPtr sp receiver arg s) :
    Reaches (compareOperands cond) s
      (Ready m spPtr sp (if cond.holds (subFlags receiver arg) then 7 else 11)) := by
  obtain ⟨⟨hmem, hspPtr, hsp⟩, rfl, rfl⟩ := h
  simp only [reaches_iff, compareOperands, AArch64.run, AArch64.step, Operand.eval, Cpu.write,
    Function.update_apply, Fin.isValue, Fin.reduceEq, ↓reduceIte, true_and]
  exact ⟨⟨hmem, hspPtr, hsp⟩, rfl⟩

/-- A result of 62 bits is tagged; any other fails. -/
theorem tagResult_spec {value : Int} (hvalue : FitsSigned 64 value)
    (h : Ready m spPtr sp (BitVec.ofInt 64 value) s) :
    (FitsSigned 62 value →
      Reaches tagResult s (Ready m spPtr sp (tagSmallintWord value).toBitVec)) ∧
    (¬ FitsSigned 62 value → Leaves tagResult s .primitiveFailed (fun s' => s'.mem = m)) := by
  obtain ⟨⟨hmem, hspPtr, hsp⟩, hresult⟩ := h
  have hshifted := asr_lsl_eq_iff (BitVec.ofInt 64 value)
  rw [toInt_ofInt_of_fits hvalue] at hshifted
  have hflag := subFlags_z ((BitVec.ofInt 64 value <<< 2).sshiftRight 2) (BitVec.ofInt 64 value)
  rw [decide_eq_decide.mpr hshifted] at hflag
  constructor
  · intro hfits
    rw [decide_eq_true hfits] at hflag
    simp only [reaches_iff, tagResult, AArch64.run, AArch64.step, Operand.eval, Cond.holds,
      Cpu.write, Function.update_apply, Fin.isValue, Fin.reduceEq, hresult, hflag, Bool.not_true,
      Bool.false_eq_true, ↓reduceIte, true_and]
    exact ⟨⟨hmem, hspPtr, hsp⟩, (tagSmallintWord_toBitVec value).symm⟩
  · intro hover
    rw [decide_eq_false hover] at hflag
    simp only [leaves_iff, tagResult, AArch64.run, AArch64.step, Operand.eval, Cond.holds,
      Cpu.write, Function.update_apply, Fin.isValue, Fin.reduceEq, hresult, hflag, Bool.not_false,
      ↓reduceIte, true_and]
    exact hmem

theorem popWord_reaches {result : BitVec 64} (h : Ready m spPtr sp result s) :
    Reaches popWord s (Ready m spPtr (sp + 8) result) := by
  obtain ⟨⟨hmem, hspPtr, hsp⟩, hresult⟩ := h
  simp only [reaches_iff, popWord, AArch64.run, AArch64.step, Operand.eval, Cpu.write, true_and]
  exact ⟨⟨hmem, hspPtr, congrArg (· + BitVec.ofNat 64 8) hsp⟩, hresult⟩

theorem popTwoPushOne_reaches {result : BitVec 64} (h : Ready m spPtr sp result s) :
    Reaches popTwoPushOne s (Ready m spPtr (sp + 8) result) := by
  obtain ⟨⟨hmem, hspPtr, hsp⟩, hresult⟩ := h
  simp only [reaches_iff, popTwoPushOne, AArch64.run, AArch64.step, Operand.eval, Cpu.write,
    Function.update_self, true_and]
  refine ⟨⟨hmem, hspPtr, ?_⟩, hresult⟩
  show s.regs 5 + 16#64 - 8#64 = sp + 8
  rw [hsp]
  bv_omega

theorem storeResult_leaves {result : BitVec 64} (h : Ready m spPtr sp result s) :
    Leaves storeResult s .dispatch (fun s' =>
      s'.mem = store64 (store64 m sp.toNat ⟨result⟩) spPtr.toNat ⟨sp⟩) := by
  obtain ⟨⟨hmem, hspPtr, hsp⟩, hresult⟩ := h
  simp only [leaves_iff, storeResult, AArch64.run, AArch64.step, address, BitVec.add_zero, hmem,
    hspPtr, hsp, hresult, true_and]

end Parts

/-! ## §5. Both interpreters. -/

section Runs

variable {m : Mem} {spPtr : Nat}

/-- The stack pointer of the C code and of the assembly code after a primitive. -/
theorem popped_sp (sp : UInt64) :
    (sp.toBitVec + 8).toNat = wrap64 (sp.toNat + 8) ∧
      (⟨sp.toBitVec + 8⟩ : UInt64) = UInt64.ofNat (wrap64 (sp.toNat + 8)) := by
  have hnat : (sp.toBitVec + 8).toNat = wrap64 (sp.toNat + 8) := by
    rw [BitVec.toNat_add]
    rfl
  have hlt : wrap64 (sp.toNat + 8) < 2 ^ 64 := Nat.mod_lt _ (by decide)
  refine ⟨hnat, UInt64.toNat_inj.mp ?_⟩
  rw [toNat_ofNat64 hlt]
  exact hnat

/-- The words a primitive finds on the operand stack. -/
structure SmallintOperands (m : Mem) (spPtr : Nat) (lhs rhs : Int) : Prop where
  arg : isSmallint (load64 m (load64 m spPtr).toNat) = true
  receiver : isSmallint (load64 m (wrap64 ((load64 m spPtr).toNat + 8))) = true
  rhs : untagSmallint (load64 m (load64 m spPtr).toNat) = rhs
  lhs : untagSmallint (load64 m (wrap64 ((load64 m spPtr).toNat + 8))) = lhs

/-- On such operands the C code is one computation and one answer. -/
theorem trySmallintPrimitive_of_operands {lhs rhs : Int} (h : SmallintOperands m spPtr lhs rhs)
    (p : SmallintPrimitive) :
    trySmallintPrimitive m spPtr p.number 1 =
      match p with
      | .add => replaceIfFits m spPtr (builtinOverflow (lhs + rhs))
      | .sub => replaceIfFits m spPtr (builtinOverflow (lhs - rhs))
      | .mul => replaceIfFits m spPtr (builtinOverflow (lhs * rhs))
      | .lt =>
        (.succeeded, replaceReceiverAndArg m spPtr (if lhs < rhs then taggedTrue else taggedFalse))
      | .eq =>
        (.succeeded,
          replaceReceiverAndArg m spPtr (if lhs = rhs then taggedTrue else taggedFalse)) := by
  have hfound : smallintPrimitives.find? (fun q => q.number == p.number) = some p := by
    cases p <;> rfl
  unfold trySmallintPrimitive
  rw [hfound]
  simp only [ne_eq, not_true_eq_false, ↓reduceIte, h.arg, h.receiver, h.lhs, h.rhs,
    Bool.not_true, Bool.false_eq_true]

/-- The C code: the builtins and `fits_smallint` together ask for 62 bits. -/
theorem replaceIfFits_spec (m : Mem) (spPtr : Nat) (value : Int) :
    (FitsSigned 62 value → replaceIfFits m spPtr (builtinOverflow value)
      = (.succeeded, replaceReceiverAndArg m spPtr (tagSmallintWord value))) ∧
    (¬ FitsSigned 62 value → replaceIfFits m spPtr (builtinOverflow value) = (.failed, m)) := by
  unfold replaceIfFits builtinOverflow
  have hwrapped : FitsSigned 64 value → value.bmod (2 ^ 64) = value := by
    intro h
    rw [← BitVec.toInt_ofInt, toInt_ofInt_of_fits h]
  constructor
  · intro hfits
    have hwide := fits64_of_fits62 hfits
    have hsmall := (fitsSmallint_iff value).mpr hfits
    rw [hwrapped hwide, hsmall, decide_eq_false (not_not_intro hwide)]
    rfl
  · intro hover
    by_cases hwide : FitsSigned 64 value
    · have hsmall : fitsSmallint value = false := by
        rw [← Bool.not_eq_true, fitsSmallint_iff]
        exact hover
      rw [hwrapped hwide, hsmall, Bool.not_false, Bool.or_true]
      rfl
    · rw [decide_eq_true hwide]
      rfl

variable {lhs rhs : Int} {s : Cpu}

/-- The assembly code up to the operands. -/
theorem SmallintOperands.loaded (h : SmallintOperands m spPtr lhs rhs) (hmem : s.mem = m)
    (hx19 : (s.regs 19).toNat = spPtr) {scratch : Reg} (hscratch : scratch = 8 ∨ scratch = 9) :
    Reaches (loadOperands scratch) s
      (Loaded m (s.regs 19) (load64 m spPtr).toBitVec
        (load64 m (wrap64 ((load64 m spPtr).toNat + 8))).toBitVec
        (load64 m (load64 m spPtr).toNat).toBitVec) := by
  subst hmem
  subst hx19
  have haddress := (popped_sp (load64 s.mem (s.regs 19).toNat)).1
  have hreceiver := h.receiver
  rw [← haddress] at hreceiver ⊢
  exact loadOperands_reaches hscratch h.arg hreceiver

theorem SmallintOperands.toInt (h : SmallintOperands m spPtr lhs rhs) :
    (load64 m (wrap64 ((load64 m spPtr).toNat + 8))).toBitVec.toInt = 4 * lhs + 1 ∧
      (load64 m (load64 m spPtr).toNat).toBitVec.toInt = 4 * rhs + 1 := by
  rw [← h.lhs, ← h.rhs]
  exact ⟨toInt_of_isSmallint h.receiver, toInt_of_isSmallint h.arg⟩

/-- The assembly code behind the result, whichever way it pops. -/
theorem storeResult_replaces {pop : List (Instr Label)} {result : Oop} {x19 : BitVec 64}
    (hpop : ∀ {sp}, Ready m x19 sp result.toBitVec s →
      Reaches pop s (Ready m x19 (sp + 8) result.toBitVec))
    (h : Ready m x19 (load64 m x19.toNat).toBitVec result.toBitVec s) :
    Leaves (pop ++ storeResult) s .dispatch
      (fun s' => s'.mem = replaceReceiverAndArg m x19.toNat result) := by
  refine (hpop h).append_leaves fun s' hs' => ?_
  obtain ⟨haddress, hword⟩ := popped_sp (load64 m x19.toNat)
  have hstored := storeResult_leaves hs'
  rw [haddress, hword] at hstored
  exact hstored

/-- **The arithmetic entries**, for the instructions that compute and those that pop. -/
theorem arithmetic_leaves {compute pop : List (Instr Label)} {exact : Int}
    (h : SmallintOperands m spPtr lhs rhs) (hmem : s.mem = m) (hx19 : (s.regs 19).toNat = spPtr)
    (hcompute : ∀ {x19 sp receiver arg s'}, Loaded m x19 sp receiver arg s' →
      receiver.toInt = lhs → arg.toInt = rhs → Computes compute exact m x19 sp s')
    (hpop : ∀ {x19 sp result s'}, Ready m x19 sp result s' →
      Reaches pop s' (Ready m x19 (sp + 8) result)) :
    (FitsSigned 62 exact →
      Leaves (loadOperands 9 ++ (untagOperands ++ (compute ++ (tagResult ++
        (pop ++ storeResult))))) s .dispatch
        (fun s' => s'.mem = replaceReceiverAndArg m spPtr (tagSmallintWord exact))) ∧
    (¬ FitsSigned 62 exact →
      Leaves (loadOperands 9 ++ (untagOperands ++ (compute ++ (tagResult ++
        (pop ++ storeResult))))) s .primitiveFailed (fun s' => s'.mem = m)) := by
  have hloaded := h.loaded hmem hx19 (.inr rfl)
  have huntagged : ∀ {s'}, Loaded m (s.regs 19) (load64 m spPtr).toBitVec
      (load64 m (wrap64 ((load64 m spPtr).toNat + 8))).toBitVec
      (load64 m (load64 m spPtr).toNat).toBitVec s' →
      Reaches untagOperands s' (Computes compute exact m (s.regs 19) (load64 m spPtr).toBitVec) := by
    intro s' hs'
    obtain ⟨hlhs, hrhs⟩ := h.toInt
    obtain ⟨s'', hrun, hs''⟩ := untagOperands_reaches hs'
    refine ⟨s'', hrun, hcompute hs'' ?_ ?_⟩
    · rw [toInt_asr, hlhs]
      omega
    · rw [toInt_asr, hrhs]
      omega
  subst hx19
  constructor
  · intro hfits
    have hwide := fits64_of_fits62 hfits
    refine hloaded.append_leaves fun _ h₁ => ?_
    refine (huntagged h₁).append_leaves fun _ h₂ => ?_
    refine (h₂.fits hwide).append_leaves fun _ h₃ => ?_
    refine ((tagResult_spec hwide h₃).1 hfits).append_leaves fun _ h₄ => ?_
    exact storeResult_replaces hpop h₄
  · intro hover
    refine hloaded.append_leaves fun _ h₁ => ?_
    refine (huntagged h₁).append_leaves fun _ h₂ => ?_
    by_cases hwide : FitsSigned 64 exact
    · refine (h₂.fits hwide).append_leaves fun _ h₃ => ?_
      exact ((tagResult_spec hwide h₃).2 hover).append
    · exact (h₂.fails hwide).append

/-- **The comparing entries**: the tagged words are compared. -/
theorem comparison_leaves (cond : Cond) (answer : Prop) [Decidable answer]
    (h : SmallintOperands m spPtr lhs rhs) (hmem : s.mem = m) (hx19 : (s.regs 19).toNat = spPtr)
    (hcond : ∀ receiver arg : BitVec 64, receiver.toInt = 4 * lhs + 1 → arg.toInt = 4 * rhs + 1 →
      cond.holds (subFlags receiver arg) = decide answer) :
    Leaves (loadOperands 8 ++ (compareOperands cond ++ (popWord ++ storeResult))) s .dispatch
      (fun s' => s'.mem = replaceReceiverAndArg m spPtr
        (if answer then taggedTrue else taggedFalse)) := by
  have hloaded := h.loaded hmem hx19 (.inl rfl)
  obtain ⟨hlhs, hrhs⟩ := h.toInt
  have hanswer := hcond _ _ hlhs hrhs
  subst hx19
  refine hloaded.append_leaves fun _ h₁ => ?_
  refine (compareOperands_reaches cond h₁).append_leaves fun _ h₂ => ?_
  rw [hanswer] at h₂
  have hword : (if decide answer = true then (7 : BitVec 64) else 11)
      = (if answer then taggedTrue else taggedFalse : Oop).toBitVec := by
    by_cases hanswer : answer
    · rw [if_pos hanswer, if_pos (decide_eq_true hanswer)]
      rfl
    · rw [if_neg hanswer, if_neg (by rw [decide_eq_false hanswer]; exact Bool.false_ne_true)]
      rfl
  rw [hword] at h₂
  exact storeResult_replaces popWord_reaches h₂

/-! ## §6. Exactness. -/

/-- The result fits: in 62 bits, for the arithmetic. -/
def SmallintPrimitive.Fits (p : SmallintPrimitive) (lhs rhs : Int) : Prop :=
  match p with
  | .add => FitsSigned 62 (lhs + rhs)
  | .sub => FitsSigned 62 (lhs - rhs)
  | .mul => FitsSigned 62 (lhs * rhs)
  | .lt | .eq => True

/-- What a primitive has to answer. -/
def SmallintPrimitive.Answers (p : SmallintPrimitive) (lhs rhs : Int) (result : Oop) : Prop :=
  match p with
  | .add => isSmallint result = true ∧ untagSmallint result = lhs + rhs
  | .sub => isSmallint result = true ∧ untagSmallint result = lhs - rhs
  | .mul => isSmallint result = true ∧ untagSmallint result = lhs * rhs
  | .lt => result = if lhs < rhs then taggedTrue else taggedFalse
  | .eq => result = if lhs = rhs then taggedTrue else taggedFalse

/-- Both operands are words of the address space, and the stack pointer is kept elsewhere. -/
structure StackPlaced (m : Mem) (spPtr : Nat) : Prop where
  room : (load64 m spPtr).toNat + 16 ≤ 2 ^ 64
  apart : spPtr + 8 ≤ (load64 m spPtr).toNat + 8 ∨ (load64 m spPtr).toNat + 16 ≤ spPtr

/-- The result has taken the place of both operands, and nothing else has changed. -/
structure Replaced (m : Mem) (spPtr : Nat) (result : Oop) (m' : Mem) : Prop where
  sp : (load64 m' spPtr).toNat = (load64 m spPtr).toNat + 8
  top : load64 m' (load64 m' spPtr).toNat = result
  others : ∀ a, (a < spPtr ∨ spPtr + 8 ≤ a) →
    (a < (load64 m spPtr).toNat + 8 ∨ (load64 m spPtr).toNat + 16 ≤ a) → m' a = m a

theorem StackPlaced.replaced (h : StackPlaced m spPtr) (result : Oop) :
    Replaced m spPtr result (replaceReceiverAndArg m spPtr result) := by
  obtain ⟨hroom, hapart⟩ := h
  have hwrap : wrap64 ((load64 m spPtr).toNat + 8) = (load64 m spPtr).toNat + 8 :=
    wrap64_of_lt (by omega)
  have hsp : (load64 (replaceReceiverAndArg m spPtr result) spPtr).toNat
      = (load64 m spPtr).toNat + 8 := by
    unfold replaceReceiverAndArg
    rw [hwrap, load64_store64_self, toNat_ofNat64 (by omega)]
  refine ⟨hsp, ?_, ?_⟩
  · rw [hsp]
    unfold replaceReceiverAndArg
    rw [hwrap, load64_store64_of_disjoint _ _ (by omega), load64_store64_self]
  · intro a hcell hplace
    unfold replaceReceiverAndArg
    rw [hwrap, store64_of_out _ _ hcell, store64_of_out _ _ hplace]

theorem arithmetic_exact {value : Int} {code : List (Instr Label)} (hplaced : StackPlaced m spPtr)
    (hcode : (FitsSigned 62 value → Leaves code s .dispatch
        (fun s' => s'.mem = replaceReceiverAndArg m spPtr (tagSmallintWord value))) ∧
      (¬ FitsSigned 62 value → Leaves code s .primitiveFailed (fun s' => s'.mem = m))) :
    (FitsSigned 62 value → ∃ result m', (isSmallint result = true ∧ untagSmallint result = value) ∧
      Replaced m spPtr result m' ∧
      replaceIfFits m spPtr (builtinOverflow value) = (.succeeded, m') ∧
      (AArch64.run code s).1 = some .dispatch ∧ (AArch64.run code s).2.mem = m') ∧
    (¬ FitsSigned 62 value → replaceIfFits m spPtr (builtinOverflow value) = (.failed, m) ∧
      (AArch64.run code s).1 = some .primitiveFailed ∧ (AArch64.run code s).2.mem = m) := by
  obtain ⟨hsucceeds, hfails⟩ := replaceIfFits_spec m spPtr value
  constructor
  · intro hfits
    exact ⟨_, _, tagSmallintWord_spec hfits, hplaced.replaced _, hsucceeds hfits,
      leaves_iff.mp (hcode.1 hfits)⟩
  · intro hover
    exact ⟨hfails hover, leaves_iff.mp (hcode.2 hover)⟩

theorem comparison_exact {answer : Prop} [Decidable answer] {code : List (Instr Label)}
    (hplaced : StackPlaced m spPtr)
    (hcode : Leaves code s .dispatch (fun s' => s'.mem = replaceReceiverAndArg m spPtr
      (if answer then taggedTrue else taggedFalse))) :
    ∃ result m', result = (if answer then taggedTrue else taggedFalse) ∧
      Replaced m spPtr result m' ∧
      ((PrimitiveResult.succeeded, replaceReceiverAndArg m spPtr
        (if answer then taggedTrue else taggedFalse)) : PrimitiveResult × Mem) = (.succeeded, m') ∧
      (AArch64.run code s).1 = some .dispatch ∧ (AArch64.run code s).2.mem = m' :=
  ⟨_, _, rfl, hplaced.replaced _, rfl, leaves_iff.mp hcode⟩

/-- **Exact SmallInteger arithmetic.**  For any two SmallIntegers on the operand stack, the
C code and the assembly code both replace them by the exact result if that fits in 62
bits, and otherwise both fail with memory as it was; less-than and equality always
answer. -/
theorem smallint_primitives_exact (p : SmallintPrimitive) (h : SmallintOperands m spPtr lhs rhs)
    (hplaced : StackPlaced m spPtr) (hmem : s.mem = m) (hx19 : (s.regs 19).toNat = spPtr) :
    (p.Fits lhs rhs → ∃ result m', p.Answers lhs rhs result ∧ Replaced m spPtr result m' ∧
      trySmallintPrimitive m spPtr p.number 1 = (.succeeded, m') ∧
      (AArch64.run p.code s).1 = some .dispatch ∧ (AArch64.run p.code s).2.mem = m') ∧
    (¬ p.Fits lhs rhs → trySmallintPrimitive m spPtr p.number 1 = (.failed, m) ∧
      (AArch64.run p.code s).1 = some .primitiveFailed ∧ (AArch64.run p.code s).2.mem = m) := by
  rw [trySmallintPrimitive_of_operands h p]
  cases p with
  | add =>
    have hcode := arithmetic_leaves h hmem hx19
      (fun hl hlhs hrhs => hlhs ▸ hrhs ▸ addResult_computes hl) popTwoPushOne_reaches
    exact arithmetic_exact hplaced hcode
  | sub =>
    have hcode := arithmetic_leaves h hmem hx19
      (fun hl hlhs hrhs => hlhs ▸ hrhs ▸ subResult_computes hl) popWord_reaches
    exact arithmetic_exact hplaced hcode
  | mul =>
    have hcode := arithmetic_leaves h hmem hx19
      (fun hl hlhs hrhs => hlhs ▸ hrhs ▸ mulResult_computes hl) popWord_reaches
    exact arithmetic_exact hplaced hcode
  | lt =>
    have hcode := comparison_leaves .lt (lhs < rhs) h hmem hx19 ?_
    · exact ⟨fun _ => comparison_exact hplaced hcode, fun hover => absurd trivial hover⟩
    · intro receiver arg hlhs hrhs
      show ((subFlags receiver arg).n != (subFlags receiver arg).v) = _
      rw [subFlags_lt, hlhs, hrhs, decide_eq_decide]
      omega
  | eq =>
    have hcode := comparison_leaves .eq (lhs = rhs) h hmem hx19 ?_
    · exact ⟨fun _ => comparison_exact hplaced hcode, fun hover => absurd trivial hover⟩
    · intro receiver arg hlhs hrhs
      show (subFlags receiver arg).z = _
      rw [subFlags_z, decide_eq_decide, ← BitVec.toInt_inj, hlhs, hrhs]
      omega

end Runs

/-- The operand stack at 64, with the receiver 5 under the argument 3; the stack pointer at 0. -/
def fivePushedThree : Mem :=
  store64 (store64 (store64 (fun _ => 0) 0 64) 64 13) 72 21

/-- Registers that hold nothing but the address of the stack pointer. -/
def atFivePushedThree : Cpu :=
  { regs := fun _ => 0, flags := ⟨false, false, false, false⟩, mem := fivePushedThree }

theorem fivePushedThree_operands : SmallintOperands fivePushedThree 0 5 3 := by
  constructor <;> decide +kernel

theorem five_minus_three :
    ∃ result m', SmallintPrimitive.Answers .sub 5 3 result ∧ Replaced fivePushedThree 0 result m' ∧
      trySmallintPrimitive fivePushedThree 0 SmallintPrimitive.sub.number 1 = (.succeeded, m') ∧
      (AArch64.run SmallintPrimitive.sub.code atFivePushedThree).1 = some .dispatch ∧
      (AArch64.run SmallintPrimitive.sub.code atFivePushedThree).2.mem = m' :=
  (smallint_primitives_exact .sub fivePushedThree_operands
    ⟨by decide +kernel, .inl (by decide +kernel)⟩ rfl rfl).1 (by
      show FitsSigned 62 (5 - 3)
      decide)

end LivingObjects.Interp
