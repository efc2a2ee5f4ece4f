/-
  LivingObjects.Lib.AArch64 — straight-line AArch64 code.

  A fragment of A64 on 64-bit registers: loads and stores with an immediate offset,
  the integer operations, the conditional select, and branches that leave the code to
  a label of its client.  Code is a list of instructions; a run ends at the first
  branch that is taken, or behind the last instruction.
-/
import Mathlib
import LivingObjects.Lib.ByteMem

namespace LivingObjects.Lib.AArch64

/-! ## §1. The machine. -/

/-- A general register. -/
abbrev Reg := Fin 31

/-- `NZCV`. -/
structure Flags where
  n : Bool
  z : Bool
  c : Bool
  v : Bool
deriving DecidableEq, Repr

structure Cpu where
  regs : Reg → BitVec 64
  flags : Flags
  mem : Mem

namespace Cpu

/-- Write a register. -/
def write (s : Cpu) (r : Reg) (value : BitVec 64) : Cpu :=
  { s with regs := Function.update s.regs r value }

@[simp] theorem write_self (s : Cpu) (r : Reg) (value : BitVec 64) :
    (s.write r value).regs r = value := Function.update_self ..

theorem write_of_ne (s : Cpu) {r r' : Reg} (value : BitVec 64) (h : r' ≠ r) :
    (s.write r value).regs r' = s.regs r' := Function.update_of_ne h ..

@[simp] theorem write_mem (s : Cpu) (r : Reg) (value : BitVec 64) :
    (s.write r value).mem = s.mem := rfl

@[simp] theorem write_flags (s : Cpu) (r : Reg) (value : BitVec 64) :
    (s.write r value).flags = s.flags := rfl

end Cpu

/-- A second source operand. -/
inductive Operand where
  | reg (r : Reg)
  | imm (n : Nat)
deriving DecidableEq, Repr

inductive Cond where
  | eq
  | ne
  | lt
  | vs
deriving DecidableEq, Repr

/-- The instructions; `L` are the labels outside the code. -/
inductive Instr (L : Type) where
  | ldr (rt rn : Reg) (offset : Nat)
  | str (rt rn : Reg) (offset : Nat)
  | mov (rd : Reg) (op : Operand)
  | and (rd rn : Reg) (op : Operand)
  | orr (rd rn : Reg) (op : Operand)
  | add (rd rn : Reg) (op : Operand)
  | sub (rd rn : Reg) (op : Operand)
  | adds (rd rn : Reg) (op : Operand)
  | subs (rd rn : Reg) (op : Operand)
  | cmp (rn : Reg) (op : Operand)
  | lsl (rd rn : Reg) (shift : Nat)
  | asr (rd rn : Reg) (shift : Nat)
  | mul (rd rn rm : Reg)
  | smulh (rd rn rm : Reg)
  | csel (rd rn rm : Reg) (cond : Cond)
  | bCond (cond : Cond) (target : L)
  | b (target : L)
deriving DecidableEq, Repr

/-! ## §2. Execution. -/

def Operand.eval (s : Cpu) : Operand → BitVec 64
  | .reg r => s.regs r
  | .imm n => BitVec.ofNat 64 n

/-- The flags an addition sets. -/
def addFlags (x y : BitVec 64) : Flags where
  n := (x + y).msb
  z := x + y == 0
  c := x.uaddOverflow y
  v := x.saddOverflow y

/-- The flags a subtraction sets; the carry is a borrow that was not needed. -/
def subFlags (x y : BitVec 64) : Flags where
  n := (x - y).msb
  z := x - y == 0
  c := !x.usubOverflow y
  v := x.ssubOverflow y

def Cond.holds (f : Flags) : Cond → Bool
  | .eq => f.z
  | .ne => !f.z
  | .lt => f.n != f.v
  | .vs => f.v

/-- The address of a load or a store. -/
def address (s : Cpu) (rn : Reg) (offset : Nat) : Nat :=
  (s.regs rn + BitVec.ofNat 64 offset).toNat

/-- The high half of a signed product. -/
def mulHigh (x y : BitVec 64) : BitVec 64 := BitVec.ofInt 64 (x.toInt * y.toInt / 2 ^ 64)

/-- One instruction: the label it leaves for, if it does. -/
def step {L : Type} (s : Cpu) : Instr L → Option L × Cpu
  | .ldr rt rn offset => (none, s.write rt (load64 s.mem (address s rn offset)).toBitVec)
  | .str rt rn offset =>
    (none, { s with mem := store64 s.mem (address s rn offset) ⟨s.regs rt⟩ })
  | .mov rd op => (none, s.write rd (op.eval s))
  | .and rd rn op => (none, s.write rd (s.regs rn &&& op.eval s))
  | .orr rd rn op => (none, s.write rd (s.regs rn ||| op.eval s))
  | .add rd rn op => (none, s.write rd (s.regs rn + op.eval s))
  | .sub rd rn op => (none, s.write rd (s.regs rn - op.eval s))
  | .adds rd rn op =>
    (none, { s.write rd (s.regs rn + op.eval s) with flags := addFlags (s.regs rn) (op.eval s) })
  | .subs rd rn op =>
    (none, { s.write rd (s.regs rn - op.eval s) with flags := subFlags (s.regs rn) (op.eval s) })
  | .cmp rn op => (none, { s with flags := subFlags (s.regs rn) (op.eval s) })
  | .lsl rd rn shift => (none, s.write rd (s.regs rn <<< shift))
  | .asr rd rn shift => (none, s.write rd ((s.regs rn).sshiftRight shift))
  | .mul rd rn rm => (none, s.write rd (s.regs rn * s.regs rm))
  | .smulh rd rn rm => (none, s.write rd (mulHigh (s.regs rn) (s.regs rm)))
  | .csel rd rn rm cond =>
    (none, s.write rd (if cond.holds s.flags then s.regs rn else s.regs rm))
  | .bCond cond target => (if cond.holds s.flags then some target else none, s)
  | .b target => (some target, s)

/-- A run: where it leaves to (`none`: behind the last instruction) and in which state. -/
def run {L : Type} : List (Instr L) → Cpu → Option L × Cpu
  | [], s => (none, s)
  | i :: rest, s =>
    match step s i with
    | (some target, s') => (some target, s')
    | (none, s') => run rest s'

section Run

variable {L : Type} {s s' : Cpu}

theorem run_cons_of_none {i : Instr L} {rest : List (Instr L)} (h : step s i = (none, s')) :
    run (i :: rest) s = run rest s' := by
  rw [run, h]

theorem run_cons_of_some {i : Instr L} {rest : List (Instr L)} {target : L}
    (h : step s i = (some target, s')) : run (i :: rest) s = (some target, s') := by
  rw [run, h]

/-- Code behind code that runs to its end. -/
theorem run_append_of_none {p q : List (Instr L)} (h : run p s = (none, s')) :
    run (p ++ q) s = run q s' := by
  induction p generalizing s with
  | nil =>
    cases h
    rfl
  | cons i rest ih =>
    rcases hstep : step s i with ⟨_ | target, next⟩
    · rw [run_cons_of_none hstep] at h
      rw [List.cons_append, run_cons_of_none hstep]
      exact ih h
    · rw [run_cons_of_some hstep] at h
      cases h

/-- Code behind code that is left is not reached. -/
theorem run_append_of_some {p q : List (Instr L)} {target : L} (h : run p s = (some target, s')) :
    run (p ++ q) s = (some target, s') := by
  induction p generalizing s with
  | nil => cases h
  | cons i rest ih =>
    rcases hstep : step s i with ⟨_ | left, next⟩
    · rw [run_cons_of_none hstep] at h
      rw [List.cons_append, run_cons_of_none hstep]
      exact ih h
    · rw [run_cons_of_some hstep] at h
      rw [List.cons_append, run_cons_of_some hstep]
      exact h

/-- The code runs to its end, in a state with the property. -/
def Reaches (p : List (Instr L)) (s : Cpu) (Q : Cpu → Prop) : Prop :=
  ∃ s', run p s = (none, s') ∧ Q s'

/-- The code is left for the label, in a state with the property. -/
def Leaves (p : List (Instr L)) (s : Cpu) (target : L) (Q : Cpu → Prop) : Prop :=
  ∃ s', run p s = (some target, s') ∧ Q s'

variable {p q : List (Instr L)} {target : L} {P Q : Cpu → Prop}

theorem reaches_iff : Reaches p s Q ↔ (run p s).1 = none ∧ Q (run p s).2 := by
  constructor
  · rintro ⟨s', hrun, hs'⟩
    rw [hrun]
    exact ⟨rfl, hs'⟩
  · rintro ⟨hnone, hs'⟩
    exact ⟨_, Prod.ext hnone rfl, hs'⟩

theorem leaves_iff : Leaves p s target Q ↔ (run p s).1 = some target ∧ Q (run p s).2 := by
  constructor
  · rintro ⟨s', hrun, hs'⟩
    rw [hrun]
    exact ⟨rfl, hs'⟩
  · rintro ⟨hsome, hs'⟩
    exact ⟨_, Prod.ext hsome rfl, hs'⟩

theorem Reaches.append (hp : Reaches p s P) (hq : ∀ s', P s' → Reaches q s' Q) :
    Reaches (p ++ q) s Q := by
  obtain ⟨s', hrun, hs'⟩ := hp
  obtain ⟨s'', hrest, hs''⟩ := hq s' hs'
  exact ⟨s'', (run_append_of_none hrun).trans hrest, hs''⟩

theorem Reaches.append_leaves (hp : Reaches p s P) (hq : ∀ s', P s' → Leaves q s' target Q) :
    Leaves (p ++ q) s target Q := by
  obtain ⟨s', hrun, hs'⟩ := hp
  obtain ⟨s'', hrest, hs''⟩ := hq s' hs'
  exact ⟨s'', (run_append_of_none hrun).trans hrest, hs''⟩

theorem Leaves.append (hp : Leaves p s target P) : Leaves (p ++ q) s target P := by
  obtain ⟨s', hrun, hs'⟩ := hp
  exact ⟨s', run_append_of_some hrun, hs'⟩

end Run

/-! ## §3. What the instructions compute. -/

/-- The words an `n`-bit signed number fits in. -/
def FitsSigned (n : Nat) (value : Int) : Prop := -2 ^ (n - 1) ≤ value ∧ value < 2 ^ (n - 1)

instance (n : Nat) (value : Int) : Decidable (FitsSigned n value) :=
  inferInstanceAs (Decidable (_ ∧ _))

theorem toInt_bounds (x : BitVec 64) : -2 ^ 63 ≤ x.toInt ∧ x.toInt < 2 ^ 63 := by
  have hlow := BitVec.le_two_mul_toInt (x := x)
  have hhigh := BitVec.two_mul_toInt_lt (x := x)
  omega

/-- A number in range is the value of its word. -/
theorem toInt_ofInt_of_fits {value : Int} (h : FitsSigned 64 value) :
    (BitVec.ofInt 64 value).toInt = value := by
  obtain ⟨hlow, hhigh⟩ := h
  rw [BitVec.toInt_ofInt, Int.bmod_def]
  norm_num at hlow hhigh ⊢
  omega

theorem toInt_asr (x : BitVec 64) (shift : Nat) :
    (x.sshiftRight shift).toInt = x.toInt / 2 ^ shift := by
  rw [BitVec.toInt_sshiftRight, Int.shiftRight_eq_div_pow]
  norm_cast

/-- `adds` and `b.vs`: without the flag the sum is exact. -/
theorem saddOverflow_eq_false_iff (x y : BitVec 64) :
    x.saddOverflow y = false ↔ FitsSigned 64 (x.toInt + y.toInt) := by
  unfold BitVec.saddOverflow FitsSigned
  simp only [Bool.or_eq_false_iff, decide_eq_false_iff_not]
  norm_num
  omega

theorem ssubOverflow_eq_false_iff (x y : BitVec 64) :
    x.ssubOverflow y = false ↔ FitsSigned 64 (x.toInt - y.toInt) := by
  unfold BitVec.ssubOverflow FitsSigned
  simp only [Bool.or_eq_false_iff, decide_eq_false_iff_not]
  norm_num
  omega

theorem add_eq_ofInt (x y : BitVec 64) : x + y = BitVec.ofInt 64 (x.toInt + y.toInt) := by
  rw [BitVec.ofInt_add, BitVec.ofInt_toInt, BitVec.ofInt_toInt]

theorem sub_eq_ofInt (x y : BitVec 64) : x - y = BitVec.ofInt 64 (x.toInt - y.toInt) := by
  rw [BitVec.sub_eq_add_neg, Int.sub_eq_add_neg, BitVec.ofInt_add, BitVec.ofInt_neg,
    BitVec.ofInt_toInt, BitVec.ofInt_toInt]

theorem mul_eq_ofInt (x y : BitVec 64) : x * y = BitVec.ofInt 64 (x.toInt * y.toInt) := by
  rw [BitVec.ofInt_mul, BitVec.ofInt_toInt, BitVec.ofInt_toInt]

/-- `smulh` against the sign of the low half: the product fits exactly if they are equal. -/
theorem mulHigh_eq_iff (x y : BitVec 64) :
    mulHigh x y = (x * y).sshiftRight 63 ↔ FitsSigned 64 (x.toInt * y.toInt) := by
  have hx := toInt_bounds x
  have hy := toInt_bounds y
  -- the high half itself is in range
  have hhigh : FitsSigned 64 (x.toInt * y.toInt / 2 ^ 64) := by
    have habove : x.toInt * y.toInt ≤ 2 ^ 126 := by nlinarith
    have hbelow : -2 ^ 126 ≤ x.toInt * y.toInt := by nlinarith
    unfold FitsSigned
    norm_num at habove hbelow ⊢
    omega
  rw [← BitVec.toInt_inj, mulHigh, toInt_ofInt_of_fits hhigh, toInt_asr, mul_eq_ofInt,
    BitVec.toInt_ofInt, Int.bmod_def]
  unfold FitsSigned
  generalize x.toInt * y.toInt = product
  norm_num
  omega

/-- Shifting a number to the left and back: it stays if it fits in the bits that are left. -/
theorem asr_lsl_eq_iff (x : BitVec 64) :
    (x <<< 2).sshiftRight 2 = x ↔ FitsSigned 62 x.toInt := by
  have hx := toInt_bounds x
  have hshift : (x <<< 2).toInt = (4 * x.toInt).bmod (2 ^ 64) := by
    rw [BitVec.shiftLeft_eq_mul_twoPow, mul_eq_ofInt, BitVec.toInt_ofInt, Int.mul_comm]
    rfl
  rw [← BitVec.toInt_inj, toInt_asr, hshift, Int.bmod_def]
  unfold FitsSigned
  norm_num at hx ⊢
  omega

/-- `cmp` and `eq`. -/
theorem subFlags_z (x y : BitVec 64) : (subFlags x y).z = decide (x = y) := by
  show (x - y == 0) = decide (x = y)
  rw [Bool.beq_eq_decide_eq, decide_eq_decide]
  constructor
  · intro h
    bv_omega
  · intro h
    rw [h]
    exact BitVec.sub_self y

/-- `cmp` and `lt`. -/
theorem subFlags_lt (x y : BitVec 64) :
    ((subFlags x y).n != (subFlags x y).v) = decide (x.toInt < y.toInt) := by
  have hx := toInt_bounds x
  have hy := toInt_bounds y
  show ((x - y).msb != x.ssubOverflow y) = _
  rw [BitVec.msb_eq_toInt, sub_eq_ofInt, BitVec.toInt_ofInt, Int.bmod_def]
  by_cases hfits : FitsSigned 64 (x.toInt - y.toInt)
  · rw [(ssubOverflow_eq_false_iff x y).mpr hfits, Bool.bne_false, decide_eq_decide]
    unfold FitsSigned at hfits
    norm_num at hfits ⊢
    omega
  · have hover : x.ssubOverflow y = true := by
      rw [← Bool.not_eq_false, ssubOverflow_eq_false_iff]
      exact hfits
    rw [hover, Bool.bne_true, ← decide_not, decide_eq_decide]
    unfold FitsSigned at hfits
    norm_num at hfits hx hy ⊢
    omega

end LivingObjects.Lib.AArch64
