/-
  LivingObjects.Lib.Assembly — AArch64 routines with labels, loops and calls.

  Code is a list of lines, an instruction or a label each.  Where the machine stands are the
  lines that are still to come: a branch goes on at its label, `bl` leaves the number of the
  next line in `x30`, and `ret` goes on with the line that `x30` names.  `Reaches` is the
  relation of a place and a state to the later ones; routines are put together with it.
-/
import LivingObjects.Lib.AArch64

namespace LivingObjects.Lib.Assembly

open LivingObjects.Lib.AArch64 (Flags subFlags)

/-! ## §1. The machine. -/

/-- `x0` to `x30`, and the stack pointer. -/
abbrev Reg := Fin 32

/-- There are registers, so that each number names one. -/
instance neZeroRegs : NeZero 32 := ⟨by decide⟩

def sp : Reg := 31

structure State where
  regs : Reg → BitVec 64
  flags : Flags
  mem : Mem

namespace State

def write (s : State) (r : Reg) (value : BitVec 64) : State :=
  { s with regs := Function.update s.regs r value }

def setFlags (s : State) (flags : Flags) : State := { s with flags := flags }

def load (s : State) (address : BitVec 64) : BitVec 64 := (load64 s.mem address.toNat).toBitVec

def store (s : State) (address value : BitVec 64) : State :=
  { s with mem := store64 s.mem address.toNat ⟨value⟩ }

def storeByte (s : State) (address : BitVec 64) (value : UInt8) : State :=
  { s with mem := store8 s.mem address.toNat value }

@[simp] theorem write_regs (s : State) (r r' : Reg) (value : BitVec 64) :
    (s.write r value).regs r' = if r' = r then value else s.regs r' := by
  exact Function.update_apply ..

@[simp] theorem write_mem (s : State) (r : Reg) (value : BitVec 64) :
    (s.write r value).mem = s.mem := rfl

@[simp] theorem write_flags (s : State) (r : Reg) (value : BitVec 64) :
    (s.write r value).flags = s.flags := rfl

@[simp] theorem write_load (s : State) (r : Reg) (value address : BitVec 64) :
    (s.write r value).load address = s.load address := rfl

@[simp] theorem setFlags_regs (s : State) (flags : Flags) : (s.setFlags flags).regs = s.regs := rfl

@[simp] theorem setFlags_mem (s : State) (flags : Flags) : (s.setFlags flags).mem = s.mem := rfl

@[simp] theorem setFlags_flags (s : State) (flags : Flags) :
    (s.setFlags flags).flags = flags := rfl

@[simp] theorem setFlags_load (s : State) (flags : Flags) (address : BitVec 64) :
    (s.setFlags flags).load address = s.load address := rfl

@[simp] theorem store_regs (s : State) (address value : BitVec 64) :
    (s.store address value).regs = s.regs := rfl

@[simp] theorem store_flags (s : State) (address value : BitVec 64) :
    (s.store address value).flags = s.flags := rfl

@[simp] theorem store_mem (s : State) (address value : BitVec 64) :
    (s.store address value).mem = store64 s.mem address.toNat ⟨value⟩ := rfl

@[simp] theorem storeByte_regs (s : State) (address : BitVec 64) (value : UInt8) :
    (s.storeByte address value).regs = s.regs := rfl

@[simp] theorem storeByte_mem (s : State) (address : BitVec 64) (value : UInt8) :
    (s.storeByte address value).mem = store8 s.mem address.toNat value := rfl

end State

/-- A source operand; `xzr` is the immediate 0. -/
inductive Operand where
  | reg (r : Reg)
  | imm (n : Nat)
deriving DecidableEq, Repr

def Operand.eval (s : State) : Operand → BitVec 64
  | .reg r => s.regs r
  | .imm n => BitVec.ofNat 64 n

@[simp] theorem Operand.eval_reg (s : State) (r : Reg) : (Operand.reg r).eval s = s.regs r := rfl

@[simp] theorem Operand.eval_imm (s : State) (n : Nat) :
    (Operand.imm n).eval s = BitVec.ofNat 64 n := rfl

def xzr : Operand := .imm 0

inductive Cond where
  | eq
  | ne
  | hs
  | lo
  | hi
  | lt
  | ge
deriving DecidableEq, Repr

def Cond.holds (f : Flags) : Cond → Bool
  | .eq => f.z
  | .ne => !f.z
  | .hs => f.c
  | .lo => !f.c
  | .hi => f.c && !f.z
  | .lt => f.n != f.v
  | .ge => f.n == f.v

/-! ## §2. Code. -/

/-- A line of code; `L` are the labels. -/
inductive Line (L : Type) where
  | label (l : L)
  /-- `[rn, #offset]`. -/
  | ldr (rt rn : Reg) (offset : Int)
  | str (rt : Operand) (rn : Reg) (offset : Int)
  /-- `[rn, rm, lsl #3]`. -/
  | ldrAt (rt rn rm : Reg)
  | strAt (rt rn rm : Reg)
  /-- `[rn, rm]`, one byte. -/
  | strbAt (rt rn rm : Reg)
  /-- `[rn], #8`. -/
  | ldrNext (rt rn : Reg)
  | strNext (rt : Operand) (rn : Reg)
  /-- `stp r, r', [sp, #-16]!` and `ldp r, r', [sp], #16`. -/
  | push (r r' : Reg)
  | pop (r r' : Reg)
  | mov (rd : Reg) (op : Operand)
  | add (rd rn : Reg) (op : Operand)
  /-- `add rd, rn, rm, lsl #shift`. -/
  | addShifted (rd rn rm : Reg) (shift : Nat)
  | sub (rd rn : Reg) (op : Operand)
  | and (rd rn : Reg) (op : Operand)
  | orr (rd rn : Reg) (op : Operand)
  | bic (rd rn : Reg) (op : Operand)
  | lsl (rd rn : Reg) (shift : Nat)
  | lsr (rd rn : Reg) (shift : Nat)
  | asr (rd rn : Reg) (shift : Nat)
  | cmp (rn : Reg) (op : Operand)
  | tst (rn : Reg) (op : Operand)
  | b (target : L)
  | bCond (cond : Cond) (target : L)
  | cbz (rt : Reg) (target : L)
  | cbnz (rt : Reg) (target : L)
  | tbnz (rt : Reg) (bit : Nat) (target : L)
  | bl (target : L)
  | ret
  | brk (n : Nat)

abbrev Code (L : Type) := List (Line L)

def Line.isLabel {L : Type} [DecidableEq L] (l : L) : Line L → Bool
  | .label l' => l' = l
  | _ => false

/-- The code from a label on. -/
def Code.from {L : Type} [DecidableEq L] (code : Code L) (l : L) : Code L :=
  code.dropWhile fun line => !line.isLabel l

/-- The lines after a label are the end of the code. -/
theorem Code.drop_from_suffix {L : Type} [DecidableEq L] (code : Code L) (l : L) (n : Nat) :
    (code.from l).drop n <:+ code :=
  (List.drop_suffix n _).trans (List.dropWhile_suffix _)

/-- The flags of `tst`. -/
def andFlags (x y : BitVec 64) : Flags where
  n := (x &&& y).msb
  z := x &&& y == 0
  c := false
  v := false

section Run

variable {L : Type} [DecidableEq L] (code : Code L)

/-- Where `ret` goes on. -/
def returnPoint (s : State) : Code L := code.drop (s.regs 30).toNat

/-- One line; `brk` stops. -/
def step : Code L → State → Option (Code L × State)
  | [], _ => none
  | line :: rest, s =>
    match line with
    | .label _ => some (rest, s)
    | .ldr rt rn offset => some (rest, s.write rt (s.load (s.regs rn + BitVec.ofInt 64 offset)))
    | .str rt rn offset => some (rest, s.store (s.regs rn + BitVec.ofInt 64 offset) (rt.eval s))
    | .ldrAt rt rn rm => some (rest, s.write rt (s.load (s.regs rn + s.regs rm <<< 3)))
    | .strAt rt rn rm => some (rest, s.store (s.regs rn + s.regs rm <<< 3) (s.regs rt))
    | .strbAt rt rn rm =>
      some (rest, s.storeByte (s.regs rn + s.regs rm) ⟨(s.regs rt).setWidth 8⟩)
    | .ldrNext rt rn => some (rest, (s.write rt (s.load (s.regs rn))).write rn (s.regs rn + 8))
    | .strNext rt rn => some (rest, (s.store (s.regs rn) (rt.eval s)).write rn (s.regs rn + 8))
    | .push r r' =>
      let low := s.regs sp - 16
      some (rest, ((s.store low (s.regs r)).store (low + 8) (s.regs r')).write sp low)
    | .pop r r' =>
      let low := s.regs sp
      some (rest, ((s.write r (s.load low)).write r' (s.load (low + 8))).write sp (low + 16))
    | .mov rd op => some (rest, s.write rd (op.eval s))
    | .add rd rn op => some (rest, s.write rd (s.regs rn + op.eval s))
    | .addShifted rd rn rm shift => some (rest, s.write rd (s.regs rn + s.regs rm <<< shift))
    | .sub rd rn op => some (rest, s.write rd (s.regs rn - op.eval s))
    | .and rd rn op => some (rest, s.write rd (s.regs rn &&& op.eval s))
    | .orr rd rn op => some (rest, s.write rd (s.regs rn ||| op.eval s))
    | .bic rd rn op => some (rest, s.write rd (s.regs rn &&& ~~~op.eval s))
    | .lsl rd rn shift => some (rest, s.write rd (s.regs rn <<< shift))
    | .lsr rd rn shift => some (rest, s.write rd (s.regs rn >>> shift))
    | .asr rd rn shift => some (rest, s.write rd ((s.regs rn).sshiftRight shift))
    | .cmp rn op => some (rest, s.setFlags (subFlags (s.regs rn) (op.eval s)))
    | .tst rn op => some (rest, s.setFlags (andFlags (s.regs rn) (op.eval s)))
    | .b target => some (code.from target, s)
    | .bCond cond target => some (if cond.holds s.flags then code.from target else rest, s)
    | .cbz rt target => some (if s.regs rt = 0 then code.from target else rest, s)
    | .cbnz rt target => some (if s.regs rt = 0 then rest else code.from target, s)
    | .tbnz rt bit target =>
      some (if (s.regs rt).getLsbD bit then code.from target else rest, s)
    | .bl target =>
      some (code.from target, s.write 30 (BitVec.ofNat 64 (code.length - rest.length)))
    | .ret => some (returnPoint code s, s)
    | .brk _ => none

/-- The places and states that a run comes to. -/
inductive Reaches : Code L × State → Code L × State → Prop
  | refl (c : Code L × State) : Reaches c c
  | head {rest : Code L} {s : State} {next c : Code L × State}
      (hstep : step code rest s = some next) (h : Reaches next c) : Reaches (rest, s) c

namespace Reaches

variable {code} {c d e : Code L × State}

theorem trans (h : Reaches code c d) (h' : Reaches code d e) : Reaches code c e := by
  induction h with
  | refl c => exact h'
  | head hstep _ ih => exact .head hstep (ih h')

end Reaches

/-- A run comes to a place, in a state with this property. -/
def ComesTo (c : Code L × State) (place : Code L) (post : State → Prop) : Prop :=
  ∃ s', Reaches code c (place, s') ∧ post s'

namespace ComesTo

variable {code} {rest place : Code L} {s : State} {post : State → Prop}

theorem here (h : post s) : ComesTo code (place, s) place post := ⟨s, .refl _, h⟩

theorem head {next : Code L × State} (hstep : step code rest s = some next)
    (h : ComesTo code next place post) : ComesTo code (rest, s) place post := by
  obtain ⟨s', hrun, hpost⟩ := h
  exact ⟨s', .head hstep hrun, hpost⟩

/-- One stretch of code after the other. -/
theorem andThen {c : Code L × State} {middle : Code L} {between : State → Prop}
    (h : ComesTo code c middle between)
    (hlater : ∀ t, between t → ComesTo code (middle, t) place post) :
    ComesTo code c place post := by
  obtain ⟨t, hrun, hbetween⟩ := h
  obtain ⟨s', hrun', hpost⟩ := hlater t hbetween
  exact ⟨s', hrun.trans hrun', hpost⟩

theorem imp {c : Code L × State} {post' : State → Prop} (h : ComesTo code c place post)
    (himp : ∀ t, post t → post' t) : ComesTo code c place post' := by
  obtain ⟨s', hrun, hpost⟩ := h
  exact ⟨s', hrun, himp s' hpost⟩

/-- A routine that has left `x30` alone goes back to its caller. -/
theorem returns {s' : State} (h : s'.regs 30 = s.regs 30) (hpost : post s') :
    ComesTo code (.ret :: rest, s') (returnPoint code s) post := by
  refine head ?_ (here hpost)
  unfold returnPoint
  rw [← h]
  rfl

/-- A call: the routine goes back to the line after it. -/
theorem call {target : L} (between : State → Prop) (hsuffix : rest <:+ code)
    (hlength : code.length < 2 ^ 64)
    (hroutine : ∀ t link, t = s.write 30 link → returnPoint code t = rest →
      ComesTo code (code.from target, t) rest between)
    (hlater : ∀ t, between t → ComesTo code (rest, t) place post) :
    ComesTo code (.bl target :: rest, s) place post := by
  refine head rfl (andThen (hroutine _ _ rfl ?_) hlater)
  obtain ⟨before, hcode⟩ := hsuffix
  rw [← hcode] at hlength ⊢
  rw [List.length_append] at hlength
  unfold returnPoint
  rw [State.write_regs, if_pos rfl, BitVec.toNat_ofNat, Nat.mod_eq_of_lt, List.length_append,
    Nat.add_sub_cancel, List.drop_left]
  rw [List.length_append]
  omega

section Branches

variable {cond : Cond} {target : L} {r : Reg} {bit : Nat}

theorem step_bCond : step code (.bCond cond target :: rest) s =
    some (if cond.holds s.flags then code.from target else rest, s) := rfl

theorem step_cbz : step code (.cbz r target :: rest) s =
    some (if s.regs r = 0 then code.from target else rest, s) := rfl

theorem step_cbnz : step code (.cbnz r target :: rest) s =
    some (if s.regs r = 0 then rest else code.from target, s) := rfl

theorem step_tbnz : step code (.tbnz r bit target :: rest) s =
    some (if (s.regs r).getLsbD bit then code.from target else rest, s) := rfl

theorem taken (h : cond.holds s.flags = true)
    (hlater : ComesTo code (code.from target, s) place post) :
    ComesTo code (.bCond cond target :: rest, s) place post :=
  head (by rw [step_bCond, if_pos h]) hlater

theorem notTaken (h : cond.holds s.flags = false)
    (hlater : ComesTo code (rest, s) place post) :
    ComesTo code (.bCond cond target :: rest, s) place post :=
  head (by rw [step_bCond, if_neg (Bool.eq_false_iff.mp h)]) hlater

theorem cbzTaken (h : s.regs r = 0) (hlater : ComesTo code (code.from target, s) place post) :
    ComesTo code (.cbz r target :: rest, s) place post :=
  head (by rw [step_cbz, if_pos h]) hlater

theorem cbzNotTaken (h : s.regs r ≠ 0) (hlater : ComesTo code (rest, s) place post) :
    ComesTo code (.cbz r target :: rest, s) place post :=
  head (by rw [step_cbz, if_neg h]) hlater

theorem cbnzTaken (h : s.regs r ≠ 0) (hlater : ComesTo code (code.from target, s) place post) :
    ComesTo code (.cbnz r target :: rest, s) place post :=
  head (by rw [step_cbnz, if_neg h]) hlater

theorem cbnzNotTaken (h : s.regs r = 0) (hlater : ComesTo code (rest, s) place post) :
    ComesTo code (.cbnz r target :: rest, s) place post :=
  head (by rw [step_cbnz, if_pos h]) hlater

theorem tbnzTaken (h : (s.regs r).getLsbD bit = true)
    (hlater : ComesTo code (code.from target, s) place post) :
    ComesTo code (.tbnz r bit target :: rest, s) place post :=
  head (by rw [step_tbnz, if_pos h]) hlater

theorem tbnzNotTaken (h : (s.regs r).getLsbD bit = false)
    (hlater : ComesTo code (rest, s) place post) :
    ComesTo code (.tbnz r bit target :: rest, s) place post :=
  head (by rw [step_tbnz, if_neg (Bool.eq_false_iff.mp h)]) hlater

end Branches

end ComesTo

end Run

/-! ## §3. Addresses. -/

theorem toNat_sub_ofNat {x : BitVec 64} {n : Nat} (h : n ≤ x.toNat) :
    (x - BitVec.ofNat 64 n).toNat = x.toNat - n := by
  have hx := x.isLt
  rw [BitVec.toNat_sub, BitVec.toNat_ofNat, Nat.mod_eq_of_lt (by omega : n < 2 ^ 64)]
  omega

theorem toNat_add_ofNat {x : BitVec 64} {n : Nat} (h : x.toNat + n < 2 ^ 64) :
    (x + BitVec.ofNat 64 n).toNat = x.toNat + n := by
  rw [BitVec.toNat_add, BitVec.toNat_ofNat, Nat.mod_eq_of_lt (by omega : n < 2 ^ 64),
    Nat.mod_eq_of_lt h]

theorem State.load_of_toNat {s : State} {address : BitVec 64} {a : Nat} (h : address.toNat = a) :
    s.load address = (load64 s.mem a).toBitVec := by
  rw [State.load, h]

theorem and_one_eq_zero (x : BitVec 64) : x &&& 1#64 = 0#64 ↔ x.toNat % 2 = 0 := by
  rw [← BitVec.toNat_inj, BitVec.toNat_and]
  show x.toNat &&& 2 ^ 1 - 1 = 0 ↔ _
  rw [Nat.and_two_pow_sub_one_eq_mod, pow_one]

theorem and_two_eq_zero (x : BitVec 64) : x &&& 2#64 = 0#64 ↔ x.toNat / 2 % 2 = 0 := by
  rw [← BitVec.toNat_inj, BitVec.toNat_and]
  show x.toNat &&& 2 ^ 1 = 0 ↔ _
  rw [Nat.and_two_pow, Nat.testBit_eq_decide_div_mod_eq, pow_one]
  rcases Nat.mod_two_eq_zero_or_one (x.toNat / 2) with hbit | hbit
  · simp [hbit]
  · simp [hbit]

theorem and_three_eq_zero (x : BitVec 64) : x &&& 3#64 = 0#64 ↔ x.toNat % 4 = 0 := by
  rw [← BitVec.toNat_inj, BitVec.toNat_and]
  show x.toNat &&& 2 ^ 2 - 1 = 0 ↔ _
  rw [Nat.and_two_pow_sub_one_eq_mod]

/-- `bic` with 1. -/
theorem toNat_and_not_one (x : BitVec 64) : (x &&& ~~~1#64).toNat = x.toNat - x.toNat % 2 := by
  have hshift : x &&& ~~~1#64 = (x >>> 1) <<< 1 := by
    refine BitVec.eq_of_getLsbD_eq fun i hi => ?_
    cases i with
    | zero => simp
    | succ i =>
      have hone : (1#64).getLsbD (i + 1) = false := by simp
      rw [BitVec.getLsbD_and, BitVec.getLsbD_not, hone, BitVec.getLsbD_shiftLeft,
        BitVec.getLsbD_ushiftRight]
      simp [hi, Nat.add_comm 1 i]
  rw [hshift]
  bv_omega

/-! ## §4. Comparisons. -/

section Comparisons

variable (x y : BitVec 64)

@[simp] theorem holds_eq : Cond.eq.holds (subFlags x y) = decide (x = y) :=
  AArch64.subFlags_z x y

@[simp] theorem holds_ne : Cond.ne.holds (subFlags x y) = decide (x ≠ y) := by
  rw [decide_not, ← holds_eq]
  rfl

theorem subFlags_c : (subFlags x y).c = decide (y.toNat ≤ x.toNat) := by
  show (!decide (x.toNat < y.toNat)) = _
  rw [← decide_not, decide_eq_decide]
  exact Nat.not_lt

@[simp] theorem holds_hs : Cond.hs.holds (subFlags x y) = decide (y.toNat ≤ x.toNat) :=
  subFlags_c x y

@[simp] theorem holds_lo : Cond.lo.holds (subFlags x y) = decide (x.toNat < y.toNat) := by
  show (!(subFlags x y).c) = _
  rw [subFlags_c, ← decide_not, decide_eq_decide]
  exact Nat.not_le

@[simp] theorem holds_hi : Cond.hi.holds (subFlags x y) = decide (y.toNat < x.toNat) := by
  show ((subFlags x y).c && !(subFlags x y).z) = _
  rw [subFlags_c, AArch64.subFlags_z, ← decide_not, ← Bool.decide_and, decide_eq_decide,
    ← BitVec.toNat_inj]
  omega

@[simp] theorem holds_lt : Cond.lt.holds (subFlags x y) = decide (x.toInt < y.toInt) :=
  AArch64.subFlags_lt x y

@[simp] theorem holds_ge : Cond.ge.holds (subFlags x y) = decide (y.toInt ≤ x.toInt) := by
  have hlt := AArch64.subFlags_lt x y
  show ((subFlags x y).n == (subFlags x y).v) = _
  rw [← Bool.not_not ((subFlags x y).n == (subFlags x y).v), ← bne, hlt, ← decide_not,
    decide_eq_decide]
  exact Int.not_lt

@[simp] theorem holds_eq_tst : Cond.eq.holds (andFlags x y) = decide (x &&& y = 0) := by
  show (x &&& y == 0) = _
  exact Bool.beq_eq_decide_eq ..

@[simp] theorem holds_ne_tst : Cond.ne.holds (andFlags x y) = decide (x &&& y ≠ 0) := by
  rw [decide_not, ← holds_eq_tst]
  rfl

/-- Below `2^63` signed and unsigned agree. -/
theorem toInt_eq_toNat {x : BitVec 64} (h : x.toNat < 2 ^ 63) : x.toInt = x.toNat := by
  rw [BitVec.toInt_eq_toNat_cond, if_pos (by omega)]

end Comparisons

/-! ## §5. What a stretch of code leaves alone. -/

/-- The registers that are not in the list are the same. -/
def KeepsRegs (changed : List Reg) (s t : State) : Prop := ∀ r, r ∉ changed → t.regs r = s.regs r

namespace KeepsRegs

variable {changed : List Reg} {s t u : State}

theorem trans (h : KeepsRegs changed s t) (h' : KeepsRegs changed t u) : KeepsRegs changed s u :=
  fun r hr => (h' r hr).trans (h r hr)

theorem mono {changed' : List Reg} (h : KeepsRegs changed s t)
    (hsub : ∀ r ∈ changed, r ∈ changed') : KeepsRegs changed' s t :=
  fun r hr => h r fun hin => hr (hsub r hin)

@[simp] theorem self : KeepsRegs changed s s := fun _ _ => rfl

@[simp] theorem write_iff {r : Reg} (hr : r ∈ changed) (value : BitVec 64) :
    KeepsRegs changed s (t.write r value) ↔ KeepsRegs changed s t := by
  have hsame : ∀ q, q ∉ changed → (t.write r value).regs q = t.regs q := by
    intro q hq
    rw [State.write_regs, if_neg]
    intro heq
    exact hq (heq ▸ hr)
  constructor
  · exact fun h q hq => (hsame q hq).symm.trans (h q hq)
  · exact fun h q hq => (hsame q hq).trans (h q hq)

@[simp] theorem setFlags_iff (flags : Flags) :
    KeepsRegs changed s (t.setFlags flags) ↔ KeepsRegs changed s t := Iff.rfl

@[simp] theorem store_iff (address value : BitVec 64) :
    KeepsRegs changed s (t.store address value) ↔ KeepsRegs changed s t := Iff.rfl

@[simp] theorem storeByte_iff (address : BitVec 64) (value : UInt8) :
    KeepsRegs changed s (t.storeByte address value) ↔ KeepsRegs changed s t := Iff.rfl

theorem returnPoint {L : Type} {code : Code L} (h : KeepsRegs changed s t) (hlink : 30 ∉ changed) :
    returnPoint code t = returnPoint code s := by
  unfold Assembly.returnPoint
  rw [h 30 hlink]

end KeepsRegs

/-- The memory is the same, and so are the registers that are not in the list. -/
structure Keeps (changed : List Reg) (s t : State) : Prop where
  mem : t.mem = s.mem
  regs : KeepsRegs changed s t

namespace Keeps

variable {changed : List Reg} {s t u : State}

theorem trans (h : Keeps changed s t) (h' : Keeps changed t u) : Keeps changed s u :=
  ⟨h'.mem.trans h.mem, h.regs.trans h'.regs⟩

theorem mono {changed' : List Reg} (h : Keeps changed s t) (hsub : ∀ r ∈ changed, r ∈ changed') :
    Keeps changed' s t := ⟨h.mem, h.regs.mono hsub⟩

@[simp] theorem self : Keeps changed s s := ⟨rfl, KeepsRegs.self⟩

@[simp] theorem write_iff {r : Reg} (hr : r ∈ changed) (value : BitVec 64) :
    Keeps changed s (t.write r value) ↔ Keeps changed s t := by
  constructor
  · exact fun h => ⟨h.mem, (KeepsRegs.write_iff hr value).mp h.regs⟩
  · exact fun h => ⟨h.mem, (KeepsRegs.write_iff hr value).mpr h.regs⟩

@[simp] theorem setFlags_iff (flags : Flags) :
    Keeps changed s (t.setFlags flags) ↔ Keeps changed s t :=
  ⟨fun h => ⟨h.mem, h.regs⟩, fun h => ⟨h.mem, h.regs⟩⟩

theorem returnPoint {L : Type} {code : Code L} (h : Keeps changed s t) (hlink : 30 ∉ changed) :
    returnPoint code t = returnPoint code s := h.regs.returnPoint hlink

end Keeps

/-! ## §6. Saving registers. -/

section Saving

variable {L : Type} [DecidableEq L] {code : Code L}

/-- The pairs of registers lie below an address, the first pair on top. -/
def Saved (s : State) (m : Mem) : List (Reg × Reg) → Nat → Prop
  | [], _ => True
  | (r, r') :: rest, top =>
    (load64 m (top - 16)).toBitVec = s.regs r ∧ (load64 m (top - 8)).toBitVec = s.regs r' ∧
      Saved s m rest (top - 16)

/-- Only the words below the address matter, and the registers of the pairs. -/
theorem Saved.congr {s s' : State} {m m' : Mem} {pairs : List (Reg × Reg)} {top : Nat}
    (h : Saved s m pairs top) (hroom : 16 * pairs.length ≤ top)
    (hregs : ∀ p ∈ pairs, s'.regs p.1 = s.regs p.1 ∧ s'.regs p.2 = s.regs p.2)
    (hsame : ∀ a, top - 16 * pairs.length ≤ a → a < top → m' a = m a) :
    Saved s' m' pairs top := by
  induction pairs generalizing top with
  | nil => trivial
  | cons p rest ih =>
    obtain ⟨r, r'⟩ := p
    rw [List.length_cons] at hroom hsame
    obtain ⟨hlow, hhigh, hrest⟩ := h
    obtain ⟨hr, hr'⟩ := hregs (r, r') List.mem_cons_self
    refine ⟨?_, ?_, ih hrest (by omega) (fun p hp => hregs p (List.mem_cons_of_mem _ hp))
      fun a hlo hhi => hsame a (by omega) (by omega)⟩
    · rw [load64_congr fun i hi => hsame _ (by omega) (by omega), hlow]
      exact hr.symm
    · rw [load64_congr fun i hi => hsame _ (by omega) (by omega), hhigh]
      exact hr'.symm

/-- What `stp` with a pre-index leaves. -/
theorem pushes (pairs : List (Reg × Reg)) {s : State} {rest : Code L}
    (hroom : 16 * pairs.length ≤ (s.regs sp).toNat) (hpairs : ∀ p ∈ pairs, p.1 ≠ sp ∧ p.2 ≠ sp) :
    ComesTo code (pairs.map (fun p => .push p.1 p.2) ++ rest, s) rest fun s' =>
      (s'.regs sp).toNat = (s.regs sp).toNat - 16 * pairs.length ∧
      (∀ r, r ≠ sp → s'.regs r = s.regs r) ∧
      (∀ a, a < (s.regs sp).toNat - 16 * pairs.length ∨ (s.regs sp).toNat ≤ a →
        s'.mem a = s.mem a) ∧ Saved s s'.mem pairs (s.regs sp).toNat := by
  induction pairs generalizing s with
  | nil => exact ⟨s, .refl _, rfl, fun _ _ => rfl, fun _ _ => rfl, trivial⟩
  | cons p pairs ih =>
    obtain ⟨r, r'⟩ := p
    rw [List.length_cons] at hroom
    have htop := (s.regs sp).isLt
    have hlow : (s.regs sp - 16).toNat = (s.regs sp).toNat - 16 :=
      @toNat_sub_ofNat _ 16 (by omega)
    have hhigh : (s.regs sp - 16 + 8).toNat = (s.regs sp).toNat - 8 := by
      have hsum : (s.regs sp - 16 + 8).toNat = (s.regs sp - 16).toNat + 8 :=
        @toNat_add_ofNat _ 8 (by omega)
      omega
    generalize hs₁ : ((s.store (s.regs sp - 16) (s.regs r)).store (s.regs sp - 16 + 8)
      (s.regs r')).write sp (s.regs sp - 16) = s₁
    have hsp : (s₁.regs sp).toNat = (s.regs sp).toNat - 16 := by
      rw [← hs₁, State.write_regs, if_pos rfl, hlow]
    have hregs : ∀ q, q ≠ sp → s₁.regs q = s.regs q := by
      intro q hq
      rw [← hs₁, State.write_regs, if_neg hq]
      rfl
    have hmem : s₁.mem = store64 (store64 s.mem ((s.regs sp).toNat - 16) ⟨s.regs r⟩)
        ((s.regs sp).toNat - 8) ⟨s.regs r'⟩ := by
      rw [← hs₁, State.write_mem, State.store_mem, State.store_mem, hlow, hhigh]
    have hlater : ∀ p ∈ pairs, p.1 ≠ sp ∧ p.2 ≠ sp :=
      fun p hp => hpairs p (List.mem_cons_of_mem _ hp)
    obtain ⟨s', hrun, hsp', hregs', hmem', hsaved⟩ := @ih s₁ (by omega) hlater
    rw [hsp] at hsp' hmem' hsaved
    -- the words of this pair are not stored to again
    have hkept : ∀ a, (s.regs sp).toNat - 16 ≤ a → s'.mem a = s₁.mem a :=
      fun a ha => hmem' a (.inr ha)
    refine ⟨s', .head ?_ hrun, ?_, fun q hq => (hregs' q hq).trans (hregs q hq), ?_, ?_, ?_, ?_⟩
    · rw [← hs₁]
      rfl
    · rw [hsp', List.length_cons]
      omega
    · intro a ha
      rw [List.length_cons] at ha
      rw [hmem' a (by omega), hmem, store64_of_out _ _ (by omega), store64_of_out _ _ (by omega)]
    · rw [load64_congr fun i hi => hkept _ (by omega), hmem,
        load64_store64_of_disjoint _ _ (by omega), load64_store64_self]
    · rw [load64_congr fun i hi => hkept _ (by omega), hmem, load64_store64_self]
    · refine hsaved.congr (by omega) (fun p hp => ?_) fun _ _ _ => rfl
      obtain ⟨hne, hne'⟩ := hlater p hp
      exact ⟨(hregs _ hne).symm, (hregs _ hne').symm⟩

/-- What `ldp` with a post-index brings back. -/
theorem pops (pairs : List (Reg × Reg)) {s t : State} {rest : Code L} {top : Nat}
    (hroom : 16 * pairs.length ≤ top) (htop : top < 2 ^ 64)
    (hpairs : ∀ p ∈ pairs, p.1 ≠ sp ∧ p.2 ≠ sp)
    (hsp : (t.regs sp).toNat = top - 16 * pairs.length) (hsaved : Saved s t.mem pairs top) :
    ComesTo code (pairs.reverse.map (fun p => .pop p.1 p.2) ++ rest, t) rest fun t' =>
      (t'.regs sp).toNat = top ∧ t'.mem = t.mem ∧
      (∀ p ∈ pairs, t'.regs p.1 = s.regs p.1 ∧ t'.regs p.2 = s.regs p.2) ∧
      ∀ r, r ≠ sp → (∀ p ∈ pairs, r ≠ p.1 ∧ r ≠ p.2) → t'.regs r = t.regs r := by
  induction pairs generalizing top rest with
  | nil =>
    exact ⟨t, .refl _, hsp, rfl, fun p hp => absurd hp List.not_mem_nil, fun _ _ _ => rfl⟩
  | cons p pairs ih =>
    obtain ⟨r, r'⟩ := p
    rw [List.length_cons] at hroom hsp
    obtain ⟨hlow, hhigh, hsaved⟩ := hsaved
    have hlater : ∀ p ∈ pairs, p.1 ≠ sp ∧ p.2 ≠ sp :=
      fun p hp => hpairs p (List.mem_cons_of_mem _ hp)
    obtain ⟨t₁, hrun, hsp₁, hmem₁, hrestored, hregs₁⟩ :=
      @ih (.pop r r' :: rest) (top - 16) (by omega) (by omega) hlater (by omega) hsaved
    obtain ⟨hr, hr'⟩ := hpairs (r, r') List.mem_cons_self
    have hnext : (t₁.regs sp + 8).toNat = top - 8 := by
      have hsum : (t₁.regs sp + 8).toNat = (t₁.regs sp).toNat + 8 :=
        @toNat_add_ofNat _ 8 (by omega)
      omega
    have hlast : (t₁.regs sp + 16).toNat = top := by
      have hsum : (t₁.regs sp + 16).toNat = (t₁.regs sp).toNat + 16 :=
        @toNat_add_ofNat _ 16 (by omega)
      omega
    generalize ht' : ((t₁.write r (t₁.load (t₁.regs sp))).write r'
      (t₁.load (t₁.regs sp + 8))).write sp (t₁.regs sp + 16) = t'
    have hloaded : t₁.load (t₁.regs sp) = s.regs r ∧ t₁.load (t₁.regs sp + 8) = s.regs r' := by
      unfold State.load
      rw [hsp₁, hnext, hmem₁]
      exact ⟨hlow, hhigh⟩
    have hpair : ∀ q, q ≠ sp → (q = r ∨ q = r') → t'.regs q = s.regs q := by
      intro q hq hor
      rw [← ht', State.write_regs, if_neg hq, State.write_regs, State.write_regs, hloaded.1,
        hloaded.2]
      by_cases heq : q = r'
      · rw [if_pos heq, heq]
      · have hfirst : q = r := hor.resolve_right heq
        rw [if_neg heq, if_pos hfirst, hfirst]
    have hother : ∀ q, q ≠ sp → q ≠ r → q ≠ r' → t'.regs q = t₁.regs q := by
      intro q hq hne hne'
      rw [← ht', State.write_regs, if_neg hq, State.write_regs, if_neg hne', State.write_regs,
        if_neg hne]
    have hrestores : ∀ q, q ≠ sp → t₁.regs q = s.regs q → t'.regs q = s.regs q := by
      intro q hq hsame
      by_cases hor : q = r ∨ q = r'
      · exact hpair q hq hor
      · rw [hother q hq (fun h => hor (.inl h)) fun h => hor (.inr h), hsame]
    refine ⟨t', ?_, ?_, ?_, ?_, ?_⟩
    · rw [List.reverse_cons, List.map_append, List.append_assoc]
      refine hrun.trans (.head ?_ (.refl _))
      rw [← ht']
      rfl
    · rw [← ht', State.write_regs, if_pos rfl, hlast]
    · rw [← ht']
      exact hmem₁
    · intro p hp
      rcases List.mem_cons.mp hp with rfl | hp
      · exact ⟨hpair _ hr (.inl rfl), hpair _ hr' (.inr rfl)⟩
      · obtain ⟨hne, hne'⟩ := hlater p hp
        obtain ⟨hfirst, hsecond⟩ := hrestored p hp
        exact ⟨hrestores _ hne hfirst, hrestores _ hne' hsecond⟩
    · intro q hq hout
      obtain ⟨hne, hne'⟩ := hout (r, r') List.mem_cons_self
      rw [hother q hq hne hne']
      exact hregs₁ q hq fun p hp => hout p (List.mem_cons_of_mem _ hp)

end Saving

end LivingObjects.Lib.Assembly
