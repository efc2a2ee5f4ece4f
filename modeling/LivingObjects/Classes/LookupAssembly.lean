/-
  LivingObjects.Classes.LookupAssembly — method lookup in assembly.

  The routines of `lookup.s` on the machine of `Lib.Assembly`, line by line, against their port
  in `lookup.c`.  `_class_lookup` saves the callee's registers on the stack of the processor and
  calls `_md_lookup`; the two together find what `class_lookup` finds, and leave the heap and
  the registers of the caller as they were.
-/
import LivingObjects.Lib.Assembly
import LivingObjects.VM.Macros
import LivingObjects.Classes.MethodDict
import LivingObjects.Txn.Access

namespace LivingObjects.Classes.LookupAssembly

open LivingObjects.Lib
open LivingObjects.Lib.Assembly
open LivingObjects.Lib.AArch64 (subFlags)
open LivingObjects.VM
open LivingObjects.ObjectMemory

/-! ## §1. The code. -/

inductive Label where
  | oopClass
  | loopSpecial
  | loopNil
  | loopTrue
  | loopFalse
  | loopCharacter
  | loopHeap
  | mdLookup
  | mdLoop
  | mdFound
  | mdNotFound
  | classLookup
  | clLoop
  | clSuper
  | clNotFound
  | clDone
deriving DecidableEq, Repr

/-- `_oop_class`. -/
def oopClassLines : Code Label :=
  [ .label .oopClass,
    .tst 0 (.imm 1),
    .bCond .eq .loopHeap,
    .tst 0 (.imm 2),
    .bCond .ne .loopSpecial,
    .ldr 0 1 24,
    .ret,
    .label .loopSpecial,
    .and 2 0 (.imm 0x0F),
    .cmp 2 (.imm 0x0F),
    .bCond .eq .loopCharacter,
    .cmp 0 (.imm 0x03),
    .bCond .eq .loopNil,
    .cmp 0 (.imm 0x07),
    .bCond .eq .loopTrue,
    .cmp 0 (.imm 0x0B),
    .bCond .eq .loopFalse,
    .mov 0 (.imm 0),
    .ret,
    .label .loopNil,
    .ldr 0 1 64,
    .ret,
    .label .loopTrue,
    .ldr 0 1 40,
    .ret,
    .label .loopFalse,
    .ldr 0 1 48,
    .ret,
    .label .loopCharacter,
    .ldr 0 1 56,
    .ret,
    .label .loopHeap,
    .ldr 0 0 0,
    .ret ]

/-- `_md_lookup`. -/
def mdLookupLines : Code Label :=
  [ .label .mdLookup,
    .ldr 2 0 16,
    .add 3 0 (.imm 24),
    .mov 4 (.imm 0),
    .label .mdLoop,
    .cmp 4 (.reg 2),
    .bCond .ge .mdNotFound,
    .ldrAt 5 3 4,
    .cmp 5 (.reg 1),
    .bCond .eq .mdFound,
    .add 4 4 (.imm 2),
    .b .mdLoop,
    .label .mdFound,
    .add 4 4 (.imm 1),
    .ldrAt 0 3 4,
    .ret,
    .label .mdNotFound,
    .mov 0 (.imm 0),
    .ret ]

/-- `_class_lookup`, between its `PROLOGUE` and its `EPILOGUE`. -/
def classLookupLines : Code Label :=
  [ .mov 19 (.reg 1),
    .mov 20 (.reg 0),
    .label .clLoop,
    .cbz 20 .clNotFound,
    .cmp 20 (.imm 0x03),
    .bCond .eq .clNotFound,
    .ldr 0 20 32,
    .cmp 0 (.imm 0x03),
    .bCond .eq .clSuper,
    .mov 1 (.reg 19),
    .bl .mdLookup,
    .cbnz 0 .clDone,
    .label .clSuper,
    .ldr 20 20 24,
    .b .clLoop,
    .label .clNotFound,
    .mov 0 (.imm 0),
    .label .clDone ]

/-- `lookup.s`. -/
def lookupCode : Code Label :=
  oopClassLines ++ mdLookupLines ++
    .label .classLookup :: prologue ++ classLookupLines ++ epilogue ++ [.ret]

/-! ## §2. `_oop_class`. -/

theorem and_three_toNat (x : Oop) : (x &&& 3).toNat = x.toNat % 4 := by
  rw [UInt64.toNat_and]
  exact Nat.and_two_pow_sub_one_eq_mod x.toNat 2

theorem oopClass_lines : lookupCode.from .oopClass =
    .label .oopClass :: .tst 0 (.imm 1) :: .bCond .eq .loopHeap :: .tst 0 (.imm 2) ::
      .bCond .ne .loopSpecial :: .ldr 0 1 24 :: .ret :: lookupCode.from .loopSpecial := rfl

theorem loopSpecial_lines : lookupCode.from .loopSpecial =
    .label .loopSpecial :: .and 2 0 (.imm 0x0F) :: .cmp 2 (.imm 0x0F) ::
      .bCond .eq .loopCharacter :: .cmp 0 (.imm 0x03) :: .bCond .eq .loopNil ::
        .cmp 0 (.imm 0x07) :: .bCond .eq .loopTrue :: .cmp 0 (.imm 0x0B) ::
          .bCond .eq .loopFalse :: .mov 0 (.imm 0) :: .ret :: lookupCode.from .loopNil := rfl

theorem loopHeap_lines : lookupCode.from .loopHeap =
    .label .loopHeap :: .ldr 0 0 0 :: .ret :: lookupCode.from .mdLookup := rfl

/-- What `_oop_class` finds.  The routine tells a heap pointer by its lowest bit, `oop_class` by
the lowest two; a word with the tag of a float is a pointer to the one and nothing to the other. -/
def classOf (m : Mem) (oop classTable : Oop) : Oop :=
  if oop &&& 3 = 2 then load64 m oop.toNat else (Txn.oopClass oop classTable).run m

section OopClass

variable {oop classTable : Oop} {s : State}

theorem load_tableField {field offset : Nat} (hoffset : offset = 24 + 8 * field) :
    s.load (classTable.toBitVec + BitVec.ofNat 64 offset) =
      ((Txn.readField classTable field).run s.mem).toBitVec := by
  refine State.load_of_toNat ?_
  rw [BitVec.toNat_add, BitVec.toNat_ofNat, Nat.add_mod_mod, hoffset]
  unfold objFieldAddr
  rw [← Nat.add_assoc]
  rfl

/-- A branch of `_oop_class` that reads the class table. -/
theorem loads_comesTo {t : State} (field : Nat) {l : Label} {offset : Nat} {rest : Code Label}
    (hlines : lookupCode.from l = .label l :: .ldr 0 1 offset :: .ret :: rest)
    (hoffset : offset = 24 + 8 * field) (htable : s.regs 1 = classTable.toBitVec)
    (hkeeps : Keeps [0, 2] s t) :
    ComesTo lookupCode (lookupCode.from l, t) (returnPoint lookupCode s) fun s' =>
      s'.regs 0 = ((Txn.readField classTable field).run s.mem).toBitVec ∧ Keeps [0, 2] s s' := by
  have hfield := @load_tableField classTable t field offset hoffset
  have htable' : t.regs 1 = classTable.toBitVec := (hkeeps.regs 1 (by decide)).trans htable
  rw [hkeeps.mem] at hfield
  rw [hlines]
  refine .head rfl (.head rfl (.returns ?_ ⟨?_, ?_⟩))
  · simpa using hkeeps.regs 30 (by decide)
  · simpa [htable'] using hfield
  · simpa using hkeeps

/-- `.Loop_special`. -/
theorem loopSpecial_comesTo {t : State} (hoop : s.regs 0 = oop.toBitVec)
    (htable : s.regs 1 = classTable.toBitVec) (htag : oop &&& 3 = 3) (hkeeps : Keeps [2] s t) :
    ComesTo lookupCode (lookupCode.from .loopSpecial, t) (returnPoint lookupCode s) fun s' =>
      s'.regs 0 = (classOf s.mem oop classTable).toBitVec ∧ Keeps [0, 2] s s' := by
  have hcharacter : oop.toBitVec &&& 15#64 = 15#64 ↔ oop &&& 15 = 15 := UInt64.toBitVec_inj
  have hnil : oop.toBitVec = 3#64 ↔ oop = taggedNil := UInt64.toBitVec_inj
  have htrue : oop.toBitVec = 7#64 ↔ oop = taggedTrue := UInt64.toBitVec_inj
  have hfalse : oop.toBitVec = 11#64 ↔ oop = taggedFalse := UInt64.toBitVec_inj
  have hreg : t.regs 0 = oop.toBitVec := (hkeeps.regs 0 (by decide)).trans hoop
  have hkeeps' : Keeps [0, 2] s t := hkeeps.mono (by simp)
  unfold classOf Txn.oopClass
  simp only [htag]
  rw [if_neg (by decide), if_neg (by decide), if_neg (by decide), loopSpecial_lines]
  refine .head rfl (.head rfl (.head rfl ?_))
  by_cases hc : oop &&& 15 = 15
  · rw [if_pos hc]
    refine .taken ?_ (loads_comesTo 4 rfl rfl htable ?_)
    · simp [hreg, hcharacter, hc]
    · simpa using hkeeps'
  rw [if_neg hc]
  refine .notTaken ?_ (.head rfl ?_)
  · simp [hreg, hcharacter, hc]
  by_cases hn : oop = taggedNil
  · rw [if_pos hn]
    refine .taken ?_ (loads_comesTo 5 rfl rfl htable ?_)
    · simpa [hreg, hnil] using hn
    · simpa using hkeeps'
  rw [if_neg hn]
  refine .notTaken ?_ (.head rfl ?_)
  · simp [hreg, hnil, hn]
  by_cases ht : oop = taggedTrue
  · rw [if_pos ht]
    refine .taken ?_ (loads_comesTo 2 rfl rfl htable ?_)
    · simpa [hreg, htrue] using ht
    · simpa using hkeeps'
  rw [if_neg ht]
  refine .notTaken ?_ (.head rfl ?_)
  · simp [hreg, htrue, ht]
  by_cases hf : oop = taggedFalse
  · rw [if_pos hf]
    refine .taken ?_ (loads_comesTo 3 rfl rfl htable ?_)
    · simpa [hreg, hfalse] using hf
    · simpa using hkeeps'
  rw [if_neg hf]
  refine .notTaken ?_ (.head rfl (.returns ?_ ⟨?_, ?_⟩))
  · simp [hreg, hfalse, hf]
  · simpa using hkeeps'.regs 30 (by decide)
  · simp
  · simpa using hkeeps'

/-- `_oop_class`. -/
theorem oopClass_comesTo (hoop : s.regs 0 = oop.toBitVec) (htable : s.regs 1 = classTable.toBitVec) :
    ComesTo lookupCode (lookupCode.from .oopClass, s) (returnPoint lookupCode s) fun s' =>
      s'.regs 0 = (classOf s.mem oop classTable).toBitVec ∧ Keeps [0, 2] s s' := by
  have hlow : oop.toBitVec &&& 1#64 = 0#64 ↔ oop.toNat % 2 = 0 := and_one_eq_zero oop.toBitVec
  have hhigh : oop.toBitVec &&& 2#64 = 0#64 ↔ oop.toNat / 2 % 2 = 0 :=
    and_two_eq_zero oop.toBitVec
  have htags := and_three_toNat oop
  have htagIs : ∀ n : UInt64, oop &&& 3 = n ↔ oop.toNat % 4 = n.toNat := by
    intro n
    rw [← UInt64.toNat_inj, htags]
  rw [oopClass_lines]
  refine .head rfl (.head rfl ?_)
  by_cases hheap : oop.toNat % 2 = 0
  · refine .taken ?_ ?_
    · simp [hoop, hlow, hheap]
    rw [loopHeap_lines]
    refine .head rfl (.head rfl (.returns ?_ ⟨?_, ?_⟩))
    · simp
    · have hclass : classOf s.mem oop classTable = load64 s.mem oop.toNat := by
        unfold classOf Txn.oopClass
        by_cases htwo : oop &&& 3 = 2
        · rw [if_pos htwo]
        · have hobject : oop &&& 3 = 0 := by
            rw [htagIs] at htwo ⊢
            change oop.toNat % 4 ≠ 2 at htwo
            show oop.toNat % 4 = 0
            omega
          rw [if_neg htwo, if_pos hobject]
          rfl
      rw [hclass]
      refine State.load_of_toNat ?_
      simp [hoop]
    · simp
  refine .notTaken ?_ (.head rfl ?_)
  · simp [hoop, hlow, hheap]
  by_cases hspecial : oop.toNat % 4 = 3
  · refine .taken ?_ (loopSpecial_comesTo hoop htable ((htagIs 3).mpr hspecial) ?_)
    · simp [hoop, hhigh]
      omega
    · simp
  have hsmallint : oop &&& 3 = 1 := by
    rw [htagIs]
    show oop.toNat % 4 = 1
    omega
  refine .notTaken ?_ (.head rfl (.returns ?_ ⟨?_, ?_⟩))
  · simp [hoop, hhigh]
    omega
  · simp
  · unfold classOf Txn.oopClass
    rw [hsmallint, if_neg (by decide), if_neg (by decide), if_pos rfl]
    simpa [htable] using @load_tableField classTable s 0 24 rfl
  · simp

end OopClass

/-! ## §3. `_md_lookup`. -/

/-- What `_md_lookup` changes. -/
def mdChanged : List Reg := [0, 2, 3, 4, 5]

theorem mdLoop_lines : lookupCode.from .mdLoop =
    .label .mdLoop :: .cmp 4 (.reg 2) :: .bCond .ge .mdNotFound :: .ldrAt 5 3 4 ::
      .cmp 5 (.reg 1) :: .bCond .eq .mdFound :: .add 4 4 (.imm 2) :: .b .mdLoop ::
        lookupCode.from .mdFound := rfl

theorem mdFound_lines : lookupCode.from .mdFound =
    .label .mdFound :: .add 4 4 (.imm 1) :: .ldrAt 0 3 4 :: .ret ::
      lookupCode.from .mdNotFound := rfl

theorem mdNotFound_lines : lookupCode.from .mdNotFound =
    .label .mdNotFound :: .mov 0 (.imm 0) :: .ret :: lookupCode.from .classLookup := rfl

theorem mdLookup_lines : lookupCode.from .mdLookup =
    .label .mdLookup :: .ldr 2 0 16 :: .add 3 0 (.imm 24) :: .mov 4 (.imm 0) ::
      lookupCode.from .mdLoop := rfl

/-- A dictionary in the registers of `.Lmd_loop`, with the index that is looked at. -/
structure MdLooks (dict : Nat) (selector : Oop) (index : Nat) (s : State) : Prop where
  size : s.regs 2 = (objSize s.mem dict).toBitVec
  slots : (s.regs 3).toNat = objFieldAddr dict 0
  selector : s.regs 1 = selector.toBitVec
  index : (s.regs 4).toNat = index

section Loop

variable {dict : Nat} {selector : Oop} {index : Nat} {s : State}

/-- The field that `[x3, x4, lsl #3]` is. -/
theorem MdLooks.load (hlooks : MdLooks dict selector index s)
    (hroom : dict + 8 * (index + 4) ≤ 2 ^ 64) :
    s.load (s.regs 3 + s.regs 4 <<< 3) = (objField s.mem dict index).toBitVec := by
  have hslots := hlooks.slots
  have hindex := hlooks.index
  unfold objFieldAddr at hslots
  refine State.load_of_toNat ?_
  unfold objFieldAddr
  bv_omega

/-- The test at the head of the loop. -/
theorem mdLoop_test (hlooks : MdLooks dict selector index s)
    (hroom : dict + 8 * ((objSize s.mem dict).toNat + 4) ≤ 2 ^ 64)
    (hindex : index ≤ (objSize s.mem dict).toNat + 1) :
    Cond.ge.holds (subFlags (s.regs 4) (s.regs 2)) =
      decide ((objSize s.mem dict).toNat ≤ index) := by
  have hsize : (s.regs 2).toNat = (objSize s.mem dict).toNat := by
    rw [hlooks.size]
    rfl
  have hat := hlooks.index
  rw [holds_ge, decide_eq_decide, toInt_eq_toNat (by omega), toInt_eq_toNat (by omega)]
  omega

/-- `.Lmd_not_found`. -/
theorem mdLoop_ends (hlooks : MdLooks dict selector index s)
    (hroom : dict + 8 * ((objSize s.mem dict).toNat + 4) ≤ 2 ^ 64)
    (hindex : index ≤ (objSize s.mem dict).toNat + 1)
    (hend : (objSize s.mem dict).toNat ≤ index) :
    ComesTo lookupCode (lookupCode.from .mdLoop, s) (returnPoint lookupCode s) fun s' =>
      s'.regs 0 = 0 ∧ Keeps mdChanged s s' := by
  have htest := (mdLoop_test hlooks hroom hindex).trans (decide_eq_true hend)
  rw [mdLoop_lines]
  refine .head rfl (.head rfl (.taken htest ?_))
  rw [mdNotFound_lines]
  refine .head rfl (.head rfl (.returns ?_ ?_))
  · simp
  · simp [mdChanged]

/-- `.Lmd_found`. -/
theorem mdLoop_finds (hlooks : MdLooks dict selector index s)
    (hroom : dict + 8 * ((objSize s.mem dict).toNat + 4) ≤ 2 ^ 64)
    (hindex : index < (objSize s.mem dict).toNat) (hfound : objField s.mem dict index = selector) :
    ComesTo lookupCode (lookupCode.from .mdLoop, s) (returnPoint lookupCode s) fun s' =>
      s'.regs 0 = (objField s.mem dict (index + 1)).toBitVec ∧ Keeps mdChanged s s' := by
  have htest := (mdLoop_test hlooks hroom (by omega)).trans (decide_eq_false (by omega))
  have hfield := hlooks.load (by omega)
  rw [mdLoop_lines]
  refine .head rfl (.head rfl (.notTaken htest (.head rfl (.head rfl (.taken ?_ ?_)))))
  · simp [hfield, hfound, hlooks.selector]
  · rw [mdFound_lines]
    refine .head rfl (.head rfl (.head rfl (.returns ?_ ⟨?_, ?_⟩)))
    · simp
    · have hslots := hlooks.slots
      have hat := hlooks.index
      unfold objFieldAddr at hslots
      refine State.load_of_toNat ?_
      simp
      unfold objFieldAddr
      bv_omega
    · simp [mdChanged]

/-- The next pair. -/
theorem mdLoop_turns (hlooks : MdLooks dict selector index s)
    (hroom : dict + 8 * ((objSize s.mem dict).toNat + 4) ≤ 2 ^ 64)
    (hindex : index < (objSize s.mem dict).toNat) (hother : objField s.mem dict index ≠ selector) :
    ComesTo lookupCode (lookupCode.from .mdLoop, s) (lookupCode.from .mdLoop) fun s' =>
      MdLooks dict selector (index + 2) s' ∧ Keeps mdChanged s s' := by
  have htest := (mdLoop_test hlooks hroom (by omega)).trans (decide_eq_false (by omega))
  have hfield := hlooks.load (by omega)
  have hslots := hlooks.slots
  have hat := hlooks.index
  rw [mdLoop_lines]
  refine .head rfl (.head rfl (.notTaken htest (.head rfl (.head rfl (.notTaken ?_ ?_)))))
  · simpa [hfield, hlooks.selector, UInt64.toBitVec_inj] using hother
  · refine .head rfl (.head rfl (.here ⟨⟨?_, ?_, ?_, ?_⟩, ?_⟩))
    · simp [hlooks.size]
    · simp [hslots]
    · simp [hlooks.selector]
    · simp
      bv_omega
    · simp [mdChanged]

/-- The loop of `md_lookup`. -/
theorem mdLoop_comesTo (fuel : Nat) (hlooks : MdLooks dict selector index s)
    (hroom : dict + 8 * ((objSize s.mem dict).toNat + 4) ≤ 2 ^ 64)
    (hindex : index ≤ (objSize s.mem dict).toNat + 1)
    (hfuel : (objSize s.mem dict).toNat ≤ index + fuel) :
    ComesTo lookupCode (lookupCode.from .mdLoop, s) (returnPoint lookupCode s) fun s' =>
      s'.regs 0 = (mdLookupFrom s.mem dict selector fuel index).toBitVec ∧
        Keeps mdChanged s s' := by
  induction fuel generalizing index s with
  | zero => exact mdLoop_ends hlooks hroom hindex hfuel
  | succ fuel ih =>
    rw [mdLookupFrom]
    by_cases hmore : index < (objSize s.mem dict).toNat
    · rw [if_pos hmore]
      by_cases hfound : objField s.mem dict index = selector
      · rw [if_pos hfound]
        exact mdLoop_finds hlooks hroom hmore hfound
      · rw [if_neg hfound]
        refine (mdLoop_turns hlooks hroom hmore hfound).andThen fun t hnext => ?_
        obtain ⟨hlooks', hkeeps⟩ := hnext
        have hlater := ih hlooks' (by rw [hkeeps.mem]; exact hroom)
          (by rw [hkeeps.mem]; omega) (by rw [hkeeps.mem]; omega)
        rw [hkeeps.returnPoint (by decide), hkeeps.mem] at hlater
        exact hlater.imp fun u hu => ⟨hu.1, hkeeps.trans hu.2⟩
    · rw [if_neg hmore]
      exact mdLoop_ends hlooks hroom hindex (Nat.not_lt.mp hmore)

end Loop

/-- `_md_lookup` is `md_lookup`. -/
theorem mdLookup_comesTo {s : State} {dict selector : Oop} (hdict : s.regs 0 = dict.toBitVec)
    (hselector : s.regs 1 = selector.toBitVec)
    (hroom : dict.toNat + 8 * ((objSize s.mem dict.toNat).toNat + 4) ≤ 2 ^ 64) :
    ComesTo lookupCode (lookupCode.from .mdLookup, s) (returnPoint lookupCode s) fun s' =>
      s'.regs 0 = (mdLookup s.mem dict.toNat selector).toBitVec ∧ Keeps mdChanged s s' := by
  have haddress : (dict.toBitVec).toNat = dict.toNat := rfl
  have hstart : ComesTo lookupCode (lookupCode.from .mdLookup, s) (lookupCode.from .mdLoop)
      fun s' => MdLooks dict.toNat selector 0 s' ∧ Keeps mdChanged s s' := by
    rw [mdLookup_lines]
    refine .head rfl (.head rfl (.head rfl (.head rfl (.here ⟨⟨?_, ?_, ?_, ?_⟩, ?_⟩))))
    · simp only [State.write_regs, reduceIte, Fin.reduceEq]
      refine State.load_of_toNat ?_
      rw [hdict]
      bv_omega
    · simp only [State.write_regs, reduceIte, Fin.reduceEq, Operand.eval_imm, hdict]
      unfold objFieldAddr
      bv_omega
    · simp [hselector]
    · simp
    · simp [mdChanged]
  refine hstart.andThen fun t ht => ?_
  obtain ⟨hlooks, hkeeps⟩ := ht
  have hloop := mdLoop_comesTo (objSize s.mem dict.toNat).toNat hlooks
    (by rw [hkeeps.mem]; exact hroom) (by omega) (by rw [hkeeps.mem]; omega)
  rw [hkeeps.returnPoint (by decide), hkeeps.mem] at hloop
  exact hloop.imp fun u hu => ⟨hu.1, hkeeps.trans hu.2⟩

/-! ## §4. `_class_lookup`. -/

/-- What `_class_lookup` changes to look into one class, `_md_lookup` included. -/
def turnChanged : List Reg := [0, 1, 2, 3, 4, 5, 30]

/-- What the loop of `_class_lookup` changes. -/
def classChanged : List Reg := 20 :: turnChanged

theorem mem_classChanged : ∀ r ∈ turnChanged, r ∈ classChanged :=
  fun _ hr => List.mem_cons_of_mem _ hr

theorem clLoop_lines : lookupCode.from .clLoop =
    .label .clLoop :: .cbz 20 .clNotFound :: .cmp 20 (.imm 0x03) :: .bCond .eq .clNotFound ::
      .ldr 0 20 32 :: .cmp 0 (.imm 0x03) :: .bCond .eq .clSuper :: .mov 1 (.reg 19) ::
        .bl .mdLookup :: .cbnz 0 .clDone :: lookupCode.from .clSuper := rfl

theorem clSuper_lines : lookupCode.from .clSuper =
    .label .clSuper :: .ldr 20 20 24 :: .b .clLoop :: lookupCode.from .clNotFound := rfl

theorem clNotFound_lines : lookupCode.from .clNotFound =
    .label .clNotFound :: .mov 0 (.imm 0) :: lookupCode.from .clDone := rfl

theorem clDone_lines : lookupCode.from .clDone = .label .clDone :: (epilogue ++ [.ret]) := rfl

theorem classLookup_lines : lookupCode.from .classLookup =
    .label .classLookup :: (prologue ++ (.mov 19 (.reg 1) :: .mov 20 (.reg 0) ::
      lookupCode.from .clLoop)) := rfl

/-- The class and its dictionary lie in the address space. -/
structure Fits (m : Mem) (klass : Nat) : Prop where
  fields : klass + 40 ≤ 2 ^ 64
  dict : (objField m klass classMethodDict).toNat +
    8 * ((objSize m (objField m klass classMethodDict).toNat).toNat + 4) ≤ 2 ^ 64

/-- The loop of `_class_lookup` has a class in hand. -/
structure ClassLooks (selector klass : Oop) (s : State) : Prop where
  selector : s.regs 19 = selector.toBitVec
  klass : s.regs 20 = klass.toBitVec

section Loop

variable {selector klass : Oop} {s : State}

theorem load_classField {field offset : Nat} (hoffset : offset = 24 + 8 * field) (hroom : klass.toNat + 24 + 8 * field + 8 ≤ 2 ^ 64) :
    s.load (klass.toBitVec + BitVec.ofNat 64 offset) = (objField s.mem klass.toNat field).toBitVec := by
  have haddress : (klass.toBitVec).toNat = klass.toNat := rfl
  refine State.load_of_toNat ?_
  unfold objFieldAddr
  bv_omega

theorem toBitVec_eq_nil {x : Oop} : x.toBitVec = 3#64 ↔ x = taggedNil := UInt64.toBitVec_inj

/-- `.Lcl_super`. -/
theorem clSuper_comesTo (hlooks : ClassLooks selector klass s) (hroom : klass.toNat + 40 ≤ 2 ^ 64) :
    ComesTo lookupCode (lookupCode.from .clSuper, s) (lookupCode.from .clLoop) fun s' =>
      ClassLooks selector (objField s.mem klass.toNat classSuperclass) s' ∧
        Keeps classChanged s s' := by
  have hfield := @load_classField klass s classSuperclass 24 rfl
    (by unfold classSuperclass; omega)
  rw [clSuper_lines]
  refine .head rfl (.head rfl (.head rfl (.here ⟨⟨?_, ?_⟩, ?_⟩)))
  · simp [hlooks.selector]
  · simpa [hlooks.klass] using hfield
  · simp [classChanged, turnChanged]

/-- `.Lcl_not_found`. -/
theorem clNotFound_comesTo :
    ComesTo lookupCode (lookupCode.from .clNotFound, s) (lookupCode.from .clDone) fun s' =>
      s'.regs 0 = 0 ∧ Keeps classChanged s s' := by
  rw [clNotFound_lines]
  refine .head rfl (.head rfl (.here ⟨?_, ?_⟩))
  · simp
  · simp [classChanged, turnChanged]

/-- The chain is at its end. -/
theorem clLoop_ends (hlooks : ClassLooks selector klass s) (hend : klass = 0 ∨ klass = taggedNil) :
    ComesTo lookupCode (lookupCode.from .clLoop, s) (lookupCode.from .clDone) fun s' =>
      s'.regs 0 = 0 ∧ Keeps classChanged s s' := by
  have hreg := hlooks.klass
  rw [clLoop_lines]
  rcases hend with hnull | hnil
  · refine .head rfl (.cbzTaken ?_ clNotFound_comesTo)
    rw [hreg, hnull]
    rfl
  · refine .head rfl (.cbzNotTaken ?_ (.head rfl (.taken ?_ ?_)))
    · rw [hreg, hnil]
      exact fun h => absurd h (by decide)
    · simp [hreg, hnil, taggedNil]
    · exact clNotFound_comesTo.imp fun t ht => ⟨ht.1, ⟨ht.2.mem, ht.2.regs⟩⟩

/-- One class of the chain: its method, or on to its superclass. -/
theorem clLoop_turns (hlooks : ClassLooks selector klass s)
    (hne : ¬ (klass = 0 ∨ klass = taggedNil)) (hfits : Fits s.mem klass.toNat) {place : Code Label}
    {post : State → Prop}
    (hfound : objField s.mem klass.toNat classMethodDict ≠ taggedNil →
      mdLookup s.mem (objField s.mem klass.toNat classMethodDict).toNat selector ≠ 0 →
      ∀ t, t.regs 0 =
        (mdLookup s.mem (objField s.mem klass.toNat classMethodDict).toNat selector).toBitVec →
      Keeps turnChanged s t → ComesTo lookupCode (lookupCode.from .clDone, t) place post)
    (hsuper : ¬ (objField s.mem klass.toNat classMethodDict ≠ taggedNil ∧
        mdLookup s.mem (objField s.mem klass.toNat classMethodDict).toNat selector ≠ 0) →
      ∀ t, Keeps turnChanged s t → ClassLooks selector klass t →
        ComesTo lookupCode (lookupCode.from .clSuper, t) place post) :
    ComesTo lookupCode (lookupCode.from .clLoop, s) place post := by
  obtain ⟨hnull, hnil⟩ := not_or.mp hne
  have hreg := hlooks.klass
  have hfield := @load_classField klass s classMethodDict 32 rfl
    (by have := hfits.fields; unfold classMethodDict; omega)
  rw [clLoop_lines]
  refine .head rfl (.cbzNotTaken ?_ (.head rfl (.notTaken ?_ (.head rfl (.head rfl ?_)))))
  · rw [hreg]
    exact fun h => hnull (UInt64.toBitVec_inj.mp h)
  · simpa [hreg, toBitVec_eq_nil] using hnil
  by_cases hdict : objField s.mem klass.toNat classMethodDict = taggedNil
  · refine .taken ?_ (hsuper (fun h => h.1 hdict) _ ?_ ⟨?_, ?_⟩)
    · simpa [hreg, hfield, toBitVec_eq_nil] using hdict
    · simp [turnChanged]
    · simp [hlooks.selector]
    · simp [hreg]
  refine .notTaken ?_ (.head rfl (.call (fun t => t.regs 0 =
    (mdLookup s.mem (objField s.mem klass.toNat classMethodDict).toNat selector).toBitVec ∧
      Keeps turnChanged s t) (lookupCode.drop_from_suffix .clLoop 9) (by decide) ?_ ?_))
  · simpa [hreg, hfield, toBitVec_eq_nil] using hdict
  · intro t link ht hreturn
    have hkeeps : Keeps turnChanged s t := by
      rw [ht]
      simp [turnChanged]
    have hroutine := @mdLookup_comesTo t (objField s.mem klass.toNat classMethodDict) selector
      (by simpa [ht, hreg] using hfield) (by simp [ht, hlooks.selector])
      (by rw [hkeeps.mem]; exact hfits.dict)
    rw [hreturn, hkeeps.mem] at hroutine
    refine hroutine.imp fun u hu => ⟨hu.1, hkeeps.trans (hu.2.mono ?_)⟩
    simp [mdChanged, turnChanged]
  · intro t ht
    obtain ⟨hresult, hkeeps⟩ := ht
    by_cases hmethod : mdLookup s.mem (objField s.mem klass.toNat classMethodDict).toNat selector = 0
    · refine .cbnzNotTaken ?_ (hsuper (fun h => h.2 hmethod) t hkeeps ⟨?_, ?_⟩)
      · rw [hresult, hmethod]
        rfl
      · rw [hkeeps.regs 19 (by decide), hlooks.selector]
      · rw [hkeeps.regs 20 (by decide), hreg]
    · refine .cbnzTaken ?_ (hfound hdict hmethod t hresult hkeeps)
      rw [hresult]
      exact fun h => hmethod (UInt64.toBitVec_inj.mp h)

/-- The loop of `_class_lookup`, up the chain. -/
theorem clLoop_comesTo {chain : List Nat} (hchain : Ancestors s.mem klass chain)
    (hlooks : ClassLooks selector klass s) (hfits : ∀ c ∈ chain, Fits s.mem c) :
    ComesTo lookupCode (lookupCode.from .clLoop, s) (lookupCode.from .clDone) fun s' =>
      (∃ method, classLookup s.mem selector (chain.length + 1) klass = some method ∧
        s'.regs 0 = method.toBitVec) ∧ Keeps classChanged s s' := by
  generalize hm : s.mem = m at hchain hfits ⊢
  induction hchain generalizing s with
  | none hend =>
    refine (clLoop_ends hlooks hend).imp fun t ht => ⟨⟨0, ?_, ht.1⟩, ht.2⟩
    rw [classLookup, if_pos hend]
  | @some klass rest hne _ ih =>
    rw [List.length_cons, classLookup, if_neg hne]
    refine clLoop_turns hlooks hne (hm ▸ hfits _ List.mem_cons_self) ?_ ?_
    · intro hdict hmethod t hresult hkeeps
      rw [hm] at hdict hmethod hresult
      refine .here ⟨⟨_, if_pos ⟨hdict, hmethod⟩, hresult⟩, hkeeps.mono mem_classChanged⟩
    · intro hnone t hkeeps hlooks'
      rw [hm] at hnone
      have hsame : t.mem = m := hkeeps.mem.trans hm
      have hroom := (hfits _ List.mem_cons_self).fields
      refine (clSuper_comesTo hlooks' hroom).andThen fun u hu => ?_
      obtain ⟨hlooks'', hkeeps'⟩ := hu
      rw [hsame] at hlooks''
      have hlater := ih hlooks'' (hkeeps'.mem.trans hsame)
        fun c hc => hfits c (List.mem_cons_of_mem _ hc)
      refine hlater.imp fun v hv => ?_
      obtain ⟨⟨method, hlookup, hresult⟩, hkeeps''⟩ := hv
      refine ⟨⟨method, ?_, hresult⟩, (hkeeps.mono mem_classChanged).trans (hkeeps'.trans hkeeps'')⟩
      rw [← hlookup]
      exact if_neg hnone

end Loop

/-! ## §5. The stack of the processor. -/

/-- What a lookup reads of a class lies outside the bytes that the prologue stores to. -/
def OffStack (top : Nat) (m : Mem) (klass : Nat) : Prop :=
  ∀ a, (objFieldAddr klass 0 ≤ a ∧ a < objFieldAddr klass 2) ∨
    ((objField m klass classMethodDict).toNat + 16 ≤ a ∧
      a < objFieldAddr (objField m klass classMethodDict).toNat
        ((objSize m (objField m klass classMethodDict).toNat).toNat + 1)) →
    a < top - 96 ∨ top ≤ a

/-- A class and its dictionary are the same in two memories. -/
structure SameClass (m m' : Mem) (klass : Nat) : Prop where
  superclass : objField m' klass classSuperclass = objField m klass classSuperclass
  dict : objField m' klass classMethodDict = objField m klass classMethodDict
  size : objSize m' (objField m klass classMethodDict).toNat =
    objSize m (objField m klass classMethodDict).toNat
  entries : ∀ i ≤ (objSize m (objField m klass classMethodDict).toNat).toNat,
    objField m' (objField m klass classMethodDict).toNat i =
      objField m (objField m klass classMethodDict).toNat i

section Same

variable {m m' : Mem} {klass : Nat}

theorem OffStack.same {top : Nat} (hoff : OffStack top m klass)
    (hmem : ∀ a, a < top - 96 ∨ top ≤ a → m' a = m a) : SameClass m m' klass where
  superclass := objField_congr fun a hlo hhi => hmem a (hoff a (.inl (by
    unfold classSuperclass objFieldAddr at *
    omega)))
  dict := objField_congr fun a hlo hhi => hmem a (hoff a (.inl (by
    unfold classMethodDict objFieldAddr at *
    omega)))
  size := load64_congr fun i hi => hmem _ (hoff _ (.inr (by
    unfold objFieldAddr
    omega)))
  entries := fun i hi => objField_congr fun a hlo hhi => hmem a (hoff a (.inr (by
    unfold objFieldAddr at *
    omega)))

theorem SameClass.mdLookupFrom (h : SameClass m m' klass) (selector : Oop) (fuel index : Nat) :
    mdLookupFrom m' (objField m klass classMethodDict).toNat selector fuel index =
      mdLookupFrom m (objField m klass classMethodDict).toNat selector fuel index := by
  induction fuel generalizing index with
  | zero => rfl
  | succ fuel ih =>
    rw [Classes.mdLookupFrom, Classes.mdLookupFrom, h.size, ih]
    by_cases hmore : index < (objSize m (objField m klass classMethodDict).toNat).toNat
    · rw [h.entries index (by omega), h.entries (index + 1) hmore]
    · rw [if_neg hmore, if_neg hmore]

theorem SameClass.mdLookup (h : SameClass m m' klass) (selector : Oop) :
    mdLookup m' (objField m klass classMethodDict).toNat selector =
      mdLookup m (objField m klass classMethodDict).toNat selector := by
  unfold Classes.mdLookup
  rw [h.size, h.mdLookupFrom]

theorem SameClass.fits (h : SameClass m m' klass) (hfits : Fits m klass) : Fits m' klass := by
  refine ⟨hfits.fields, ?_⟩
  rw [h.dict, h.size]
  exact hfits.dict

theorem SameClass.classLookup {klass : Oop} {chain : List Nat} (hchain : Ancestors m klass chain)
    (hsame : ∀ c ∈ chain, SameClass m m' c) (selector : Oop) (fuel : Nat) :
    Ancestors m' klass chain ∧
      classLookup m' selector fuel klass = classLookup m selector fuel klass := by
  induction hchain generalizing fuel with
  | none hend =>
    refine ⟨.none hend, ?_⟩
    cases fuel with
    | zero => rfl
    | succ fuel => rw [Classes.classLookup, Classes.classLookup, if_pos hend, if_pos hend]
  | some hne _ ih =>
    have hhead := hsame _ List.mem_cons_self
    have hrest := fun fuel => ih (fun c hc => hsame c (List.mem_cons_of_mem _ hc)) fuel
    refine ⟨.some hne (hhead.superclass ▸ (hrest 0).1), ?_⟩
    cases fuel with
    | zero => rfl
    | succ fuel =>
      rw [Classes.classLookup, Classes.classLookup, if_neg hne, if_neg hne]
      simp only [hhead.superclass, hhead.dict, hhead.mdLookup, (hrest fuel).2]

end Same

/-- **`_class_lookup` is `class_lookup`.**  Up any finite chain of classes that the saved
registers do not overwrite, the routine finds what its port in C finds; the caller has its
registers back, and of the memory only the bytes below its stack pointer change. -/
theorem classLookup_refines {s : State} {selector klass : Oop} {chain : List Nat}
    (hklass : s.regs 0 = klass.toBitVec) (hselector : s.regs 1 = selector.toBitVec)
    (hroom : 96 ≤ (s.regs sp).toNat) (hchain : Ancestors s.mem klass chain)
    (hfits : ∀ c ∈ chain, Fits s.mem c ∧ OffStack (s.regs sp).toNat s.mem c) :
    ComesTo lookupCode (lookupCode.from .classLookup, s) (returnPoint lookupCode s) fun s' =>
      classLookup s.mem selector (chain.length + 1) klass = some ⟨s'.regs 0⟩ ∧
        (∀ r : Reg, 19 ≤ r → s'.regs r = s.regs r) ∧
        ∀ a, a < (s.regs sp).toNat - 96 ∨ (s.regs sp).toNat ≤ a → s'.mem a = s.mem a := by
  rw [classLookup_lines]
  refine .head rfl ((prologue_comesTo hroom).andThen fun t ht => ?_)
  obtain ⟨hsp, hregs, hmem, hsaved⟩ := ht
  have hsame : ∀ c ∈ chain, SameClass s.mem t.mem c :=
    fun c hc => (hfits c hc).2.same hmem
  obtain ⟨hchain', hlookup'⟩ := SameClass.classLookup hchain hsame selector (chain.length + 1)
  -- the selector and the class go to registers that calls leave alone
  refine .head rfl (.head rfl ?_)
  refine (@clLoop_comesTo selector klass _ chain ?_ ⟨?_, ?_⟩ ?_).andThen fun u hu => ?_
  · exact hchain'
  · simp [hregs 1 (by decide), hselector]
  · simp [hregs 0 (by decide), hklass]
  · exact fun c hc => (hsame c hc).fits (hfits c hc).1
  obtain ⟨⟨method, hlookup, hresult⟩, hkeeps⟩ := hu
  have humem : u.mem = t.mem := hkeeps.mem
  have husp : (u.regs sp).toNat = (s.regs sp).toNat - 96 := by
    rw [hkeeps.regs sp (by decide), ← hsp]
    rfl
  rw [clDone_lines]
  refine .head rfl ((epilogue_comesTo hroom husp (humem ▸ hsaved)).andThen fun v hv => ?_)
  obtain ⟨hvmem, hsavedRegs, hvregs⟩ := hv
  refine .returns (hsavedRegs 30 (by decide)) ⟨?_, hsavedRegs, fun a ha => ?_⟩
  · rw [hvregs 0 (by decide), hresult, ← hlookup']
    exact hlookup
  · rw [hvmem, humem]
    exact hmem a ha

/-- A class at 4096 without a superclass, with one method. -/
def oneClass : State where
  regs r := if r = 0 then 4096 else if r = 1 then 5 else if r = sp then 65536 else 0
  flags := ⟨false, false, false, false⟩
  mem := [(4120, 3), (4128, 8192), (8208, 2), (8216, 5), (8224, 40000)].foldl
    (fun m p => store64 m p.1 p.2) fun _ => 0

theorem oneClass_fields : objField oneClass.mem 4096 classSuperclass = taggedNil ∧
    objField oneClass.mem 4096 classMethodDict = 8192 ∧ objSize oneClass.mem 8192 = 2 := by
  refine ⟨by decide, by decide, by decide⟩

theorem oneClass_found :
    ComesTo lookupCode (lookupCode.from .classLookup, oneClass) (returnPoint lookupCode oneClass)
      fun s' => classLookup oneClass.mem 5 2 4096 = some ⟨s'.regs 0⟩ ∧
        (∀ r : Reg, 19 ≤ r → s'.regs r = oneClass.regs r) ∧
        ∀ a, a < 65536 - 96 ∨ 65536 ≤ a → s'.mem a = oneClass.mem a := by
  obtain ⟨hsuper, hdict, hsize⟩ := oneClass_fields
  refine @classLookup_refines oneClass 5 4096 [4096] rfl rfl (by decide) ?_ ?_
  · refine .some (by decide) (.none (.inr hsuper))
  · intro c hc
    rw [List.mem_singleton.mp hc]
    refine ⟨⟨by decide, ?_⟩, ?_⟩
    · rw [hdict]
      show 8192 + 8 * ((objSize oneClass.mem 8192).toNat + 4) ≤ 2 ^ 64
      rw [hsize]
      decide
    · unfold OffStack
      rw [hdict]
      intro a ha
      show a < 65536 - 96 ∨ 65536 ≤ a
      change _ ∨ _ ∧ a < objFieldAddr 8192 ((objSize oneClass.mem 8192).toNat + 1) at ha
      rw [hsize] at ha
      have hroom : (8192 : UInt64).toNat = 8192 := rfl
      have htwo : (2 : UInt64).toNat = 2 := rfl
      unfold objFieldAddr at ha
      omega

end LivingObjects.Classes.LookupAssembly
