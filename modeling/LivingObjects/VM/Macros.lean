/-
  LivingObjects.VM.Macros — the macros of the assembly routines.

  `PROLOGUE` and `EPILOGUE` of `macros.s`: a routine that calls others, or that uses the
  registers which belong to its caller, keeps these on the stack of the processor.
-/
import LivingObjects.Lib.Assembly

namespace LivingObjects.VM

open LivingObjects.Lib
open LivingObjects.Lib.Assembly

/-! ## §1. The macros. -/

/-- The callee-saved registers, the frame pointer and the link register. -/
def savedRegisters : List (Reg × Reg) :=
  [(29, 30), (19, 20), (21, 22), (23, 24), (25, 26), (27, 28)]

/-- `PROLOGUE`. -/
def prologue {L : Type} : Code L := savedRegisters.map fun p => .push p.1 p.2

/-- `EPILOGUE`. -/
def epilogue {L : Type} : Code L := savedRegisters.reverse.map fun p => .pop p.1 p.2

/-- The registers are kept on the stack below this address. -/
abbrev SavedBelow (s : State) (m : Mem) (top : Nat) : Prop := Saved s m savedRegisters top

theorem savedRegisters_ne_sp : ∀ p ∈ savedRegisters, p.1 ≠ sp ∧ p.2 ≠ sp := by
  simp [savedRegisters, sp]

/-- The registers from `x19` on are saved, but for the stack pointer. -/
theorem mem_savedRegisters {r : Reg} (hr : 19 ≤ r) (hsp : r ≠ sp) :
    ∃ p ∈ savedRegisters, r = p.1 ∨ r = p.2 := by
  obtain ⟨n, hn⟩ := r
  simp only [savedRegisters, sp, ne_eq, Fin.ext_iff, Fin.le_def, List.mem_cons, List.not_mem_nil,
    or_false, exists_eq_or_imp, exists_eq_left] at *
  omega

theorem notMem_savedRegisters {r : Reg} (hr : r < 19) :
    r ≠ sp ∧ ∀ p ∈ savedRegisters, r ≠ p.1 ∧ r ≠ p.2 := by
  obtain ⟨n, hn⟩ := r
  simp only [savedRegisters, sp, ne_eq, Fin.ext_iff, Fin.lt_def, List.mem_cons, List.not_mem_nil,
    or_false, forall_eq_or_imp, forall_eq] at *
  omega

/-! ## §2. What they do. -/

section Macros

variable {L : Type} [DecidableEq L] {code : Code L}

theorem prologue_comesTo {s : State} {rest : Code L} (hroom : 96 ≤ (s.regs sp).toNat) :
    ComesTo code (prologue ++ rest, s) rest fun s' =>
      (s'.regs sp).toNat = (s.regs sp).toNat - 96 ∧ (∀ r, r ≠ sp → s'.regs r = s.regs r) ∧
      (∀ a, a < (s.regs sp).toNat - 96 ∨ (s.regs sp).toNat ≤ a → s'.mem a = s.mem a) ∧
      SavedBelow s s'.mem (s.regs sp).toNat :=
  pushes savedRegisters hroom savedRegisters_ne_sp

/-- **The caller has its registers back.** -/
theorem epilogue_comesTo {s t : State} {rest : Code L} (hroom : 96 ≤ (s.regs sp).toNat)
    (hsp : (t.regs sp).toNat = (s.regs sp).toNat - 96)
    (hsaved : SavedBelow s t.mem (s.regs sp).toNat) :
    ComesTo code (epilogue ++ rest, t) rest fun t' => t'.mem = t.mem ∧
      (∀ r : Reg, 19 ≤ r → t'.regs r = s.regs r) ∧
      ∀ r : Reg, r < 19 → t'.regs r = t.regs r := by
  obtain ⟨t', hrun, hsp', hmem, hsaved', hother⟩ :=
    @pops L _ code savedRegisters s t rest (s.regs sp).toNat hroom (s.regs sp).isLt
      savedRegisters_ne_sp hsp hsaved
  refine ⟨t', hrun, hmem, fun r hr => ?_, fun r hr => ?_⟩
  · by_cases hsp₀ : r = sp
    · rw [hsp₀]
      exact BitVec.eq_of_toNat_eq hsp'
    · obtain ⟨p, hp, hor⟩ := mem_savedRegisters hr hsp₀
      obtain ⟨hfirst, hsecond⟩ := hsaved' p hp
      rcases hor with rfl | rfl
      · exact hfirst
      · exact hsecond
  · obtain ⟨hne, hout⟩ := notMem_savedRegisters hr
    exact hother r hne hout

end Macros

end LivingObjects.VM
