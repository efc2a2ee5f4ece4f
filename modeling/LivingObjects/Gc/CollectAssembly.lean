/-
  LivingObjects.Gc.CollectAssembly — the collector in assembly.

  `_gc_copy_object` and `_gc_collect` of `gc.s` on the machine of `Lib.Assembly`, line by line.
  The memory of the machine is bytes; `Shows` says that the words of both spaces are those of a
  `Space`, and that the to-space record holds its free pointer and its end.  Every stretch of
  the code moves the two fingers as `Gc.Cheney` says, so that the routine leaves what a
  collection has to leave, and nothing else of the process is touched.
-/
import LivingObjects.Lib.Assembly
import LivingObjects.Lib.Segment
import LivingObjects.VM.Macros
import LivingObjects.Gc.Cheney

namespace LivingObjects.Gc.CollectAssembly

open LivingObjects.Lib
open LivingObjects.Lib.Assembly
open LivingObjects.Lib.AArch64 (subFlags)
open LivingObjects.VM

/-! ## §1. The code. -/

inductive Label where
  | gcCopyObject
  | gcCopyNotBytes
  | gcCopySizeDone
  | gcCopyLoop
  | gcCopyDone
  | gcAlreadyForwarded
  | gcCopyOom
  | gcIsForwarded
  | gcForwardingPtr
  | gcCollect
  | gcRootsLoop
  | gcRootSkip
  | gcRootsDone
  | gcScanLoop
  | gcScanClassDone
  | gcScanFields
  | gcScanFieldSkip
  | gcScanNextObj
  | gcAdvNotBytes
  | gcScanDone
deriving DecidableEq, Repr

/-- `_gc_copy_object`. -/
def gcCopyObjectLines : Code Label :=
  [ .label .gcCopyObject,
    .ldr 2 0 0,
    .tst 2 (.imm 1),
    .bCond .ne .gcAlreadyForwarded,
    .ldr 3 0 16,
    .ldr 4 0 8,
    .cmp 4 (.imm 2),
    .bCond .ne .gcCopyNotBytes,
    .add 4 3 (.imm 7),
    .lsr 4 4 3,
    .add 4 4 (.imm 3),
    .b .gcCopySizeDone,
    .label .gcCopyNotBytes,
    .add 4 3 (.imm 3),
    .label .gcCopySizeDone,
    .ldr 5 1 0,
    .mov 6 (.reg 5),
    .ldr 10 1 8,
    .addShifted 11 5 4 3,
    .cmp 11 (.reg 10),
    .bCond .hi .gcCopyOom,
    .mov 7 (.reg 0),
    .mov 8 (.reg 4),
    .label .gcCopyLoop,
    .cbz 8 .gcCopyDone,
    .ldrNext 9 7,
    .strNext (.reg 9) 5,
    .sub 8 8 (.imm 1),
    .b .gcCopyLoop,
    .label .gcCopyDone,
    .str (.reg 5) 1 0,
    .orr 9 6 (.imm 1),
    .str (.reg 9) 0 0,
    .mov 0 (.reg 6),
    .ret,
    .label .gcAlreadyForwarded,
    .bic 0 2 (.imm 1),
    .ret,
    .label .gcCopyOom,
    .brk 10 ]

/-- `_gc_is_forwarded` and `_gc_forwarding_ptr`. -/
def gcForwardedLines : Code Label :=
  [ .label .gcIsForwarded,
    .ldr 1 0 0,
    .and 0 1 (.imm 1),
    .ret,
    .label .gcForwardingPtr,
    .ldr 1 0 0,
    .bic 0 1 (.imm 1),
    .ret ]

/-- The roots of `_gc_collect`, after its `PROLOGUE`. -/
def gcRootsLines : Code Label :=
  [ .mov 19 (.reg 0),
    .mov 20 (.reg 1),
    .mov 21 (.reg 3),
    .mov 22 (.reg 4),
    .mov 23 (.reg 5),
    .ldr 24 21 0,
    .mov 25 (.imm 0),
    .label .gcRootsLoop,
    .cmp 25 (.reg 20),
    .bCond .ge .gcRootsDone,
    .ldrAt 0 19 25,
    .tst 0 (.imm 3),
    .bCond .ne .gcRootSkip,
    .cmp 0 (.reg 22),
    .bCond .lo .gcRootSkip,
    .cmp 0 (.reg 23),
    .bCond .hs .gcRootSkip,
    .mov 1 (.reg 21),
    .bl .gcCopyObject,
    .strAt 0 19 25,
    .label .gcRootSkip,
    .add 25 25 (.imm 1),
    .b .gcRootsLoop,
    .label .gcRootsDone ]

/-- The scan of `_gc_collect`, up to its `EPILOGUE`. -/
def gcScanLines : Code Label :=
  [ .label .gcScanLoop,
    .ldr 25 21 0,
    .cmp 24 (.reg 25),
    .bCond .hs .gcScanDone,
    .ldr 26 24 16,
    .ldr 0 24 0,
    .tst 0 (.imm 3),
    .bCond .ne .gcScanClassDone,
    .cmp 0 (.reg 22),
    .bCond .lo .gcScanClassDone,
    .cmp 0 (.reg 23),
    .bCond .hs .gcScanClassDone,
    .mov 1 (.reg 21),
    .bl .gcCopyObject,
    .str (.reg 0) 24 0,
    .label .gcScanClassDone,
    .ldr 9 24 8,
    .cmp 9 (.imm 2),
    .bCond .eq .gcScanNextObj,
    .mov 25 (.imm 0),
    .label .gcScanFields,
    .cmp 25 (.reg 26),
    .bCond .ge .gcScanNextObj,
    .add 9 25 (.imm 3),
    .ldrAt 0 24 9,
    .tst 0 (.imm 3),
    .bCond .ne .gcScanFieldSkip,
    .cmp 0 (.reg 22),
    .bCond .lo .gcScanFieldSkip,
    .cmp 0 (.reg 23),
    .bCond .hs .gcScanFieldSkip,
    .mov 1 (.reg 21),
    .bl .gcCopyObject,
    .add 9 25 (.imm 3),
    .strAt 0 24 9,
    .label .gcScanFieldSkip,
    .add 25 25 (.imm 1),
    .b .gcScanFields,
    .label .gcScanNextObj,
    .ldr 9 24 8,
    .cmp 9 (.imm 2),
    .bCond .ne .gcAdvNotBytes,
    .add 26 26 (.imm 7),
    .lsr 26 26 3,
    .label .gcAdvNotBytes,
    .add 26 26 (.imm 3),
    .addShifted 24 24 26 3,
    .b .gcScanLoop,
    .label .gcScanDone ]

/-- `gc.s` up to `_gc_collect`. -/
def gcCode : Code Label :=
  gcCopyObjectLines ++ gcForwardedLines ++
    .label .gcCollect :: prologue ++ gcRootsLines ++ gcScanLines ++ epilogue ++ [.ret]

set_option maxRecDepth 2000 in
theorem gcCode_length : gcCode.length < 2 ^ 64 := by decide

theorem gcCopyObject_lines : gcCode.from .gcCopyObject =
    .label .gcCopyObject :: .ldr 2 0 0 :: .tst 2 (.imm 1) :: .bCond .ne .gcAlreadyForwarded ::
      .ldr 3 0 16 :: .ldr 4 0 8 :: .cmp 4 (.imm 2) :: .bCond .ne .gcCopyNotBytes ::
        .add 4 3 (.imm 7) :: .lsr 4 4 3 :: .add 4 4 (.imm 3) :: .b .gcCopySizeDone ::
          gcCode.from .gcCopyNotBytes := rfl

theorem gcCopyNotBytes_lines : gcCode.from .gcCopyNotBytes =
    .label .gcCopyNotBytes :: .add 4 3 (.imm 3) :: gcCode.from .gcCopySizeDone := rfl

theorem gcCopySizeDone_lines : gcCode.from .gcCopySizeDone =
    .label .gcCopySizeDone :: .ldr 5 1 0 :: .mov 6 (.reg 5) :: .ldr 10 1 8 ::
      .addShifted 11 5 4 3 :: .cmp 11 (.reg 10) :: .bCond .hi .gcCopyOom :: .mov 7 (.reg 0) ::
        .mov 8 (.reg 4) :: gcCode.from .gcCopyLoop := rfl

theorem gcCopyLoop_lines : gcCode.from .gcCopyLoop =
    .label .gcCopyLoop :: .cbz 8 .gcCopyDone :: .ldrNext 9 7 :: .strNext (.reg 9) 5 ::
      .sub 8 8 (.imm 1) :: .b .gcCopyLoop :: gcCode.from .gcCopyDone := rfl

theorem gcCopyDone_lines : gcCode.from .gcCopyDone =
    .label .gcCopyDone :: .str (.reg 5) 1 0 :: .orr 9 6 (.imm 1) :: .str (.reg 9) 0 0 ::
      .mov 0 (.reg 6) :: .ret :: gcCode.from .gcAlreadyForwarded := rfl

theorem gcAlreadyForwarded_lines : gcCode.from .gcAlreadyForwarded =
    .label .gcAlreadyForwarded :: .bic 0 2 (.imm 1) :: .ret :: gcCode.from .gcCopyOom := rfl

theorem gcCollect_lines : gcCode.from .gcCollect =
    .label .gcCollect :: (prologue ++ (.mov 19 (.reg 0) :: .mov 20 (.reg 1) ::
      .mov 21 (.reg 3) :: .mov 22 (.reg 4) :: .mov 23 (.reg 5) :: .ldr 24 21 0 ::
        .mov 25 (.imm 0) :: gcCode.from .gcRootsLoop)) := rfl

theorem gcRootsLoop_lines : gcCode.from .gcRootsLoop =
    .label .gcRootsLoop :: .cmp 25 (.reg 20) :: .bCond .ge .gcRootsDone :: .ldrAt 0 19 25 ::
      .tst 0 (.imm 3) :: .bCond .ne .gcRootSkip :: .cmp 0 (.reg 22) :: .bCond .lo .gcRootSkip ::
        .cmp 0 (.reg 23) :: .bCond .hs .gcRootSkip :: .mov 1 (.reg 21) :: .bl .gcCopyObject ::
          .strAt 0 19 25 :: gcCode.from .gcRootSkip := rfl

theorem gcRootSkip_lines : gcCode.from .gcRootSkip =
    .label .gcRootSkip :: .add 25 25 (.imm 1) :: .b .gcRootsLoop ::
      gcCode.from .gcRootsDone := rfl

theorem gcRootsDone_lines : gcCode.from .gcRootsDone =
    .label .gcRootsDone :: gcCode.from .gcScanLoop := rfl

theorem gcScanLoop_lines : gcCode.from .gcScanLoop =
    .label .gcScanLoop :: .ldr 25 21 0 :: .cmp 24 (.reg 25) :: .bCond .hs .gcScanDone ::
      .ldr 26 24 16 :: .ldr 0 24 0 :: .tst 0 (.imm 3) :: .bCond .ne .gcScanClassDone ::
        .cmp 0 (.reg 22) :: .bCond .lo .gcScanClassDone :: .cmp 0 (.reg 23) ::
          .bCond .hs .gcScanClassDone :: .mov 1 (.reg 21) :: .bl .gcCopyObject ::
            .str (.reg 0) 24 0 :: gcCode.from .gcScanClassDone := rfl

theorem gcScanClassDone_lines : gcCode.from .gcScanClassDone =
    .label .gcScanClassDone :: .ldr 9 24 8 :: .cmp 9 (.imm 2) :: .bCond .eq .gcScanNextObj ::
      .mov 25 (.imm 0) :: gcCode.from .gcScanFields := rfl

set_option maxRecDepth 2000 in
theorem gcScanFields_lines : gcCode.from .gcScanFields =
    .label .gcScanFields :: .cmp 25 (.reg 26) :: .bCond .ge .gcScanNextObj ::
      .add 9 25 (.imm 3) :: .ldrAt 0 24 9 :: .tst 0 (.imm 3) :: .bCond .ne .gcScanFieldSkip ::
        .cmp 0 (.reg 22) :: .bCond .lo .gcScanFieldSkip :: .cmp 0 (.reg 23) ::
          .bCond .hs .gcScanFieldSkip :: .mov 1 (.reg 21) :: .bl .gcCopyObject ::
            .add 9 25 (.imm 3) :: .strAt 0 24 9 :: gcCode.from .gcScanFieldSkip := rfl

set_option maxRecDepth 2000 in
theorem gcScanFieldSkip_lines : gcCode.from .gcScanFieldSkip =
    .label .gcScanFieldSkip :: .add 25 25 (.imm 1) :: .b .gcScanFields ::
      gcCode.from .gcScanNextObj := rfl

set_option maxRecDepth 2000 in
theorem gcScanNextObj_lines : gcCode.from .gcScanNextObj =
    .label .gcScanNextObj :: .ldr 9 24 8 :: .cmp 9 (.imm 2) :: .bCond .ne .gcAdvNotBytes ::
      .add 26 26 (.imm 7) :: .lsr 26 26 3 :: gcCode.from .gcAdvNotBytes := rfl

set_option maxRecDepth 2000 in
theorem gcAdvNotBytes_lines : gcCode.from .gcAdvNotBytes =
    .label .gcAdvNotBytes :: .add 26 26 (.imm 3) :: .addShifted 24 24 26 3 :: .b .gcScanLoop ::
      gcCode.from .gcScanDone := rfl

set_option maxRecDepth 2000 in
theorem gcScanDone_lines : gcCode.from .gcScanDone =
    .label .gcScanDone :: (epilogue ++ [.ret]) := rfl

/-! ## §2. The two spaces. -/

/-- The spaces of a collection, and where the to-space record lies. -/
structure Areas where
  fromStart : Nat
  fromEnd : Nat
  free : Nat
  toEnd : Nat
  toSpace : Nat

/-- A word of one of the spaces. -/
def Areas.HasWord (A : Areas) (a : Nat) : Prop :=
  a % 8 = 0 ∧ (A.fromStart ≤ a ∧ a + 8 ≤ A.fromEnd ∨ A.free ≤ a ∧ a + 8 ≤ A.toEnd)

/-- A byte that a collection may store to: one of the spaces, or of the free pointer. -/
def Areas.Touches (A : Areas) (a : Nat) : Prop :=
  A.fromStart ≤ a ∧ a < A.fromEnd ∨ A.free ≤ a ∧ a < A.toEnd ∨
    A.toSpace ≤ a ∧ a < A.toSpace + 8

/-- A byte of the spaces or of the record. -/
def Areas.Owns (A : Areas) (a : Nat) : Prop :=
  A.fromStart ≤ a ∧ a < A.fromEnd ∨ A.free ≤ a ∧ a < A.toEnd ∨
    A.toSpace ≤ a ∧ a < A.toSpace + 16

theorem Areas.Touches.owns {A : Areas} {a : Nat} (h : A.Touches a) : A.Owns a := by
  unfold Areas.Touches at h
  unfold Areas.Owns
  omega

/-- Everything lies in the address space, and the record outside the spaces. -/
structure Areas.Valid (A : Areas) : Prop where
  fromSpace : A.fromEnd < 2 ^ 64
  toSpace : A.toEnd < 2 ^ 64
  record : A.toSpace + 16 ≤ 2 ^ 64
  recordFrom : A.toSpace + 16 ≤ A.fromStart ∨ A.fromEnd ≤ A.toSpace
  recordTo : A.toSpace + 16 ≤ A.free ∨ A.toEnd ≤ A.toSpace

theorem Areas.HasWord.fits {A : Areas} {a : Nat} (ha : A.HasWord a) (hA : A.Valid) :
    a + 8 < 2 ^ 64 := by
  have hfrom := hA.fromSpace
  have hto := hA.toSpace
  have hin := ha.2
  omega

/-- The memory of the machine shows a space. -/
structure Shows (A : Areas) (m : Mem) (space : Space) : Prop where
  words : ∀ a, A.HasWord a → (load64 m a).toNat = space.mem a
  free : (load64 m A.toSpace).toNat = space.free
  toEnd : (load64 m (A.toSpace + 8)).toNat = A.toEnd

/-- The rest of memory is as it was. -/
def Elsewhere (A : Areas) (m m' : Mem) : Prop := ∀ a, ¬A.Touches a → m' a = m a

theorem Elsewhere.refl (A : Areas) (m : Mem) : Elsewhere A m m := fun _ _ => rfl

theorem Elsewhere.trans {A : Areas} {m m' m'' : Mem} (h : Elsewhere A m m')
    (h' : Elsewhere A m' m'') : Elsewhere A m m'' := fun a ha => (h' a ha).trans (h a ha)

section Stores

variable {A : Areas} {m m' : Mem} {space : Space} {a : Nat}

theorem Shows.congr (h : Shows A m space) (hsame : ∀ a, A.Owns a → m' a = m a) :
    Shows A m' space := by
  unfold Areas.Owns at hsame
  refine ⟨fun a ha => ?_, ?_, ?_⟩
  · have hin := ha.2
    rw [load64_congr fun i hi => hsame (a + i) (by omega)]
    exact h.words a ha
  · rw [load64_congr fun i hi => hsame (A.toSpace + i) (by omega)]
    exact h.free
  · rw [load64_congr fun i hi => hsame (A.toSpace + 8 + i) (by omega)]
    exact h.toEnd

/-- A store to a word of the spaces. -/
theorem Shows.store (h : Shows A m space) (hA : A.Valid) (ha : A.HasWord a) (v : UInt64) :
    Shows A (store64 m a v) { space with mem := Function.update space.mem a v.toNat } := by
  have hfrom := hA.recordFrom
  have hto := hA.recordTo
  have hin := ha.2
  refine ⟨fun b hb => ?_, ?_, ?_⟩
  · by_cases heq : b = a
    · rw [heq, load64_store64_self]
      exact (Function.update_self a v.toNat space.mem).symm
    · have hb8 := hb.1
      have ha8 := ha.1
      rw [load64_store64_of_disjoint _ _ (by omega), h.words b hb]
      exact (Function.update_of_ne heq _ _).symm
  · rw [load64_store64_of_disjoint _ _ (by omega), h.free]
  · rw [load64_store64_of_disjoint _ _ (by omega), h.toEnd]

/-- A store to the free pointer. -/
theorem Shows.setFree (h : Shows A m space) (hA : A.Valid) (v : UInt64) :
    Shows A (store64 m A.toSpace v) { space with free := v.toNat } := by
  have hfrom := hA.recordFrom
  have hto := hA.recordTo
  refine ⟨fun b hb => ?_, ?_, ?_⟩
  · have hin := hb.2
    rw [load64_store64_of_disjoint _ _ (by omega), h.words b hb]
  · rw [load64_store64_self]
  · rw [load64_store64_of_disjoint _ _ (by omega), h.toEnd]

theorem elsewhere_store (m : Mem) (ha : A.HasWord a) (v : UInt64) :
    Elsewhere A m (store64 m a v) := by
  intro b hb
  have hin := ha.2
  unfold Areas.Touches at hb
  exact store64_of_out _ _ (by omega)

theorem elsewhere_setFree (A : Areas) (m : Mem) (v : UInt64) :
    Elsewhere A m (store64 m A.toSpace v) := by
  intro b hb
  unfold Areas.Touches at hb
  exact store64_of_out _ _ (by omega)

end Stores

/-- What `_gc_copy_object` changes. -/
def copyChanged : List Reg := [0, 2, 3, 4, 5, 6, 7, 8, 9, 10, 11]

/-! ## §3. `_gc_copy_object`. -/

section Copy

variable {A : Areas} {s : State} {space : Space}

/-- A load from a word of the spaces. -/
theorem Shows.load {a : Nat} {address : BitVec 64} (h : Shows A s.mem space) (ha : A.HasWord a)
    (haddress : address.toNat = a) : (s.load address).toNat = space.mem a := by
  rw [State.load_of_toNat haddress]
  exact h.words a ha

/-- `.Lgc_copy_loop`. -/
theorem copyLoop_comesTo (n : Nat) {src dst : Nat} (hA : A.Valid) (hshows : Shows A s.mem space)
    (hsrc : (s.regs 7).toNat = src) (hdst : (s.regs 5).toNat = dst) (hn : (s.regs 8).toNat = n)
    (hfrom : ∀ i < n, A.HasWord (src + 8 * i)) (hto : ∀ i < n, A.HasWord (dst + 8 * i)) :
    ComesTo gcCode (gcCode.from .gcCopyLoop, s) (gcCode.from .gcCopyDone) fun t =>
      Shows A t.mem { space with mem := copyLoop n src dst space.mem } ∧
        (t.regs 5).toNat = dst + 8 * n ∧ KeepsRegs [5, 7, 8, 9] s t ∧
        Elsewhere A s.mem t.mem := by
  induction n generalizing s space src dst with
  | zero =>
    rw [gcCopyLoop_lines]
    refine .head rfl (.cbzTaken (BitVec.eq_of_toNat_eq hn) (.here ⟨hshows, hdst, ?_, ?_⟩))
    · exact KeepsRegs.self
    · exact Elsewhere.refl A s.mem
  | succ n ih =>
    have hsrc₀ : A.HasWord src := hfrom 0 (Nat.succ_pos n)
    have hdst₀ : A.HasWord dst := hto 0 (Nat.succ_pos n)
    have hword := hshows.load hsrc₀ hsrc
    have hsrcEnd := hsrc₀.fits hA
    have hdstEnd := hdst₀.fits hA
    have hturn : ComesTo gcCode (gcCode.from .gcCopyLoop, s) (gcCode.from .gcCopyLoop) fun t =>
        t.mem = store64 s.mem dst ⟨s.load (s.regs 7)⟩ ∧ (t.regs 7).toNat = src + 8 ∧
          (t.regs 5).toNat = dst + 8 ∧ (t.regs 8).toNat = n ∧ KeepsRegs [5, 7, 8, 9] s t := by
      rw [gcCopyLoop_lines]
      refine .head rfl (.cbzNotTaken ?_ (.head rfl (.head rfl (.head rfl (.head rfl (.here
        ⟨?_, ?_, ?_, ?_, ?_⟩))))))
      · intro hzero
        rw [hzero] at hn
        exact absurd hn (Nat.zero_ne_add_one n)
      · simp [hdst]
      · simp
        bv_omega
      · simp
        bv_omega
      · simp
        bv_omega
      · simp
    refine hturn.andThen fun t ht => ?_
    obtain ⟨hmem, hsrc', hdst', hn', hregs⟩ := ht
    have hshows' := hshows.store hA hdst₀ ⟨s.load (s.regs 7)⟩
    have hvalue : (⟨s.load (s.regs 7)⟩ : UInt64).toNat = space.mem src := hword
    rw [← hmem, hvalue] at hshows'
    have hlater := ih hshows' hsrc' hdst' hn'
      (fun i hi => by rw [Nat.add_assoc, Nat.add_comm 8, ← Nat.mul_succ]; exact hfrom _ (by omega))
      (fun i hi => by rw [Nat.add_assoc, Nat.add_comm 8, ← Nat.mul_succ]; exact hto _ (by omega))
    refine hlater.imp fun u hu => ?_
    obtain ⟨hshows'', hdst'', hregs', helse⟩ := hu
    refine ⟨hshows'', by omega, hregs.trans hregs', ?_⟩
    rw [hmem] at helse
    exact (elsewhere_store s.mem hdst₀ _).trans helse

/-- The words of an object lie in from-space. -/
def HasObject (A : Areas) (mem : Nat → Nat) (obj : Nat) : Prop :=
  ∀ i < totalWords mem obj, A.HasWord (obj + 8 * i)

/-- The size of the object in words. -/
theorem copySize_comesTo {obj : Nat} (hA : A.Valid) (hshows : Shows A s.mem space)
    (hobj : (s.regs 0).toNat = obj) (hin : HasObject A space.mem obj)
    (hclass : space.mem obj % 2 = 0) :
    ComesTo gcCode (gcCode.from .gcCopyObject, s) (gcCode.from .gcCopySizeDone) fun t =>
      (t.regs 4).toNat = totalWords space.mem obj ∧ Keeps [2, 3, 4] s t := by
  have hwords := three_le_totalWords space.mem obj
  have hend := (hin (totalWords space.mem obj - 1) (by omega)).fits hA
  have hformatAt : (s.regs 0 + 8#64).toNat = obj + 8 := by bv_omega
  have hsizeAt : (s.regs 0 + 16#64).toNat = obj + 16 := by bv_omega
  have hfirst : (s.load (s.regs 0)).toNat = space.mem obj := hshows.load (hin 0 (by omega)) hobj
  have hformat := hshows.load (hin 1 (by omega)) hformatAt
  have hsize := hshows.load (hin 2 (by omega)) hsizeAt
  rw [Nat.mul_one] at hformat
  change _ = space.mem (obj + 16) at hsize
  have hformatIs : s.load (s.regs 0 + 8#64) = 2#64 ↔ space.mem (obj + 8) = formatBytes := by
    rw [← BitVec.toNat_inj, hformat]
    rfl
  unfold totalWords at *
  rw [gcCopyObject_lines]
  refine .head rfl (.head rfl (.head rfl (.notTaken ?_ (.head rfl (.head rfl (.head rfl ?_))))))
  · simpa [and_one_eq_zero, hfirst] using hclass
  by_cases hbytes : space.mem (obj + 8) = formatBytes
  · rw [if_pos hbytes] at hend ⊢
    refine .notTaken ?_ (.head rfl (.head rfl (.head rfl (.head rfl (.here ⟨?_, ?_⟩)))))
    · simpa [hformatIs] using hbytes
    · simp
      bv_omega
    · simp
  · rw [if_neg hbytes] at hend ⊢
    refine .taken ?_ ?_
    · simpa [hformatIs] using hbytes
    · rw [gcCopyNotBytes_lines]
      refine .head rfl (.head rfl (.here ⟨?_, ?_⟩))
      · simp
        bv_omega
      · simp

/-- The room is there, and the registers are set for the loop. -/
theorem copyStart_comesTo {words : Nat} (hA : A.Valid) (hshows : Shows A s.mem space)
    (hrecord : (s.regs 1).toNat = A.toSpace) (hwords : (s.regs 4).toNat = words)
    (hroom : space.free + 8 * words ≤ A.toEnd) :
    ComesTo gcCode (gcCode.from .gcCopySizeDone, s) (gcCode.from .gcCopyLoop) fun t =>
      (t.regs 5).toNat = space.free ∧ (t.regs 6).toNat = space.free ∧ t.regs 7 = s.regs 0 ∧
        (t.regs 8).toNat = words ∧ Keeps [5, 6, 7, 8, 10, 11] s t := by
  have hend := hA.toSpace
  have hfree : (s.load (s.regs 1)).toNat = space.free := by
    rw [State.load_of_toNat hrecord]
    exact hshows.free
  have hrecord' : (s.regs 1 + 8#64).toNat = A.toSpace + 8 := by
    have hfits := hA.record
    bv_omega
  have htoEnd : (s.load (s.regs 1 + 8#64)).toNat = A.toEnd := by
    rw [State.load_of_toNat hrecord']
    exact hshows.toEnd
  have hlast : (s.load (s.regs 1) + s.regs 4 <<< 3).toNat = space.free + 8 * words := by
    bv_omega
  rw [gcCopySizeDone_lines]
  refine .head rfl (.head rfl (.head rfl (.head rfl (.head rfl (.head rfl (.notTaken ?_
    (.head rfl (.head rfl (.here ⟨?_, ?_, ?_, ?_, ?_⟩)))))))))
  · rw [State.setFlags_flags, holds_hi]
    refine decide_eq_false ?_
    simp only [State.write_regs, State.write_load, Fin.reduceEq, reduceIte, Operand.eval_reg,
      BitVec.ofInt_ofNat, BitVec.add_zero]
    rw [hlast, htoEnd]
    exact Nat.not_lt.mpr hroom
  · simpa using hfree
  · simpa using hfree
  · simp
  · simpa using hwords
  · simp

/-- After the loop the object is forwarded. -/
theorem copyDone_comesTo {obj free : Nat} (hA : A.Valid) (hshows : Shows A s.mem space)
    (hobj : (s.regs 0).toNat = obj) (hin : A.HasWord obj)
    (hrecord : (s.regs 1).toNat = A.toSpace) (hfree : (s.regs 6).toNat = free) :
    ComesTo gcCode (gcCode.from .gcCopyDone, s) (returnPoint gcCode s) fun t =>
      (t.regs 0).toNat = free ∧
        Shows A t.mem { mem := Function.update space.mem obj (free ||| 1),
                        free := (s.regs 5).toNat } ∧
        KeepsRegs [0, 9] s t ∧ Elsewhere A s.mem t.mem := by
  have hmem : ∀ m : Mem, Shows A m space →
      Shows A (store64 (store64 m A.toSpace ⟨s.regs 5⟩) obj ⟨s.regs 6 ||| 1#64⟩)
        { mem := Function.update space.mem obj (free ||| 1), free := (s.regs 5).toNat } := by
    intro m hm
    have hvalue : (⟨s.regs 6 ||| 1#64⟩ : UInt64).toNat = free ||| 1 := by
      rw [← hfree]
      exact BitVec.toNat_or ..
    rw [← hvalue]
    exact (hm.setFree hA ⟨s.regs 5⟩).store hA hin _
  rw [gcCopyDone_lines]
  refine .head rfl (.head rfl (.head rfl (.head rfl (.head rfl (.returns ?_ ⟨?_, ?_, ?_, ?_⟩)))))
  · simp
  · simpa using hfree
  · have hstored := hmem s.mem hshows
    simp [hrecord, hobj]
    exact hstored
  · simp
  · simp [hrecord, hobj]
    exact (elsewhere_setFree A s.mem _).trans (elsewhere_store _ hin _)

/-- **`_gc_copy_object` is `gc_copy_object`.** -/
theorem copyObject_comesTo {obj addr : Nat} {space' : Space} (hA : A.Valid)
    (hshows : Shows A s.mem space) (hobj : (s.regs 0).toNat = obj)
    (hrecord : (s.regs 1).toNat = A.toSpace) (hin : HasObject A space.mem obj)
    (hfree : space.free % 8 = 0) (hstart : A.free ≤ space.free)
    (hresult : gcCopyObject A.toEnd obj space = some (addr, space')) :
    ComesTo gcCode (gcCode.from .gcCopyObject, s) (returnPoint gcCode s) fun t =>
      (t.regs 0).toNat = addr ∧ Shows A t.mem space' ∧ KeepsRegs copyChanged s t ∧
        Elsewhere A s.mem t.mem := by
  have hwords := three_le_totalWords space.mem obj
  have hword : A.HasWord obj := hin 0 (by omega)
  have hfirst : (s.load (s.regs 0)).toNat = space.mem obj := hshows.load hword hobj
  unfold gcCopyObject at hresult
  simp only at hresult
  by_cases hforwarded : space.mem obj % 2 = 1
  · rw [if_pos hforwarded] at hresult
    obtain ⟨rfl, rfl⟩ := Prod.mk.inj (Option.some.inj hresult)
    rw [gcCopyObject_lines]
    refine .head rfl (.head rfl (.head rfl (.taken ?_ ?_)))
    · simp [and_one_eq_zero, hfirst, hforwarded]
    rw [gcAlreadyForwarded_lines]
    refine .head rfl (.head rfl (.returns ?_ ⟨?_, ?_, ?_, ?_⟩))
    · simp
    · have hcleared := toNat_and_not_one (s.load (s.regs 0))
      simp only [State.write_regs, reduceIte, State.setFlags_regs, Operand.eval_imm,
        BitVec.ofInt_ofNat, BitVec.add_zero, hcleared, hfirst, hforwarded]
    · simpa using hshows
    · simp [copyChanged]
    · exact Elsewhere.refl A s.mem
  · rw [if_neg hforwarded] at hresult
    by_cases hroom : A.toEnd < space.free + 8 * totalWords space.mem obj
    · rw [if_pos hroom] at hresult
      cases hresult
    rw [if_neg hroom] at hresult
    obtain ⟨rfl, rfl⟩ := Prod.mk.inj (Option.some.inj hresult)
    refine (copySize_comesTo hA hshows hobj hin (by omega)).andThen fun t ht => ?_
    obtain ⟨hsize, hkeeps⟩ := ht
    have hshows₁ : Shows A t.mem space := by
      rw [hkeeps.mem]
      exact hshows
    have hrecord₁ : (t.regs 1).toNat = A.toSpace := by
      rw [hkeeps.regs 1 (by decide), hrecord]
    refine (copyStart_comesTo hA hshows₁ hrecord₁ hsize (Nat.not_lt.mp hroom)).andThen
      fun u hu => ?_
    obtain ⟨hdst, hnew, hsrc, hleft, hkeeps₁⟩ := hu
    have hshows₂ : Shows A u.mem space := by
      rw [hkeeps₁.mem]
      exact hshows₁
    have hsrc' : (u.regs 7).toNat = obj := by
      rw [hsrc, hkeeps.regs 0 (by decide), hobj]
    have hto : ∀ i < totalWords space.mem obj, A.HasWord (space.free + 8 * i) :=
      fun i hi => ⟨by omega, .inr ⟨by omega, by omega⟩⟩
    refine (copyLoop_comesTo _ hA hshows₂ hsrc' hdst hleft hin hto).andThen fun v hv => ?_
    obtain ⟨hshows₃, hend, hregs, helse⟩ := hv
    have hregs' : KeepsRegs copyChanged s v :=
      ((hkeeps.regs.mono (by decide)).trans (hkeeps₁.regs.mono (by decide))).trans
        (hregs.mono (by decide))
    have hobj' : (v.regs 0).toNat = obj := by
      rw [hregs 0 (by decide), hkeeps₁.regs 0 (by decide), hkeeps.regs 0 (by decide), hobj]
    have hrecord₃ : (v.regs 1).toNat = A.toSpace := by
      rw [hregs 1 (by decide), hkeeps₁.regs 1 (by decide), hrecord₁]
    have hnew' : (v.regs 6).toNat = space.free := by
      rw [hregs 6 (by decide), hnew]
    have hdone := copyDone_comesTo hA hshows₃ hobj' hword hrecord₃ hnew'
    rw [hregs'.returnPoint (by decide)] at hdone
    refine hdone.imp fun w hw => ?_
    obtain ⟨haddr, hshows₄, hregs₄, helse₄⟩ := hw
    rw [hend] at hshows₄
    refine ⟨haddr, hshows₄, hregs'.trans (hregs₄.mono (by decide)), ?_⟩
    rw [hkeeps₁.mem, hkeeps.mem] at helse
    exact helse.trans helse₄

end Copy

/-! ## §4. A word that may be a reference. -/

/-- The tests before a word in `x0` is copied, and the call. -/
def visitLines (skip : Label) (rest : Code Label) : Code Label :=
  .tst 0 (.imm 3) :: .bCond .ne skip :: .cmp 0 (.reg 22) :: .bCond .lo skip ::
    .cmp 0 (.reg 23) :: .bCond .hs skip :: .mov 1 (.reg 21) :: .bl .gcCopyObject :: rest

/-- What visiting a word changes. -/
def visitChanged : List Reg := 1 :: 30 :: copyChanged

/-- The registers that name the spaces. -/
structure Knows (A : Areas) (s : State) : Prop where
  record : (s.regs 21).toNat = A.toSpace
  fromStart : (s.regs 22).toNat = A.fromStart
  fromEnd : (s.regs 23).toNat = A.fromEnd

theorem Knows.congr {A : Areas} {s t : State} {changed : List Reg} (h : Knows A s)
    (hregs : KeepsRegs changed s t) (hrecord : 21 ∉ changed) (hstart : 22 ∉ changed)
    (hend : 23 ∉ changed) : Knows A t where
  record := by rw [hregs 21 hrecord, h.record]
  fromStart := by rw [hregs 22 hstart, h.fromStart]
  fromEnd := by rw [hregs 23 hend, h.fromEnd]

section Visit

variable {A : Areas} {s : State} {space space' : Space} {skip : Label} {rest : Code Label}
variable {word copy : Nat}

theorem visit_skips (hknows : Knows A s) (hword : (s.regs 0).toNat = word)
    (hout : inFromSpace A.fromStart A.fromEnd word = false) :
    ComesTo gcCode (visitLines skip rest, s) (gcCode.from skip) fun t => Keeps [] s t := by
  have hstart := hknows.fromStart
  have hend := hknows.fromEnd
  have hout' : ¬(word % 4 = 0 ∧ A.fromStart ≤ word ∧ word < A.fromEnd) := by
    rw [← inFromSpace_iff, hout]
    exact Bool.false_ne_true
  unfold visitLines
  by_cases htag : word % 4 = 0
  swap
  · refine .head rfl (.taken ?_ (.here ?_))
    · simp [and_three_eq_zero, hword, htag]
    · simp
  by_cases hlow : word < A.fromStart
  · refine .head rfl (.notTaken ?_ (.head rfl (.taken ?_ (.here ?_))))
    · simp [and_three_eq_zero, hword, htag]
    · simp [hword, hstart, hlow]
    · simp
  · refine .head rfl (.notTaken ?_ (.head rfl (.notTaken ?_ (.head rfl (.taken ?_ (.here ?_))))))
    · simp [and_three_eq_zero, hword, htag]
    · simpa [hword, hstart] using hlow
    · simp [hword, hend]
      omega
    · simp

theorem visit_copies (hA : A.Valid) (hknows : Knows A s) (hword : (s.regs 0).toNat = word)
    (hin : inFromSpace A.fromStart A.fromEnd word = true) (hshows : Shows A s.mem space)
    (hobject : HasObject A space.mem word) (hfree : space.free % 8 = 0)
    (hroom : A.free ≤ space.free) (hresult : gcCopyObject A.toEnd word space = some (copy, space'))
    (hsuffix : rest <:+ gcCode) :
    ComesTo gcCode (visitLines skip rest, s) rest fun t =>
      (t.regs 0).toNat = copy ∧ Shows A t.mem space' ∧ KeepsRegs visitChanged s t ∧
        Elsewhere A s.mem t.mem := by
  have hstart := hknows.fromStart
  have hend := hknows.fromEnd
  obtain ⟨htag, hlow, hhigh⟩ := inFromSpace_iff.mp hin
  unfold visitLines
  refine .head rfl (.notTaken ?_ (.head rfl (.notTaken ?_ (.head rfl (.notTaken ?_ (.head rfl
    (.call (fun t => (t.regs 0).toNat = copy ∧ Shows A t.mem space' ∧
      KeepsRegs visitChanged s t ∧ Elsewhere A s.mem t.mem) hsuffix gcCode_length ?_
      fun t ht => .here ht)))))))
  · simp [and_three_eq_zero, hword, htag]
  · simpa [hword, hstart] using hlow
  · simpa [hword, hend] using hhigh
  · intro t link ht hreturn
    have hmem : t.mem = s.mem := by rw [ht]; rfl
    have hregs : KeepsRegs visitChanged s t := by
      rw [ht]
      simp [visitChanged]
    have hroutine := @copyObject_comesTo A t space word copy space' hA (hmem ▸ hshows)
      (by simpa [ht] using hword) (by simpa [ht] using hknows.record) hobject hfree hroom hresult
    rw [hreturn, hmem] at hroutine
    refine hroutine.imp fun u hu => ⟨hu.1, hu.2.1, hregs.trans (hu.2.2.1.mono ?_), hu.2.2.2⟩
    exact fun r hr => List.mem_cons_of_mem _ (List.mem_cons_of_mem _ hr)

end Visit

/-! ## §5. The scan. -/

section Scan

variable {A : Areas} {mem : Nat → Nat} {objs : Nat → Prop} {roots copied : List Nat}
variable {s : State} {space : Space} {scanned o : Nat}

/-- An object of the heap can be copied all along. -/
theorem hasObject (h : Ready mem A.fromStart A.fromEnd A.free A.toEnd objs roots)
    (hf : Fingers mem A.fromStart A.fromEnd A.free A.toEnd roots copied scanned space)
    (ho : objs o) : HasObject A space.mem o := by
  intro i hi
  rw [hf.totalWords h ho] at hi
  have hinside := h.heap.inside o ho
  have haligned := h.heap.aligned o ho
  exact ⟨by omega, .inl ⟨by omega, by omega⟩⟩

theorem free_aligned (h : Ready mem A.fromStart A.fromEnd A.free A.toEnd objs roots)
    (hf : Fingers mem A.fromStart A.fromEnd A.free A.toEnd roots copied scanned space) :
    space.free % 8 = 0 := by
  have hbytes := bytesOf_aligned mem copied
  have haligned := h.aligned
  have htop := hf.top
  omega

theorem free_le (hf : Fingers mem A.fromStart A.fromEnd A.free A.toEnd roots copied scanned space) :
    A.free ≤ space.free := by
  have htop := hf.top
  omega

/-- A word of a copy. -/
theorem hasCopyWord (h : Ready mem A.fromStart A.fromEnd A.free A.toEnd objs roots)
    (hf : Fingers mem A.fromStart A.fromEnd A.free A.toEnd roots copied scanned space)
    (ho : o ∈ copied) {i : Nat} (hi : i < totalWords mem o) :
    A.HasWord (imageOf mem A.free copied o + 8 * i) := by
  have hbounds := @imageOf_bounds mem A.free o copied ho
  have haligned := @imageOf_aligned mem A.free o copied h.aligned
  have hfits := hf.fits h
  exact ⟨by omega, .inr ⟨by omega, by omega⟩⟩

/-- A reference under the finger is still that of the original. -/
theorem pending_valid (h : Ready mem A.fromStart A.fromEnd A.free A.toEnd objs roots) {i : Nat}
    (hf : Fingers mem A.fromStart A.fromEnd A.free A.toEnd roots copied
      (imageOf mem A.free copied o + 8 * i) space)
    (ho : o ∈ copied) (hi : i < totalWords mem o) (hslot : IsSlot mem o i)
    (hin : inFromSpace A.fromStart A.fromEnd (space.mem (imageOf mem A.free copied o + 8 * i)) =
      true) : objs (space.mem (imageOf mem A.free copied o + 8 * i)) := by
  have hword := hf.words o ho i hi
  rw [if_neg fun hscanned => absurd hscanned.1 (Nat.lt_irrefl _)] at hword
  rw [hword] at hin ⊢
  exact h.heap.slots o (h.obj (hf.reached o ho)) i hi hslot hin

/-- The word at `address`, and the store of what it became. -/
theorem visitWord_comesTo {address : Nat} {space' : Space} {skip : Label} {rest : Code Label}
    {post : State → Prop} {place : Code Label} (hA : A.Valid) (hknows : Knows A s)
    (h : Ready mem A.fromStart A.fromEnd A.free A.toEnd objs roots)
    (hf : Fingers mem A.fromStart A.fromEnd A.free A.toEnd roots copied scanned space)
    (hshows : Shows A s.mem space) (hword : (s.regs 0).toNat = space.mem address)
    (hvalid : inFromSpace A.fromStart A.fromEnd (space.mem address) = true →
      objs (space.mem address))
    (hscan : scanWord A.fromStart A.fromEnd A.toEnd address space = some space')
    (hsuffix : rest <:+ gcCode)
    (hskips : space' = space → ∀ t, Keeps [] s t →
      ComesTo gcCode (gcCode.from skip, t) place post)
    (hcopies : ∀ copied t, space' = { copied with
        mem := Function.update copied.mem address (t.regs 0).toNat } →
      Shows A t.mem copied → KeepsRegs visitChanged s t → Elsewhere A s.mem t.mem →
      ComesTo gcCode (rest, t) place post) :
    ComesTo gcCode (visitLines skip rest, s) place post := by
  unfold scanWord at hscan
  by_cases hin : inFromSpace A.fromStart A.fromEnd (space.mem address) = true
  · rw [if_pos hin] at hscan
    obtain ⟨result, hcopy, hsame⟩ := Option.bind_eq_some_iff.mp hscan
    obtain ⟨copy, middle⟩ := result
    refine (visit_copies hA hknows hword hin hshows (hasObject h hf (hvalid hin)) (free_aligned h hf)
      (free_le hf) hcopy hsuffix).andThen fun t ht => ?_
    obtain ⟨hresult, hshows', hregs, helse⟩ := ht
    refine hcopies middle t ?_ hshows' hregs helse
    rw [hresult]
    exact (Option.some.inj hsame).symm
  · rw [if_neg hin] at hscan
    refine (visit_skips hknows hword (Bool.eq_false_iff.mpr hin)).andThen fun t ht => ?_
    exact hskips (Option.some.inj hscan).symm t ht

/-- What the scan of a field changes. -/
def fieldChanged : List Reg := 9 :: 25 :: visitChanged

/-- The registers of `.Lgc_scan_fields`. -/
structure Fields (A : Areas) (image index size : Nat) (s : State) : Prop extends Knows A s where
  image : (s.regs 24).toNat = image
  index : (s.regs 25).toNat = index
  size : (s.regs 26).toNat = size

/-- `.Lgc_scan_field_skip`. -/
theorem fieldSkip_comesTo {image index size : Nat} (hfields : Fields A image index size s)
    (hindex : index + 1 < 2 ^ 64) :
    ComesTo gcCode (gcCode.from .gcScanFieldSkip, s) (gcCode.from .gcScanFields) fun t =>
      Fields A image (index + 1) size t ∧ Keeps fieldChanged s t := by
  have hat := hfields.index
  rw [gcScanFieldSkip_lines]
  refine .head rfl (.head rfl (.head rfl (.here ⟨⟨⟨?_, ?_, ?_⟩, ?_, ?_, ?_⟩, ?_⟩)))
  · simpa using hfields.record
  · simpa using hfields.fromStart
  · simpa using hfields.fromEnd
  · simpa using hfields.image
  · simp only [State.write_regs, reduceIte, Operand.eval_imm]
    bv_omega
  · simpa using hfields.size
  · simp [fieldChanged]

theorem Fields.congr {image index size : Nat} {t : State} {changed : List Reg}
    (hfields : Fields A image index size s) (hregs : KeepsRegs changed s t)
    (hout : ∀ r ∈ ([21, 22, 23, 24, 25, 26] : List Reg), r ∉ changed) :
    Fields A image index size t where
  record := by rw [hregs 21 (hout 21 (by decide)), hfields.record]
  fromStart := by rw [hregs 22 (hout 22 (by decide)), hfields.fromStart]
  fromEnd := by rw [hregs 23 (hout 23 (by decide)), hfields.fromEnd]
  image := by rw [hregs 24 (hout 24 (by decide)), hfields.image]
  index := by rw [hregs 25 (hout 25 (by decide)), hfields.index]
  size := by rw [hregs 26 (hout 26 (by decide)), hfields.size]

/-- What follows the call in `.Lgc_scan_fields`. -/
def fieldStore : Code Label :=
  .add 9 25 (.imm 3) :: .strAt 0 24 9 :: gcCode.from .gcScanFieldSkip

theorem fieldStore_comesTo {image index size : Nat} (hfields : Fields A image index size s)
    (hfits : image + 8 * (index + 3) < 2 ^ 64) :
    ComesTo gcCode (fieldStore, s) (gcCode.from .gcScanFieldSkip) fun t =>
      t.mem = store64 s.mem (image + 8 * (index + 3)) ⟨s.regs 0⟩ ∧ KeepsRegs [9] s t := by
  have himage := hfields.image
  have hindex := hfields.index
  have haddress : (s.regs 24 + (s.regs 25 + 3#64) <<< 3).toNat = image + 8 * (index + 3) := by
    bv_omega
  refine .head rfl (.head rfl (.here ⟨?_, ?_⟩))
  · rw [← haddress]
    rfl
  · simp

/-- One field. -/
theorem field_comesTo {index size : Nat} (hA : A.Valid)
    (h : Ready mem A.fromStart A.fromEnd A.free A.toEnd objs roots)
    (hf : Fingers mem A.fromStart A.fromEnd A.free A.toEnd roots copied
      (imageOf mem A.free copied o + 8 * (index + 3)) space)
    (hshows : Shows A s.mem space) (ho : o ∈ copied) (hformat : mem (o + 8) ≠ formatBytes)
    (hfields : Fields A (imageOf mem A.free copied o) index size s)
    (hi : index < size) (hsize : size + 3 = totalWords mem o) :
    ComesTo gcCode (gcCode.from .gcScanFields, s) (gcCode.from .gcScanFields) fun t =>
      ∃ more space', Fingers mem A.fromStart A.fromEnd A.free A.toEnd roots (copied ++ more)
          (imageOf mem A.free copied o + 8 * (index + 1 + 3)) space' ∧
        Shows A t.mem space' ∧ Fields A (imageOf mem A.free copied o) (index + 1) size t ∧
        KeepsRegs fieldChanged s t ∧ Elsewhere A s.mem t.mem := by
  have hslot : IsSlot mem o (index + 3) := .inr ⟨by omega, hformat⟩
  have hwords : index + 3 < totalWords mem o := by omega
  have hword := hasCopyWord h hf ho hwords
  have hfits := hword.fits hA
  obtain ⟨more, space', hscan, -, hf'⟩ := hf.scanWord h ho hwords hslot
  have himage := hfields.image
  have hindex := hfields.index
  have hcount := hfields.size
  have haddress : (s.regs 24 + (s.regs 25 + 3#64) <<< 3).toNat =
      imageOf mem A.free copied o + 8 * (index + 3) := by
    bv_omega
  have hload := hshows.load hword haddress
  have hsmall : size < 2 ^ 63 := by
    have hbounds := @imageOf_bounds mem A.free o copied ho
    have hroom := hf.fits h
    have hend := hA.toSpace
    omega
  have hstart : ComesTo gcCode (gcCode.from .gcScanFields, s)
      (visitLines .gcScanFieldSkip fieldStore) fun t =>
        (t.regs 0).toNat = space.mem (imageOf mem A.free copied o + 8 * (index + 3)) ∧
          Keeps [0, 9] s t := by
    rw [gcScanFields_lines]
    refine .head rfl (.head rfl (.notTaken ?_ (.head rfl (.head rfl (.here ⟨?_, ?_⟩)))))
    · rw [State.setFlags_flags, holds_ge]
      refine decide_eq_false ?_
      simp only [Operand.eval_reg]
      rw [toInt_eq_toNat (by omega), toInt_eq_toNat (by omega)]
      omega
    · simpa using hload
    · simp
  refine hstart.andThen fun t ht => ?_
  obtain ⟨hvalue, hkeeps⟩ := ht
  have hfields' : Fields A (imageOf mem A.free copied o) index size t :=
    hfields.congr hkeeps.regs (by decide)
  have hshows' : Shows A t.mem space := by
    rw [hkeeps.mem]
    exact hshows
  have hnext : imageOf mem A.free copied o + 8 * (index + 3 + 1) =
      imageOf mem A.free copied o + 8 * (index + 1 + 3) := by
    omega
  rw [hnext] at hf'
  refine visitWord_comesTo hA hfields'.toKnows h hf hshows' hvalue
    (pending_valid h hf ho hwords hslot) hscan ?_ ?_ ?_
  · exact gcCode.drop_from_suffix .gcScanFields 13
  · intro hsame u hu
    have hfields'' : Fields A (imageOf mem A.free copied o) index size u :=
      hfields'.congr hu.regs (by decide)
    refine (fieldSkip_comesTo hfields'' (by omega)).imp fun v hv => ?_
    obtain ⟨hfields₃, hkeeps₃⟩ := hv
    have hmem : v.mem = s.mem := by rw [hkeeps₃.mem, hu.mem, hkeeps.mem]
    refine ⟨more, space', hf', ?_, hfields₃, ?_, ?_⟩
    · rw [hmem, hsame]
      exact hshows
    · exact (hkeeps.regs.mono (by decide)).trans ((hu.regs.mono (by decide)).trans hkeeps₃.regs)
    · rw [hmem]
      exact Elsewhere.refl A s.mem
  · intro middle u hsame hshows₁ hregs helse
    have hfields₁ : Fields A (imageOf mem A.free copied o) index size u :=
      hfields'.congr hregs (by decide)
    have hstore := fieldStore_comesTo hfields₁ (by omega)
    refine hstore.andThen fun v hv => ?_
    obtain ⟨hstored, hregs₂⟩ := hv
    have hfields₂ : Fields A (imageOf mem A.free copied o) index size v :=
      hfields₁.congr hregs₂ (by decide)
    refine (fieldSkip_comesTo hfields₂ (by omega)).imp fun w hw => ?_
    obtain ⟨hfields₃, hkeeps₃⟩ := hw
    have hmem : w.mem = store64 u.mem (imageOf mem A.free copied o + 8 * (index + 3))
        ⟨u.regs 0⟩ := hkeeps₃.mem.trans hstored
    refine ⟨more, space', hf', ?_, hfields₃, ?_, ?_⟩
    · rw [hmem, hsame]
      exact hshows₁.store hA hword ⟨u.regs 0⟩
    · exact (hkeeps.regs.mono (by decide)).trans ((hregs.mono (by decide)).trans
        ((hregs₂.mono (by decide)).trans hkeeps₃.regs))
    · rw [hmem]
      rw [hkeeps.mem] at helse
      exact helse.trans (elsewhere_store u.mem hword _)

/-- The fields from one on. -/
theorem fields_comesTo (n : Nat) {index size : Nat} (hA : A.Valid)
    (h : Ready mem A.fromStart A.fromEnd A.free A.toEnd objs roots)
    (hf : Fingers mem A.fromStart A.fromEnd A.free A.toEnd roots copied
      (imageOf mem A.free copied o + 8 * (index + 3)) space)
    (hshows : Shows A s.mem space) (ho : o ∈ copied) (hformat : mem (o + 8) ≠ formatBytes)
    (hfields : Fields A (imageOf mem A.free copied o) index size s)
    (hn : index + n = size) (hsize : size + 3 = totalWords mem o) :
    ComesTo gcCode (gcCode.from .gcScanFields, s) (gcCode.from .gcScanNextObj) fun t =>
      ∃ more space', Fingers mem A.fromStart A.fromEnd A.free A.toEnd roots (copied ++ more)
          (imageOf mem A.free copied o + 8 * totalWords mem o) space' ∧
        Shows A t.mem space' ∧ KeepsRegs fieldChanged s t ∧ Elsewhere A s.mem t.mem := by
  induction n generalizing index copied s space with
  | zero =>
    have hindex := hfields.index
    have hcount := hfields.size
    have hsmall : size < 2 ^ 63 := by
      have hbounds := @imageOf_bounds mem A.free o copied ho
      have hroom := hf.fits h
      have hend := hA.toSpace
      omega
    rw [gcScanFields_lines]
    refine .head rfl (.head rfl (.taken ?_ (.here ⟨[], space, ?_, ?_, ?_, ?_⟩)))
    · rw [State.setFlags_flags, holds_ge]
      refine decide_eq_true ?_
      simp only [Operand.eval_reg]
      rw [toInt_eq_toNat (by omega), toInt_eq_toNat (by omega)]
      omega
    · rw [List.append_nil, ← hsize, ← hn]
      exact hf
    · simpa using hshows
    · simp
    · exact Elsewhere.refl A s.mem
  | succ n ih =>
    refine (field_comesTo hA h hf hshows ho hformat hfields (by omega) hsize).andThen fun t ht => ?_
    obtain ⟨more, space', hf', hshows', hfields', hregs, helse⟩ := ht
    have himage := @imageOf_append_of_mem mem A.free o copied more ho
    rw [← himage] at hf' hfields'
    have hlater := ih hf' hshows' (List.mem_append_left more ho) hfields' (by omega)
    rw [himage] at hlater
    refine hlater.imp fun u hu => ?_
    obtain ⟨more', space'', hf'', hshows'', hregs', helse'⟩ := hu
    rw [List.append_assoc] at hf''
    exact ⟨more ++ more', space'', hf'', hshows'', hregs.trans hregs', helse.trans helse'⟩

/-- What the scan of an object changes. -/
def scanChanged : List Reg := 24 :: 26 :: fieldChanged

/-- The registers of `.Lgc_scan_loop`. -/
structure Scans (A : Areas) (scan : Nat) (s : State) : Prop extends Knows A s where
  scan : (s.regs 24).toNat = scan

theorem Scans.congr {scan : Nat} {t : State} {changed : List Reg} (hscans : Scans A scan s)
    (hregs : KeepsRegs changed s t) (hout : ∀ r ∈ ([21, 22, 23, 24] : List Reg), r ∉ changed) :
    Scans A scan t where
  record := by rw [hregs 21 (hout 21 (by decide)), hscans.record]
  fromStart := by rw [hregs 22 (hout 22 (by decide)), hscans.fromStart]
  fromEnd := by rw [hregs 23 (hout 23 (by decide)), hscans.fromEnd]
  scan := by rw [hregs 24 (hout 24 (by decide)), hscans.scan]

/-- The class word of an object. -/
theorem class_comesTo (hA : A.Valid)
    (h : Ready mem A.fromStart A.fromEnd A.free A.toEnd objs roots)
    (hf : Fingers mem A.fromStart A.fromEnd A.free A.toEnd roots copied
      (imageOf mem A.free copied o) space)
    (hshows : Shows A s.mem space) (ho : o ∈ copied)
    (hscans : Scans A (imageOf mem A.free copied o) s) :
    ComesTo gcCode (gcCode.from .gcScanLoop, s) (gcCode.from .gcScanClassDone) fun t =>
      ∃ more space', Fingers mem A.fromStart A.fromEnd A.free A.toEnd roots (copied ++ more)
          (imageOf mem A.free copied o + 8) space' ∧
        Shows A t.mem space' ∧ Scans A (imageOf mem A.free copied o) t ∧
        (t.regs 26).toNat = mem (o + 16) ∧ KeepsRegs scanChanged s t ∧
        Elsewhere A s.mem t.mem := by
  have hwords := three_le_totalWords mem o
  have hclass := hasCopyWord h hf ho (by omega : 0 < totalWords mem o)
  have hsizeWord := hasCopyWord h hf ho (by omega : 2 < totalWords mem o)
  have hfits := hsizeWord.fits hA
  have hscan := hscans.scan
  have hsizeAt : (s.regs 24 + 16#64).toNat = imageOf mem A.free copied o + 16 := by bv_omega
  have hbounds := @imageOf_bounds mem A.free o copied ho
  have htop := hf.top
  have hmore : imageOf mem A.free copied o < space.free := by omega
  have hfree : (s.load (s.regs 21)).toNat = space.free := by
    rw [State.load_of_toNat hscans.record]
    exact hshows.free
  have hloadSize := hshows.load hsizeWord hsizeAt
  have hloadClass := hshows.load hclass hscan
  change _ = space.mem (imageOf mem A.free copied o + 16) at hloadSize
  rw [(hf.header ho).2] at hloadSize
  have hf₀ : Fingers mem A.fromStart A.fromEnd A.free A.toEnd roots copied
      (imageOf mem A.free copied o + 8 * 0) space := hf
  obtain ⟨more, space', hscanWord, -, hf'⟩ := hf₀.scanWord h ho (by omega) (.inl rfl)
  have hstart : ComesTo gcCode (gcCode.from .gcScanLoop, s)
      (visitLines .gcScanClassDone (.str (.reg 0) 24 0 :: gcCode.from .gcScanClassDone)) fun t =>
        (t.regs 0).toNat = space.mem (imageOf mem A.free copied o + 8 * 0) ∧
          (t.regs 26).toNat = mem (o + 16) ∧ Keeps [0, 25, 26] s t := by
    rw [gcScanLoop_lines]
    refine .head rfl (.head rfl (.head rfl (.notTaken ?_ (.head rfl (.head rfl (.here
      ⟨?_, ?_, ?_⟩))))))
    · simp [hfree, hscan]
      exact hmore
    · simpa using hloadClass
    · simpa using hloadSize
    · simp
  refine hstart.andThen fun t ht => ?_
  obtain ⟨hvalue, hsize, hkeeps⟩ := ht
  have hscans' : Scans A (imageOf mem A.free copied o) t := hscans.congr hkeeps.regs (by decide)
  have hshows' : Shows A t.mem space := by
    rw [hkeeps.mem]
    exact hshows
  refine visitWord_comesTo hA hscans'.toKnows h hf hshows' hvalue
    (pending_valid h hf₀ ho (by omega) (.inl rfl)) hscanWord ?_ ?_ ?_
  · exact gcCode.drop_from_suffix .gcScanLoop 14
  · intro hsame u hu
    refine .here ⟨more, space', hf', ?_, hscans'.congr hu.regs (by decide), ?_, ?_, ?_⟩
    · rw [hu.mem, hsame]
      exact hshows'
    · rw [hu.regs 26 (by decide), hsize]
    · exact (hkeeps.regs.mono (by decide)).trans (hu.regs.mono (by decide))
    · rw [hu.mem, hkeeps.mem]
      exact Elsewhere.refl A s.mem
  · intro middle u hsame hshows₁ hregs helse
    have hscans₁ : Scans A (imageOf mem A.free copied o) u := hscans'.congr hregs (by decide)
    have hstored : (u.store (u.regs 24 + BitVec.ofInt 64 0) (u.regs 0)).mem =
        store64 u.mem (imageOf mem A.free copied o + 8 * 0) ⟨u.regs 0⟩ := by
      simp [hscans₁.scan]
    refine .head rfl (.here ⟨more, space', hf', ?_, ⟨⟨hscans₁.record, hscans₁.fromStart,
      hscans₁.fromEnd⟩, hscans₁.scan⟩, ?_, ?_, ?_⟩)
    · rw [Operand.eval_reg, hstored, hsame]
      exact hshows₁.store hA hclass ⟨u.regs 0⟩
    · rw [State.store_regs, hregs 26 (by decide), hsize]
    · exact (hkeeps.regs.mono (by decide)).trans (hregs.mono (by decide))
    · rw [Operand.eval_reg, hstored]
      rw [hkeeps.mem] at helse
      exact helse.trans (elsewhere_store u.mem hclass _)

/-- `.Lgc_scan_next_obj`. -/
theorem nextObj_comesTo {image size : Nat} (hshows : Shows A s.mem space)
    (hscans : Scans A image s) (hsize : (s.regs 26).toNat = size)
    (hformatWord : A.HasWord (image + 8)) (hA : A.Valid) {words : Nat}
    (hwords : words = if space.mem (image + 8) = formatBytes then (size + 7) / 8 + 3 else size + 3)
    (hfits : image + 8 * words < 2 ^ 64) :
    ComesTo gcCode (gcCode.from .gcScanNextObj, s) (gcCode.from .gcScanLoop) fun t =>
      Scans A (image + 8 * words) t ∧ Keeps [9, 24, 26] s t := by
  have hscan := hscans.scan
  have hend := hformatWord.fits hA
  have hformatAt : (s.regs 24 + 8#64).toNat = image + 8 := by bv_omega
  have hformat := hshows.load hformatWord hformatAt
  have hformatIs : s.load (s.regs 24 + 8#64) = 2#64 ↔ space.mem (image + 8) = formatBytes := by
    rw [← BitVec.toNat_inj, hformat]
    rfl
  rw [gcScanNextObj_lines]
  refine .head rfl (.head rfl (.head rfl ?_))
  by_cases hbytes : space.mem (image + 8) = formatBytes
  · rw [if_pos hbytes] at hwords
    refine .notTaken ?_ (.head rfl (.head rfl ?_))
    · simpa [hformatIs] using hbytes
    rw [gcAdvNotBytes_lines]
    refine .head rfl (.head rfl (.head rfl (.head rfl (.here ⟨⟨⟨?_, ?_, ?_⟩, ?_⟩, ?_⟩))))
    · simpa using hscans.record
    · simpa using hscans.fromStart
    · simpa using hscans.fromEnd
    · simp only [State.write_regs, State.setFlags_regs, reduceIte, Fin.reduceEq, Operand.eval_imm]
      bv_omega
    · simp
  · rw [if_neg hbytes] at hwords
    refine .taken ?_ ?_
    · simpa [hformatIs] using hbytes
    rw [gcAdvNotBytes_lines]
    refine .head rfl (.head rfl (.head rfl (.head rfl (.here ⟨⟨⟨?_, ?_, ?_⟩, ?_⟩, ?_⟩))))
    · simpa using hscans.record
    · simpa using hscans.fromStart
    · simpa using hscans.fromEnd
    · simp only [State.write_regs, State.setFlags_regs, reduceIte, Fin.reduceEq, Operand.eval_imm]
      bv_omega
    · simp

/-- The body of an object, after its class. -/
theorem body_comesTo (hA : A.Valid)
    (h : Ready mem A.fromStart A.fromEnd A.free A.toEnd objs roots)
    (hf : Fingers mem A.fromStart A.fromEnd A.free A.toEnd roots copied
      (imageOf mem A.free copied o + 8) space)
    (hshows : Shows A s.mem space) (ho : o ∈ copied)
    (hscans : Scans A (imageOf mem A.free copied o) s) (hsize : (s.regs 26).toNat = mem (o + 16)) :
    ComesTo gcCode (gcCode.from .gcScanClassDone, s) (gcCode.from .gcScanNextObj) fun t =>
      ∃ more space', Fingers mem A.fromStart A.fromEnd A.free A.toEnd roots (copied ++ more)
          (imageOf mem A.free copied o + 8 * totalWords mem o) space' ∧
        Shows A t.mem space' ∧ KeepsRegs fieldChanged s t ∧ Elsewhere A s.mem t.mem := by
  have hwords := three_le_totalWords mem o
  have hformatWord := hasCopyWord h hf ho (by omega : 1 < totalWords mem o)
  have hend := hformatWord.fits hA
  have hscan := hscans.scan
  have hformatAt : (s.regs 24 + 8#64).toNat = imageOf mem A.free copied o + 8 := by bv_omega
  have hformat := hshows.load hformatWord hformatAt
  change _ = space.mem (imageOf mem A.free copied o + 8) at hformat
  rw [(hf.header ho).1] at hformat
  have hformatIs : s.load (s.regs 24 + 8#64) = 2#64 ↔ mem (o + 8) = formatBytes := by
    rw [← BitVec.toNat_inj, hformat]
    rfl
  rw [gcScanClassDone_lines]
  refine .head rfl (.head rfl (.head rfl ?_))
  -- the format and the size are no references, nor is the body of a bytes object
  by_cases hbytes : mem (o + 8) = formatBytes
  · have hf₁ : Fingers mem A.fromStart A.fromEnd A.free A.toEnd roots copied
        (imageOf mem A.free copied o + 8 * 1) space := hf
    have hskip := hf₁.skip (totalWords mem o - 1) h ho (by omega) fun j hlo _ hslot => by
      rcases hslot with hslot | hslot
      · omega
      · exact hslot.2 hbytes
    rw [Nat.add_sub_cancel' (by omega)] at hskip
    refine .taken ?_ (.here ⟨[], space, ?_, ?_, ?_, ?_⟩)
    · simpa [hformatIs] using hbytes
    · rw [List.append_nil]
      exact hskip
    · simpa using hshows
    · simp [fieldChanged]
    · exact Elsewhere.refl A s.mem
  · have htotal : totalWords mem o = mem (o + 16) + 3 := if_neg hbytes
    have hf₁ : Fingers mem A.fromStart A.fromEnd A.free A.toEnd roots copied
        (imageOf mem A.free copied o + 8 * 1) space := hf
    have hskip := hf₁.skip 2 h ho (by omega) fun j hlo hhi hslot => by
      rcases hslot with hslot | hslot <;> omega
    have hstart : ComesTo gcCode
        (.bCond .eq .gcScanNextObj :: .mov 25 (.imm 0) :: gcCode.from .gcScanFields,
          (s.write 9 (s.load (s.regs 24 + BitVec.ofInt 64 8))).setFlags
            (subFlags (s.load (s.regs 24 + BitVec.ofInt 64 8)) 2#64))
        (gcCode.from .gcScanFields) fun t =>
          Fields A (imageOf mem A.free copied o) 0 (mem (o + 16)) t ∧ Keeps fieldChanged s t := by
      refine .notTaken ?_ (.head rfl (.here ⟨⟨⟨?_, ?_, ?_⟩, ?_, ?_, ?_⟩, ?_⟩))
      · simpa [hformatIs] using hbytes
      · simpa using hscans.record
      · simpa using hscans.fromStart
      · simpa using hscans.fromEnd
      · simpa using hscan
      · simp
      · simpa using hsize
      · simp [fieldChanged]
    refine hstart.andThen fun t ht => ?_
    obtain ⟨hfields, hkeeps⟩ := ht
    have hshows₁ : Shows A t.mem space := by
      rw [hkeeps.mem]
      exact hshows
    have hloop := fields_comesTo (mem (o + 16)) hA h hskip hshows₁ ho hbytes hfields
      (Nat.zero_add _) htotal.symm
    refine hloop.imp fun u hu => ?_
    obtain ⟨more, space', hf', hshows', hregs, helse⟩ := hu
    rw [hkeeps.mem] at helse
    exact ⟨more, space', hf', hshows', hkeeps.regs.trans hregs, helse⟩

/-- **One round of `.Lgc_scan_loop`.** -/
theorem object_comesTo (hA : A.Valid)
    (h : Ready mem A.fromStart A.fromEnd A.free A.toEnd objs roots)
    (hf : Fingers mem A.fromStart A.fromEnd A.free A.toEnd roots copied
      (imageOf mem A.free copied o) space)
    (hshows : Shows A s.mem space) (ho : o ∈ copied)
    (hscans : Scans A (imageOf mem A.free copied o) s) :
    ComesTo gcCode (gcCode.from .gcScanLoop, s) (gcCode.from .gcScanLoop) fun t =>
      ∃ more space', Fingers mem A.fromStart A.fromEnd A.free A.toEnd roots (copied ++ more)
          (imageOf mem A.free copied o + 8 * totalWords mem o) space' ∧
        Shows A t.mem space' ∧ Scans A (imageOf mem A.free copied o + 8 * totalWords mem o) t ∧
        KeepsRegs scanChanged s t ∧ Elsewhere A s.mem t.mem := by
  have hwords := three_le_totalWords mem o
  refine (class_comesTo hA h hf hshows ho hscans).andThen fun t ht => ?_
  obtain ⟨more, space₁, hf₁, hshows₁, hscans₁, hsize, hregs₁, helse₁⟩ := ht
  have himage := @imageOf_append_of_mem mem A.free o copied more ho
  have ho₁ := List.mem_append_left more ho
  rw [← himage] at hf₁ hscans₁
  refine (body_comesTo hA h hf₁ hshows₁ ho₁ hscans₁ hsize).andThen fun u hu => ?_
  obtain ⟨more', space₂, hf₂, hshows₂, hregs₂, helse₂⟩ := hu
  have ho₂ := List.mem_append_left more' ho₁
  have himage₂ := @imageOf_append_of_mem mem A.free o (copied ++ more) more' ho₁
  have hheader := (hf₂.header ho₂).1
  have hformatWord := hasCopyWord h hf₂ ho₂ (by omega : 1 < totalWords mem o)
  have hbounds := @imageOf_bounds mem A.free o _ ho₂
  have hroom := hf₂.fits h
  have hend := hA.toSpace
  rw [himage₂, himage] at hheader hformatWord hbounds
  rw [himage] at hf₂
  have hscans₂ : Scans A (imageOf mem A.free copied o) u := by
    rw [← himage]
    exact hscans₁.congr hregs₂ (by decide)
  have hsize₂ : (u.regs 26).toNat = mem (o + 16) := by
    rw [hregs₂ 26 (by decide), hsize]
  have htotal : totalWords mem o = if space₂.mem (imageOf mem A.free copied o + 8) = formatBytes
      then (mem (o + 16) + 7) / 8 + 3 else mem (o + 16) + 3 := by
    rw [hheader]
    rfl
  refine (nextObj_comesTo hshows₂ hscans₂ hsize₂ hformatWord hA htotal (by omega)).imp
    fun v hv => ?_
  obtain ⟨hscans₃, hkeeps₃⟩ := hv
  rw [List.append_assoc] at hf₂
  refine ⟨more ++ more', space₂, hf₂, ?_, hscans₃, ?_, ?_⟩
  · rw [hkeeps₃.mem]
    exact hshows₂
  · exact hregs₁.trans ((hregs₂.mono (by decide)).trans (hkeeps₃.regs.mono (by decide)))
  · rw [hkeeps₃.mem]
    exact helse₁.trans helse₂

/-- **The scan catches up**: `done` are the objects scanned, and the induction is on what is
left of to-space. -/
theorem scanLoop_comesTo (left : Nat) {done todo : List Nat} (hA : A.Valid)
    (h : Ready mem A.fromStart A.fromEnd A.free A.toEnd objs roots)
    (hf : Fingers mem A.fromStart A.fromEnd A.free A.toEnd roots (done ++ todo)
      (A.free + bytesOf mem done) space)
    (hshows : Shows A s.mem space) (hscans : Scans A (A.free + bytesOf mem done) s)
    (hleft : A.toEnd - (A.free + bytesOf mem done) < left) :
    ComesTo gcCode (gcCode.from .gcScanLoop, s) (gcCode.from .gcScanDone) fun t =>
      ∃ more space', Fingers mem A.fromStart A.fromEnd A.free A.toEnd roots
          (done ++ todo ++ more) space'.free space' ∧
        Shows A t.mem space' ∧ KeepsRegs scanChanged s t ∧ Elsewhere A s.mem t.mem := by
  induction left generalizing done todo s space with
  | zero => exact absurd hleft (Nat.not_lt_zero _)
  | succ left ih =>
    have htop := hf.top
    have hfits := hf.fits h
    rw [bytesOf_append] at htop hfits
    cases todo with
    | nil =>
      have hnil : bytesOf mem [] = 0 := rfl
      have hmet : space.free = A.free + bytesOf mem done := by omega
      have hfree : (s.load (s.regs 21)).toNat = space.free := by
        rw [State.load_of_toNat hscans.record]
        exact hshows.free
      have hscan := hscans.scan
      rw [gcScanLoop_lines]
      refine .head rfl (.head rfl (.head rfl (.taken ?_ (.here ⟨[], space, ?_, ?_, ?_, ?_⟩))))
      · simp [hfree, hscan, hmet]
      · rw [List.append_nil, hmet]
        exact hf
      · simpa using hshows
      · simp [scanChanged, fieldChanged]
      · exact Elsewhere.refl A s.mem
    | cons o rest =>
      have hwords := three_le_totalWords mem o
      rw [bytesOf_cons] at htop hfits
      have hnew : o ∉ done := fun hmem =>
        (List.nodup_append.mp hf.nodup).2.2 o hmem o List.mem_cons_self rfl
      have himage : imageOf mem A.free (done ++ o :: rest) o = A.free + bytesOf mem done :=
        imageOf_append_self rest hnew
      have ho : o ∈ done ++ o :: rest := by simp
      rw [← himage] at hf hscans
      refine (object_comesTo hA h hf hshows ho hscans).andThen fun t ht => ?_
      obtain ⟨more, space', hf', hshows', hscans', hregs, helse⟩ := ht
      have hbytes : A.free + bytesOf mem done + 8 * totalWords mem o
          = A.free + bytesOf mem (done ++ [o]) := by
        rw [bytesOf_append, bytesOf_cons, Nat.add_assoc]
        rfl
      have hlist : done ++ o :: rest ++ more = (done ++ [o]) ++ (rest ++ more) := by simp
      rw [himage, hbytes] at hf' hscans'
      rw [hlist] at hf'
      refine (ih hf' hshows' hscans' (by omega)).imp fun u hu => ?_
      obtain ⟨more', space'', hf'', hshows'', hregs', helse'⟩ := hu
      have hwhole : done ++ [o] ++ (rest ++ more) ++ more' = done ++ o :: rest ++ (more ++ more') := by
        simp
      rw [hwhole] at hf''
      exact ⟨more ++ more', space'', hf'', hshows'', hregs.trans hregs', helse.trans helse'⟩

end Scan

/-! ## §6. The roots. -/

/-- The words of the root array. -/
def rootWords (m : Mem) (table : Nat) (i : Nat) : Nat := (load64 m (table + 8 * i)).toNat

/-- What a root changes. -/
def rootChanged : List Reg := 25 :: visitChanged

/-- The registers of `.Lgc_roots_loop`. -/
structure Roots (A : Areas) (table count index : Nat) (s : State) : Prop extends Knows A s where
  table : (s.regs 19).toNat = table
  count : (s.regs 20).toNat = count
  index : (s.regs 25).toNat = index

section Roots

variable {A : Areas} {mem : Nat → Nat} {objs : Nat → Prop} {roots copied : List Nat}
variable {s t : State} {space : Space} {table count index r : Nat}

theorem Roots.congr {changed : List Reg} (hroots : Roots A table count index s)
    (hregs : KeepsRegs changed s t)
    (hout : ∀ r ∈ ([19, 20, 21, 22, 23, 25] : List Reg), r ∉ changed) :
    Roots A table count index t where
  record := by rw [hregs 21 (hout 21 (by decide)), hroots.record]
  fromStart := by rw [hregs 22 (hout 22 (by decide)), hroots.fromStart]
  fromEnd := by rw [hregs 23 (hout 23 (by decide)), hroots.fromEnd]
  table := by rw [hregs 19 (hout 19 (by decide)), hroots.table]
  count := by rw [hregs 20 (hout 20 (by decide)), hroots.count]
  index := by rw [hregs 25 (hout 25 (by decide)), hroots.index]

/-- `.Lgc_root_skip`. -/
theorem rootSkip_comesTo (hroots : Roots A table count index s) (hindex : index + 1 < 2 ^ 64) :
    ComesTo gcCode (gcCode.from .gcRootSkip, s) (gcCode.from .gcRootsLoop) fun t =>
      Roots A table count (index + 1) t ∧ Keeps rootChanged s t := by
  have hat := hroots.index
  rw [gcRootSkip_lines]
  refine .head rfl (.head rfl (.head rfl (.here ⟨⟨⟨?_, ?_, ?_⟩, ?_, ?_, ?_⟩, ?_⟩)))
  · simpa using hroots.record
  · simpa using hroots.fromStart
  · simpa using hroots.fromEnd
  · simpa using hroots.table
  · simpa using hroots.count
  · simp only [State.write_regs, reduceIte, Operand.eval_imm]
    bv_omega
  · simp [rootChanged]

/-- One root: copied if it is a reference, and what became of it in its place. -/
theorem root_comesTo (hA : A.Valid)
    (h : Ready mem A.fromStart A.fromEnd A.free A.toEnd objs roots)
    (hf : Fingers mem A.fromStart A.fromEnd A.free A.toEnd roots copied A.free space)
    (hshows : Shows A s.mem space) (hr : r ∈ roots) (hroots : Roots A table count index s)
    (hindex : index < count) (hspace : table + 8 * count ≤ 2 ^ 64)
    (hword : rootWords s.mem table index = r)
    (hoff : ∀ a, table + 8 * index ≤ a → a < table + 8 * index + 8 → ¬A.Owns a) :
    ComesTo gcCode (gcCode.from .gcRootsLoop, s) (gcCode.from .gcRootsLoop) fun t =>
      ∃ more space', Fingers mem A.fromStart A.fromEnd A.free A.toEnd roots (copied ++ more)
          A.free space' ∧
        (inFromSpace A.fromStart A.fromEnd r = true → r ∈ copied ++ more) ∧
        Shows A t.mem space' ∧ Roots A table count (index + 1) t ∧
        rootWords t.mem table index =
          renamed mem A.fromStart A.fromEnd A.free (copied ++ more) r ∧
        KeepsRegs rootChanged s t ∧
        ∀ a, ¬A.Touches a → a < table + 8 * index ∨ table + 8 * index + 8 ≤ a →
          t.mem a = s.mem a := by
  have htable := hroots.table
  have hat := hroots.index
  have hcount := hroots.count
  have haddress : (s.regs 19 + s.regs 25 <<< 3).toNat = table + 8 * index := by bv_omega
  have hload : (s.load (s.regs 19 + s.regs 25 <<< 3)).toNat = r := by
    rw [State.load_of_toNat haddress]
    exact hword
  obtain ⟨more, space', hcopy, -, hf', hmem⟩ := hf.copyRoot h hr
  have hstart : ComesTo gcCode (gcCode.from .gcRootsLoop, s)
      (visitLines .gcRootSkip (.strAt 0 19 25 :: gcCode.from .gcRootSkip)) fun t =>
        (t.regs 0).toNat = r ∧ Keeps [0] s t := by
    rw [gcRootsLoop_lines]
    refine .head rfl (.head rfl (.notTaken ?_ (.head rfl (.here ⟨?_, ?_⟩))))
    · rw [State.setFlags_flags, holds_ge]
      refine decide_eq_false ?_
      simp only [Operand.eval_reg]
      rw [toInt_eq_toNat (by omega), toInt_eq_toNat (by omega)]
      omega
    · simpa using hload
    · simp
  refine hstart.andThen fun t ht => ?_
  obtain ⟨hvalue, hkeeps⟩ := ht
  have hroots₁ : Roots A table count index t := hroots.congr hkeeps.regs (by decide)
  have hshows₁ : Shows A t.mem space := by
    rw [hkeeps.mem]
    exact hshows
  unfold copyRoot at hcopy
  by_cases hin : inFromSpace A.fromStart A.fromEnd r = true
  · rw [if_pos hin] at hcopy
    refine (visit_copies hA hroots₁.toKnows hvalue hin hshows₁ (hasObject h hf (h.validRoots r hr hin))
      (free_aligned h hf) (free_le hf) hcopy (gcCode.drop_from_suffix .gcRootsLoop 12)).andThen
      fun u hu => ?_
    obtain ⟨hresult, hshows₂, hregs₂, helse₂⟩ := hu
    have hroots₂ : Roots A table count index u := hroots₁.congr hregs₂ (by decide)
    have htable₂ := hroots₂.table
    have hat₂ := hroots₂.index
    have haddress₂ : (u.regs 19 + u.regs 25 <<< 3).toNat = table + 8 * index := by bv_omega
    have hstored : (u.store (u.regs 19 + u.regs 25 <<< 3) (u.regs 0)).mem =
        store64 u.mem (table + 8 * index) ⟨u.regs 0⟩ := by
      rw [State.store_mem, haddress₂]
    have hroots₃ : Roots A table count index (u.store (u.regs 19 + u.regs 25 <<< 3) (u.regs 0)) :=
      ⟨⟨hroots₂.record, hroots₂.fromStart, hroots₂.fromEnd⟩, hroots₂.table, hroots₂.count,
        hroots₂.index⟩
    refine .head rfl ((rootSkip_comesTo hroots₃ (by omega)).imp fun v hv => ?_)
    obtain ⟨hroots₄, hkeeps₄⟩ := hv
    have hvmem := hkeeps₄.mem.trans hstored
    refine ⟨more, space', hf', hmem, ?_, hroots₄, ?_, ?_, fun a ha hout => ?_⟩
    · rw [hvmem]
      refine hshows₂.congr fun a ha => store64_of_out _ _ ?_
      have hclear := hoff a
      by_contra hcontra
      exact hclear (by omega) (by omega) ha
    · rw [hvmem, rootWords, load64_store64_self]
      exact hresult
    · exact (hkeeps.regs.mono (by decide)).trans ((hregs₂.mono (by decide)).trans hkeeps₄.regs)
    · rw [hvmem, store64_of_out _ _ (by omega), helse₂ a ha, hkeeps.mem]
  · rw [if_neg hin] at hcopy
    obtain ⟨hsame, rfl⟩ := Prod.mk.inj (Option.some.inj hcopy)
    refine (visit_skips hroots₁.toKnows hvalue (Bool.eq_false_iff.mpr hin)).andThen fun u hu => ?_
    have hroots₂ : Roots A table count index u := hroots₁.congr hu.regs (by decide)
    refine (rootSkip_comesTo hroots₂ (by omega)).imp fun v hv => ?_
    obtain ⟨hroots₃, hkeeps₃⟩ := hv
    have hvmem : v.mem = s.mem := by rw [hkeeps₃.mem, hu.mem, hkeeps.mem]
    refine ⟨more, space, hf', hmem, ?_, hroots₃, ?_, ?_, fun a _ _ => ?_⟩
    · rw [hvmem]
      exact hshows
    · rw [hvmem, hword, ← hsame]
    · exact (hkeeps.regs.mono (by decide)).trans ((hu.regs.mono (by decide)).trans hkeeps₃.regs)
    · rw [hvmem]

/-- **The roots are copied** and renamed. -/
theorem rootsLoop_comesTo {rest : List Nat} (hA : A.Valid)
    (h : Ready mem A.fromStart A.fromEnd A.free A.toEnd objs roots)
    (hf : Fingers mem A.fromStart A.fromEnd A.free A.toEnd roots copied A.free space)
    (hshows : Shows A s.mem space) (hrest : ∀ r ∈ rest, r ∈ roots)
    (hroots : Roots A table count index s) (hcount : index + rest.length = count)
    (hspace : table + 8 * count ≤ 2 ^ 64) (hwords : Holds (rootWords s.mem table) index rest)
    (hoff : ∀ a, table + 8 * index ≤ a → a < table + 8 * count → ¬A.Owns a) :
    ComesTo gcCode (gcCode.from .gcRootsLoop, s) (gcCode.from .gcRootsDone) fun t =>
      ∃ more space', Fingers mem A.fromStart A.fromEnd A.free A.toEnd roots (copied ++ more)
          A.free space' ∧
        (∀ r ∈ rest, inFromSpace A.fromStart A.fromEnd r = true → r ∈ copied ++ more) ∧
        Shows A t.mem space' ∧
        Holds (rootWords t.mem table) index
          (rest.map (renamed mem A.fromStart A.fromEnd A.free (copied ++ more))) ∧
        KeepsRegs rootChanged s t ∧
        ∀ a, ¬A.Touches a → a < table + 8 * index ∨ table + 8 * count ≤ a → t.mem a = s.mem a := by
  induction rest generalizing copied s space index with
  | nil =>
    have hat := hroots.index
    have hn := hroots.count
    rw [List.length_nil] at hcount
    rw [gcRootsLoop_lines]
    refine .head rfl (.head rfl (.taken ?_ (.here ⟨[], space, ?_, ?_, ?_, trivial, ?_, ?_⟩)))
    · rw [State.setFlags_flags, holds_ge]
      refine decide_eq_true ?_
      simp only [Operand.eval_reg]
      rw [toInt_eq_toNat (by omega), toInt_eq_toNat (by omega)]
      omega
    · rw [List.append_nil]
      exact hf
    · intro r hr
      cases hr
    · simpa using hshows
    · simp
    · exact fun _ _ _ => rfl
  | cons r rest ih =>
    obtain ⟨hfirst, hlater⟩ := hwords
    rw [List.length_cons] at hcount
    refine (root_comesTo hA h hf hshows (hrest r List.mem_cons_self) hroots (by omega) hspace hfirst
      fun a hlo hhi => hoff a (by omega) (by omega)).andThen fun t ht => ?_
    obtain ⟨more, space₁, hf₁, hmem, hshows₁, hroots₁, hword, hregs, hother⟩ := ht
    have hsame : ∀ i, index + 1 ≤ i → i < index + 1 + rest.length →
        rootWords t.mem table i = rootWords s.mem table i := by
      intro i hlo hhi
      unfold rootWords
      rw [load64_congr fun k hk => hother _ ?_ (by omega)]
      exact fun htouches => hoff _ (by omega) (by omega) htouches.owns
    have hrest₁ := ih hf₁ hshows₁ (fun x hx => hrest x (List.mem_cons_of_mem r hx)) hroots₁
      (by omega) (hlater.congr hsame) fun a hlo hhi => hoff a (by omega) hhi
    refine hrest₁.imp fun u hu => ?_
    obtain ⟨more', space₂, hf₂, hall, hshows₂, hholds, hregs', hother'⟩ := hu
    rw [List.append_assoc] at hf₂ hall hholds
    refine ⟨more ++ more', space₂, hf₂, fun x hx hin => ?_, hshows₂, ⟨?_, hholds⟩,
      hregs.trans hregs', fun a ha hout => ?_⟩
    · rcases List.mem_cons.mp hx with rfl | hx
      · rw [← List.append_assoc]
        exact List.mem_append_left more' (hmem hin)
      · exact hall x hx hin
    · rw [← List.append_assoc, renamed_append more' hmem, ← hword]
      unfold rootWords
      rw [load64_congr fun k hk => hother' _ ?_ (by omega)]
      exact fun htouches => hoff _ (by omega) (by omega) htouches.owns
    · rw [hother' a ha (by omega), hother a ha (by omega)]

end Roots

/-! ## §7. `_gc_collect`. -/

/-- The words of a memory, by their addresses. -/
def heapOf (m : Mem) (a : Nat) : Nat := (load64 m a).toNat

/-- What `_gc_collect` is called with: the record of to-space, the roots, and a stack below
which the routine saves registers; none of them lies in the spaces. -/
structure Called (A : Areas) (table : Nat) (roots : List Nat) (s : State) : Prop where
  valid : A.Valid
  free : (load64 s.mem A.toSpace).toNat = A.free
  toEnd : (load64 s.mem (A.toSpace + 8)).toNat = A.toEnd
  holds : Holds (rootWords s.mem table) 0 roots
  tableFits : table + 8 * roots.length ≤ 2 ^ 64
  tableOff : ∀ a, table ≤ a → a < table + 8 * roots.length → ¬A.Owns a
  stack : 96 ≤ (s.regs sp).toNat
  stackOff : ∀ a, (s.regs sp).toNat - 96 ≤ a → a < (s.regs sp).toNat →
    ¬A.Owns a ∧ ¬(table ≤ a ∧ a < table + 8 * roots.length)
  argTable : (s.regs 0).toNat = table
  argCount : (s.regs 1).toNat = roots.length
  argRecord : (s.regs 3).toNat = A.toSpace
  argStart : (s.regs 4).toNat = A.fromStart
  argEnd : (s.regs 5).toNat = A.fromEnd

section Collect

variable {A : Areas} {objs : Nat → Prop} {roots : List Nat} {s : State} {table : Nat}

theorem Called.shows (h : Called A table roots s) : Shows A s.mem ⟨heapOf s.mem, A.free⟩ :=
  ⟨fun _ _ => rfl, h.free, h.toEnd⟩

/-- **`_gc_collect` is a copying collection.**  Called on a well-formed from-space with room
in to-space, the routine returns; the objects that the roots reach lie in to-space, each once,
with their references and the roots renamed; the caller has its registers back, and outside the
spaces, the free pointer, the root array and the bytes below its stack pointer memory is as it was. -/
theorem gcCollect_collects (h : Called A table roots s)
    (hready : Ready (heapOf s.mem) A.fromStart A.fromEnd A.free A.toEnd objs roots) :
    ComesTo gcCode (gcCode.from .gcCollect, s) (returnPoint gcCode s) fun t =>
      ∃ copied roots' space',
        Collected (heapOf s.mem) A.fromStart A.fromEnd A.free A.toEnd roots copied roots' space' ∧
        Shows A t.mem space' ∧ Holds (rootWords t.mem table) 0 roots' ∧
        (∀ r : Reg, 19 ≤ r → t.regs r = s.regs r) ∧
        ∀ a, ¬A.Touches a → a < table ∨ table + 8 * roots.length ≤ a →
          a < (s.regs sp).toNat - 96 ∨ (s.regs sp).toNat ≤ a → t.mem a = s.mem a := by
  have hA := h.valid
  have htableFits := h.tableFits
  rw [gcCollect_lines]
  refine .head rfl ((prologue_comesTo h.stack).andThen fun t ht => ?_)
  obtain ⟨hsp, hregs, hmem, hsaved⟩ := ht
  -- what the collection reads is not below the stack pointer
  have hshows : Shows A t.mem ⟨heapOf s.mem, A.free⟩ := by
    refine h.shows.congr fun a ha => hmem a ?_
    by_contra hcontra
    exact (h.stackOff a (by omega) (by omega)).1 ha
  have htable : Holds (rootWords t.mem table) 0 roots := by
    refine h.holds.congr fun i _ hi => ?_
    unfold rootWords
    refine congrArg UInt64.toNat (load64_congr fun k hk => hmem _ ?_)
    by_contra hcontra
    exact (h.stackOff (table + 8 * i + k) (by omega) (by omega)).2 ⟨by omega, by omega⟩
  have hfree : (t.load (t.regs 3)).toNat = A.free := by
    have hrecord : (t.regs 3).toNat = A.toSpace := by
      rw [hregs 3 (by decide), h.argRecord]
    rw [State.load_of_toNat hrecord]
    exact hshows.free
  have hstart : ComesTo gcCode (.mov 19 (.reg 0) :: .mov 20 (.reg 1) :: .mov 21 (.reg 3) ::
      .mov 22 (.reg 4) :: .mov 23 (.reg 5) :: .ldr 24 21 0 :: .mov 25 (.imm 0) ::
        gcCode.from .gcRootsLoop, t) (gcCode.from .gcRootsLoop) fun u =>
      Roots A table roots.length 0 u ∧ (u.regs 24).toNat = A.free ∧ u.mem = t.mem ∧
        u.regs sp = t.regs sp := by
    refine .head rfl (.head rfl (.head rfl (.head rfl (.head rfl (.head rfl (.head rfl (.here
      ⟨⟨⟨?_, ?_, ?_⟩, ?_, ?_, ?_⟩, ?_, ?_, ?_⟩)))))))
    · simp [hregs 3 (by decide), h.argRecord]
    · simp [hregs 4 (by decide), h.argStart]
    · simp [hregs 5 (by decide), h.argEnd]
    · simp [hregs 0 (by decide), h.argTable]
    · simp [hregs 1 (by decide), h.argCount]
    · simp
    · simpa using hfree
    · rfl
    · rfl
  refine hstart.andThen fun u hu => ?_
  obtain ⟨hroots, hscan, humem, husp⟩ := hu
  rw [← humem] at hshows htable
  refine (rootsLoop_comesTo hA hready Fingers.initial hshows (fun _ hr => hr) hroots
    (Nat.zero_add _) htableFits htable fun a hlo hhi => h.tableOff a (by omega) hhi).andThen
    fun v hv => ?_
  obtain ⟨first, space₁, hf₁, hall, hshows₁, hholds, hregs₁, hother₁⟩ := hv
  rw [List.nil_append] at hf₁ hall hholds
  rw [gcRootsDone_lines]
  have hscans : Scans A (A.free + bytesOf (heapOf s.mem) []) v := by
    refine ⟨hroots.toKnows.congr hregs₁ (by decide) (by decide) (by decide), ?_⟩
    rw [hregs₁ 24 (by decide), hscan]
    rfl
  have hf₂ : Fingers (heapOf s.mem) A.fromStart A.fromEnd A.free A.toEnd roots ([] ++ first)
      (A.free + bytesOf (heapOf s.mem) []) space₁ := hf₁
  refine .head rfl ((scanLoop_comesTo _ hA hready hf₂ hshows₁ hscans (Nat.lt_succ_self _)).andThen
    fun w hw => ?_)
  obtain ⟨more, space₂, hf₃, hshows₂, hregs₂, helse⟩ := hw
  rw [List.nil_append] at hf₃
  have hroots₂ : ∀ r ∈ roots, inFromSpace A.fromStart A.fromEnd r = true → r ∈ first ++ more :=
    fun r hr hin => List.mem_append_left more (hall r hr hin)
  have hcollected := hf₃.collected hready hroots₂
  have hrenamed : roots.map (renamed (heapOf s.mem) A.fromStart A.fromEnd A.free first) =
      roots.map (renamed (heapOf s.mem) A.fromStart A.fromEnd A.free (first ++ more)) :=
    List.map_congr_left fun r hr => (renamed_append more (hall r hr)).symm
  rw [hrenamed] at hholds
  -- neither the scan nor the root loop stores to the saved registers
  have hsaved' : SavedBelow s w.mem (s.regs sp).toNat := by
    refine hsaved.congr h.stack (fun _ _ => ⟨rfl, rfl⟩) fun a hlo hhi => ?_
    change (s.regs sp).toNat - 96 ≤ a at hlo
    obtain ⟨howns, htableOff⟩ := h.stackOff a hlo hhi
    have hclear : ¬A.Touches a := fun htouches => howns htouches.owns
    rw [helse a hclear, hother₁ a hclear (by omega), humem]
  have hwsp : (w.regs sp).toNat = (s.regs sp).toNat - 96 := by
    rw [hregs₂ sp (by decide), hregs₁ sp (by decide), husp, hsp]
  rw [gcScanDone_lines]
  refine .head rfl ((epilogue_comesTo h.stack hwsp hsaved').andThen fun x hx => ?_)
  obtain ⟨hxmem, hxsaved, -⟩ := hx
  refine .returns (hxsaved 30 (by decide)) ⟨first ++ more, _, space₂, hcollected, ?_, ?_, hxsaved,
    fun a ha htableOut hstackOut => ?_⟩
  · rw [hxmem]
    exact hshows₂
  · rw [hxmem]
    refine hholds.congr fun i _ hi => congrArg UInt64.toNat (load64_congr fun k hk => helse _ ?_)
    rw [List.length_map] at hi
    exact fun htouches => h.tableOff _ (by omega) (by omega) htouches.owns
  · rw [hxmem, helse a ha, hother₁ a ha (by omega), humem, hmem a hstackOut]

end Collect

/-- From-space holds an object whose fields are itself and its class, a string; the roots are
the object and an immediate. -/
def cyclicState : State where
  regs r := if r = 0 then 8192 else if r = 1 then 2 else if r = 3 then 4096 else
    if r = 4 then 64 else if r = 5 then 136 else if r = sp then 65536 else 0
  flags := ⟨false, false, false, false⟩
  mem := [(64, 104), (80, 2), (88, 64), (96, 104), (112, 2), (120, 5), (128, 77), (4096, 1024),
    (4104, 2048), (8192, 64), (8200, 5)].foldl (fun m p => store64 m p.1 p.2) fun _ => 0

def cyclicAreas : Areas where
  fromStart := 64
  fromEnd := 136
  free := 1024
  toEnd := 2048
  toSpace := 4096

theorem cyclicState_called : Called cyclicAreas 8192 [64, 5] cyclicState where
  valid := ⟨by decide, by decide, by decide, .inr (by decide), .inr (by decide)⟩
  free := by decide
  toEnd := by decide
  holds := by decide
  tableFits := by decide
  tableOff a hlo hhi := by
    unfold Areas.Owns cyclicAreas
    simp only [List.length_cons, List.length_nil] at hhi ⊢
    omega
  stack := by decide
  stackOff a hlo hhi := by
    change 65536 - 96 ≤ a at hlo
    unfold Areas.Owns cyclicAreas
    simp only [List.length_cons, List.length_nil]
    omega
  argTable := rfl
  argCount := rfl
  argRecord := rfl
  argStart := rfl
  argEnd := rfl

theorem cyclicState_wellFormed : WellFormed (heapOf cyclicState.mem) 64 136 (· ∈ [64, 104]) := by
  refine ⟨?_, ?_, fun o o' ho ho' hne => ?_, ?_, ?_⟩
  · show ∀ o ∈ [64, 104], o % 8 = 0
    decide
  · show ∀ o ∈ [64, 104], 64 ≤ o ∧ o + 8 * totalWords (heapOf cyclicState.mem) o ≤ 136
    decide
  · simp only [List.mem_cons, List.not_mem_nil, or_false] at ho ho'
    rcases ho with rfl | rfl <;> rcases ho' with rfl | rfl
    · exact absurd rfl hne
    · exact .inl (by decide)
    · exact .inr (by decide)
    · exact absurd rfl hne
  · show ∀ o ∈ [64, 104], heapOf cyclicState.mem o % 4 = 0
    decide
  · show ∀ o ∈ [64, 104], ∀ i < totalWords (heapOf cyclicState.mem) o,
      IsSlot (heapOf cyclicState.mem) o i →
      inFromSpace 64 136 (heapOf cyclicState.mem (o + 8 * i)) = true →
      heapOf cyclicState.mem (o + 8 * i) ∈ [64, 104]
    decide

theorem cyclicState_ready :
    Ready (heapOf cyclicState.mem) 64 136 1024 2048 (· ∈ [64, 104]) [64, 5] := by
  have hroots : ∀ r ∈ [64, 5], inFromSpace 64 136 r = true → r ∈ [64, 104] := by decide
  exact ready_of_objects [64, 104] cyclicState_wellFormed hroots rfl (.inl (by decide)) (by decide)

theorem cyclicState_collects :
    ComesTo gcCode (gcCode.from .gcCollect, cyclicState) (returnPoint gcCode cyclicState) fun t =>
      ∃ copied roots' space',
        Collected (heapOf cyclicState.mem) 64 136 1024 2048 [64, 5] copied roots' space' ∧
        Shows cyclicAreas t.mem space' ∧ Holds (rootWords t.mem 8192) 0 roots' ∧
        (∀ r : Reg, 19 ≤ r → t.regs r = cyclicState.regs r) ∧
        ∀ a, ¬cyclicAreas.Touches a → a < 8192 ∨ 8208 ≤ a → a < 65440 ∨ 65536 ≤ a →
          t.mem a = cyclicState.mem a :=
  gcCollect_collects cyclicState_called cyclicState_ready

end LivingObjects.Gc.CollectAssembly
