/-
  LivingObjects.Compiler.Emission — what code generation writes for variables.

  Whatever the source, and whether an attempt at a statement or a block gets through or
  not, the temporaries that the code of a block reads and writes are those its uses of
  names go to.  Code that has been written stays, but for the targets of jumps.
-/
import LivingObjects.Compiler.Scopes

namespace LivingObjects.Compiler

open LivingObjects.Lib
open LivingObjects.Lib.Attempt

/-! ## §1. The invariant. -/

/-- The temporary that an instruction reads or writes. -/
def Instruction.tempSlot : Instruction → Option Nat
  | .pushTemp slot => some slot
  | .storeTemp slot => some slot
  | _ => none

/-- The instruction that a use is to have, if it goes to a temporary of the frame. -/
def Use.instruction (own : Scope) (outer : List Scope) (u : Use) : Option Instruction :=
  (u.target own outer).map fun v => match u with
    | .read _ => .pushTemp (v.slot (own :: outer))
    | .assign _ => .storeTemp (v.slot (own :: outer))

/-- The code of a block, as far as temporaries go. -/
structure CodeOf (own : Scope) (outer : List Scope) (code : List Instruction) (uses : List Use) :
    Prop where
  used : ∀ i ∈ code, i.tempSlot ≠ none → ∃ u ∈ uses, u.instruction own outer = some i
  written : ∀ u ∈ uses, ∀ i, u.instruction own outer = some i → i ∈ code

theorem Use.instruction_slot {own : Scope} {outer : List Scope} {u : Use} {i : Instruction}
    (h : u.instruction own outer = some i) :
    ∃ v, u.target own outer = some v ∧ i.tempSlot = some (v.slot (own :: outer)) := by
  obtain ⟨v, hv, rfl⟩ := Option.map_eq_some_iff.mp h
  refine ⟨v, hv, ?_⟩
  cases u <;> rfl

/-- A block of the table that has been compiled. -/
structure BlockOf (b : CompiledBlock) (own : Scope) (outer : List Scope) : Prop where
  scopes : b.scopes = own :: outer
  inside : outer ≠ []
  nested : Nested (own :: outer)
  argCount : b.argCount = own.args.length
  tempCount : b.tempCount = own.temps.length
  code : CodeOf own outer b.bytecodes b.uses

def TableOk (blocks : List CompiledBlock) : Prop :=
  ∀ b ∈ blocks, b = .empty ∨ ∃ own outer, BlockOf b own outer

structure EnvOk (env : Env) : Prop where
  nested : Nested env.enclose
  inside : env.inBlock = true → env.outer ≠ []

/-- What holds while a body is compiled; the places of the jumps to patch are kept. -/
structure Good (env : Env) (jumps : List Nat) (s : CgState) : Prop where
  code : env.inBlock = true → CodeOf env.scope env.outer s.code s.uses
  jumps : ∀ p ∈ jumps, ∃ target, s.code[p]? = some (.jumpIfFalse target)
  blocks : TableOk s.blocks

/-- Before a body. -/
structure Fresh (s : CgState) : Prop where
  code : s.code = []
  uses : s.uses = []
  blocks : TableOk s.blocks

theorem CodeOf.nil (own : Scope) (outer : List Scope) : CodeOf own outer [] [] where
  used _ hi := absurd hi List.not_mem_nil
  written _ hu := absurd hu List.not_mem_nil

theorem Fresh.good {s : CgState} (h : Fresh s) (env : Env) : Good env [] s where
  code _ := by
    rw [h.code, h.uses]
    exact .nil _ _
  jumps _ hp := absurd hp List.not_mem_nil
  blocks := h.blocks

/-- One more instruction, with the use it is for if it touches a temporary. -/
theorem CodeOf.append {own : Scope} {outer : List Scope} {code : List Instruction}
    {uses : List Use} (h : CodeOf own outer code uses) (i : Instruction) (more : List Use)
    (hused : i.tempSlot ≠ none → ∃ u ∈ more, u.instruction own outer = some i)
    (hwritten : ∀ u ∈ more, ∀ j, u.instruction own outer = some j → j = i) :
    CodeOf own outer (code ++ [i]) (uses ++ more) where
  used j hj hslot := by
    rcases List.mem_append.mp hj with hj | hj
    · obtain ⟨u, hu, hi⟩ := h.used j hj hslot
      exact ⟨u, List.mem_append_left _ hu, hi⟩
    · obtain rfl := List.mem_singleton.mp hj
      obtain ⟨u, hu, hi⟩ := hused hslot
      exact ⟨u, List.mem_append_right _ hu, hi⟩
  written u hu j hj := by
    rcases List.mem_append.mp hu with hu | hu
    · exact List.mem_append_left _ (h.written u hu j hj)
    · rw [hwritten u hu j hj]
      exact List.mem_append_right _ List.mem_cons_self

/-- A jump is given another target. -/
theorem CodeOf.patch {own : Scope} {outer : List Scope} {code : List Instruction}
    {uses : List Use} (h : CodeOf own outer code uses) {place old new : Nat}
    (hjump : code[place]? = some (.jumpIfFalse old)) :
    CodeOf own outer (code.set place (.jumpIfFalse new)) uses where
  used j hj hslot := by
    rcases List.mem_or_eq_of_mem_set hj with hj | rfl
    · exact h.used j hj hslot
    · exact absurd rfl hslot
  written u hu j hj := by
    obtain ⟨q, hq⟩ := List.mem_iff_getElem?.mp (h.written u hu j hj)
    refine List.mem_iff_getElem?.mpr ⟨q, ?_⟩
    have hne : place ≠ q := by
      rintro rfl
      obtain ⟨v, -, hslot⟩ := Use.instruction_slot hj
      rw [hjump] at hq
      obtain rfl := Option.some.inj hq
      cases hslot
    rw [List.getElem?_set_ne hne]
    exact hq

/-! ## §2. Steps that write no code. -/

section Steps

variable {env : Env} {jumps : List Nat}

theorem Good.of_same {s s' : CgState} (h : Good env jumps s) (hcode : s'.code = s.code)
    (huses : s'.uses = s.uses) (hblocks : s'.blocks = s.blocks) : Good env jumps s' where
  code hin := by
    rw [hcode, huses]
    exact h.code hin
  jumps := hcode ▸ h.jumps
  blocks := hblocks ▸ h.blocks

theorem keeps_next : Keeps (Good env jumps) next := .modifyGet fun _ hs => hs.of_same rfl rfl rfl

theorem keeps_unread (token : BToken) : Keeps (Good env jumps) (unread token) :=
  .modify fun _ hs => hs.of_same rfl rfl rfl

theorem keeps_setParser (parser : BParser) : Keeps (Good env jumps) (setParser parser) :=
  .modify fun _ hs => hs.of_same rfl rfl rfl

theorem keeps_setSawReturn : Keeps (Good env jumps) setSawReturn :=
  .modify fun _ hs => hs.of_same rfl rfl rfl

theorem keeps_literalIndex (token : BToken) : Keeps (Good env jumps) (cgLiteralIndex token) := by
  refine .modifyGet fun s hs => ?_
  split
  · exact hs
  · exact hs.of_same rfl rfl rfl

theorem keeps_instVarIndex (name : Name) : Keeps (Good env jumps) (cgInstVarIndex env name) := by
  refine .modifyGet fun s hs => ?_
  split
  · exact hs
  · split
    · exact hs
    · split
      · exact hs
      · exact hs.of_same rfl rfl rfl

theorem keeps_reserveBlock : Keeps (Good env jumps) reserveBlock := by
  refine .modifyGet fun s hs => ⟨hs.code, hs.jumps, fun b hb => ?_⟩
  rcases List.mem_append.mp hb with hb | hb
  · exact hs.blocks b hb
  · exact Or.inl (List.mem_singleton.mp hb)

theorem keeps_skipBlockLiteral (fuel depth : Nat) :
    Keeps (Good env jumps) (cgSkipBlockLiteral fuel depth) := by
  induction fuel generalizing depth with
  | zero => exact .outOfFuel
  | succ fuel ih =>
    cases depth with
    | zero => exact Keeps.pure ()
    | succ depth =>
      refine .bind keeps_next fun token => ?_
      refine .ite (fun _ => Keeps.reject) fun _ => ?_
      refine .ite (fun _ => ih _) fun _ => ?_
      exact .ite (fun _ => ih _) fun _ => ih _

theorem keeps_skipLiteralArray (fuel depth : Nat) :
    Keeps (Good env jumps) (cgSkipLiteralArray fuel depth) := by
  induction fuel generalizing depth with
  | zero => exact .outOfFuel
  | succ fuel ih =>
    cases depth with
    | zero => exact Keeps.pure ()
    | succ depth =>
      refine .bind keeps_next fun token => ?_
      refine .ite (fun _ => Keeps.reject) fun _ => ?_
      refine .ite (fun _ => ih _) fun _ => ?_
      exact .ite (fun _ => ih _) fun _ => ih _

theorem keeps_captureLiteralArray (fuel : Nat) :
    Keeps (Good env jumps) (cgCaptureLiteralArray fuel) := by
  refine .get_bind fun start _ => .bind (keeps_skipLiteralArray fuel 1) fun _ => ?_
  exact .get_bind fun finish _ => .bind (Keeps.require _) fun _ => Keeps.pure _

theorem keeps_captureBlockSource (fuel : Nat) :
    Keeps (Good env jumps) (cgCaptureBlockSource fuel) := by
  refine .get_bind fun start _ => .bind (keeps_skipBlockLiteral fuel 1) fun _ => ?_
  exact .get_bind fun finish _ => .bind (Keeps.require _) fun _ => Keeps.pure _

theorem keeps_binarySelector (token : BToken) : Keeps (Good env jumps) (cgBinarySelector token) := by
  refine .bind keeps_next fun maybeSecond => .ite (fun _ => Keeps.pure _) fun _ => ?_
  exact .bind (keeps_unread maybeSecond) fun _ => Keeps.pure _

/-! ## §3. Steps that write code. -/

theorem Good.append {s : CgState} (h : Good env jumps s) (i : Instruction) (more : List Use)
    (hcode : env.inBlock = true → CodeOf env.scope env.outer (s.code ++ [i]) (s.uses ++ more)) :
    Good env jumps { s with code := s.code ++ [i], uses := s.uses ++ more } where
  code := hcode
  jumps p hp := by
    obtain ⟨target, ht⟩ := h.jumps p hp
    have hlt := (List.getElem?_eq_some_iff.mp ht).1
    exact ⟨target, (List.getElem?_append_left hlt).trans ht⟩
  blocks := h.blocks

theorem Good.emit {s : CgState} (h : Good env jumps s) {i : Instruction} (hi : i.tempSlot = none) :
    Good env jumps { s with code := s.code ++ [i] } := by
  have happend := h.append i [] fun hin => (h.code hin).append i [] (fun hslot => absurd hi hslot)
    fun _ hu => absurd hu List.not_mem_nil
  rw [List.append_nil] at happend
  exact happend

theorem keeps_emit {i : Instruction} (hi : i.tempSlot = none) : Keeps (Good env jumps) (emit i) :=
  .modify fun _ hs => hs.emit hi

/-- The instruction goes where the use goes. -/
theorem keeps_emitUse {i : Instruction} {u : Use}
    (h : env.inBlock = true → u.instruction env.scope env.outer = i.tempSlot.map fun _ => i) :
    Keeps (Good env jumps) (emitUse i u) := by
  refine .modify fun s hs => hs.append i [u] fun hin => (hs.code hin).append i [u] ?_ ?_
  · intro hslot
    obtain ⟨n, hn⟩ := Option.ne_none_iff_exists'.mp hslot
    exact ⟨u, List.mem_cons_self, by rw [h hin, hn]; rfl⟩
  · intro w hw j hj
    obtain rfl := List.mem_singleton.mp hw
    rw [h hin] at hj
    obtain ⟨n, -, hsame⟩ := Option.map_eq_some_iff.mp hj
    exact hsame.symm

theorem keeps_pushLiteralToken (token : BToken) :
    Keeps (Good env jumps) (cgEmitPushLiteralToken token) :=
  .bind (keeps_literalIndex token) fun _ => keeps_emit rfl

theorem keeps_selectorSend (selector : List Char) (argc : Nat) :
    Keeps (Good env jumps) (cgEmitSelectorSend selector argc) :=
  .bind (keeps_literalIndex _) fun _ => keeps_emit rfl

/-- The slot of a temporary of the block itself. -/
theorem localTempSlot_eq (hin : env.inBlock = true) (index : Nat) :
    cgLocalTempSlot env index = (⟨0, true, index⟩ : Variable).slot env.enclose := by
  unfold cgLocalTempSlot
  rw [if_pos hin, Nat.add_assoc]
  rfl

theorem keeps_emitIdentifier (token : BToken) : Keeps (Good env jumps) (cgEmitIdentifier env token) := by
  unfold cgEmitIdentifier
  refine .ite (fun _ => keeps_emit rfl) fun _ => ?_
  refine .ite (fun _ => keeps_emit rfl) fun _ => ?_
  refine .ite (fun _ => keeps_pushLiteralToken token) fun _ => ?_
  cases htemp : cgTempIndex env.scope token.text with
  | some i =>
    refine keeps_emitUse fun hin => ?_
    rw [localTempSlot_eq hin, Use.instruction, Use.target, htemp]
    rfl
  | none =>
  cases harg : cgArgIndex env.scope token.text with
  | some i =>
    refine keeps_emitUse fun hin => ?_
    rw [Use.instruction, Use.target, htemp, harg]
    rfl
  | none =>
  have houterArg := cgOuterArgSlot_eq env.outer token.text
  cases hslot : cgOuterArgSlot env.outer token.text with
  | some slot =>
    rw [hslot] at houterArg
    obtain ⟨v, hv, rfl⟩ := Option.map_eq_some_iff.mp houterArg.symm
    refine keeps_emitUse fun hin => ?_
    rw [Use.instruction, Use.target, htemp, harg, hv]
    rfl
  | none =>
  rw [hslot] at houterArg
  have hnone : outerArg env.outer token.text = none := Option.map_eq_none_iff.mp houterArg.symm
  have houterTemp := cgOuterTempSlot_eq env.outer token.text
  cases hslot' : cgOuterTempSlot env.outer token.text with
  | some slot =>
    rw [hslot'] at houterTemp
    obtain ⟨v, hv, rfl⟩ := Option.map_eq_some_iff.mp houterTemp.symm
    refine keeps_emitUse fun hin => ?_
    rw [Use.instruction, Use.target, htemp, harg, hnone, hv]
    rfl
  | none =>
    refine .bind (keeps_instVarIndex token.text) fun found => ?_
    cases found with
    | some index => exact keeps_emit rfl
    | none => exact .bind (keeps_literalIndex _) fun _ => keeps_emit rfl

theorem keeps_emitAssignment (name : Name) {value : Cg Unit} (hvalue : Keeps (Good env jumps) value) :
    Keeps (Good env jumps) (cgEmitAssignment env name value) := by
  unfold cgEmitAssignment
  cases htemp : cgTempIndex env.scope name with
  | some i =>
    refine .bind hvalue fun _ => keeps_emitUse fun hin => ?_
    rw [localTempSlot_eq hin, Use.instruction, Use.target, htemp]
    rfl
  | none =>
  have houterTemp := cgOuterTempSlot_eq env.outer name
  cases hslot : cgOuterTempSlot env.outer name with
  | some slot =>
    rw [hslot] at houterTemp
    obtain ⟨v, hv, rfl⟩ := Option.map_eq_some_iff.mp houterTemp.symm
    refine .bind hvalue fun _ => keeps_emitUse fun hin => ?_
    rw [Use.instruction, Use.target, htemp, hv]
    rfl
  | none =>
    refine .bind (keeps_instVarIndex name) fun found => ?_
    cases found with
    | some index => exact .bind hvalue fun _ => keeps_emit rfl
    | none => exact Keeps.reject

theorem keeps_endBlock (inBlock : Bool) : Keeps (Good env jumps) (cgEndBlock inBlock) := by
  refine .get_bind fun s _ => .ite (fun _ => ?_) fun _ => Keeps.pure ()
  refine .bind (keeps_pushLiteralToken nilToken) fun _ => .bind (keeps_emit rfl) fun _ => ?_
  exact keeps_setSawReturn

/-- A jump to patch has its place; the rest may count on it. -/
theorem keeps_jump {f : Nat → Cg Unit} (h : ∀ place, Keeps (Good env (place :: jumps)) (f place)) :
    Keeps (Good env jumps) (cgEmitJumpPlaceholder >>= f) := by
  refine .bind (Q := fun place => Good env (place :: jumps)) (.modifyGet fun s hs => ?_) fun place => ?_
  · have hemitted := hs.emit (show Instruction.tempSlot (.jumpIfFalse 0) = none from rfl)
    refine ⟨hemitted.code, fun p hp => ?_, hemitted.blocks⟩
    rcases List.mem_cons.mp hp with rfl | hp
    · exact ⟨0, List.getElem?_concat_length⟩
    · exact hemitted.jumps p hp
  · have hweaken : ∀ s, Good env (place :: jumps) s → Good env jumps s := fun s hs =>
      ⟨hs.code, fun p hp => hs.jumps p (List.mem_cons_of_mem place hp), hs.blocks⟩
    exact (h place).imp (fun _ hs => hs) (fun _ => hweaken) hweaken

theorem keeps_patch {place : Nat} (hplace : place ∈ jumps) :
    Keeps (Good env jumps) (cgPatch place) := by
  refine .modify fun s hs => ?_
  obtain ⟨target, htarget⟩ := hs.jumps place hplace
  refine ⟨fun hin => (hs.code hin).patch htarget, fun p hp => ?_, hs.blocks⟩
  by_cases hsame : place = p
  · subst hsame
    have hlt := (List.getElem?_eq_some_iff.mp htarget).1
    exact ⟨_, List.getElem?_set_self hlt⟩
  · obtain ⟨other, hother⟩ := hs.jumps p hp
    exact ⟨other, (List.getElem?_set_ne hsame).trans hother⟩

/-- A compiled block goes into the table. -/
theorem keeps_storeBlock (blockIndex : Nat) {b : CompiledBlock}
    (hb : ∃ own outer, BlockOf b own outer) : Keeps (Good env jumps) (storeBlock blockIndex b) := by
  refine .modify fun s hs => ⟨hs.code, hs.jumps, fun c hc => ?_⟩
  rcases List.mem_or_eq_of_mem_set hc with hc | rfl
  · exact hs.blocks c hc
  · exact Or.inr hb

end Steps

/-! ## §4. Declarations come before code. -/

theorem fresh_next : Keeps Fresh next := .modifyGet fun _ hs => ⟨hs.code, hs.uses, hs.blocks⟩

theorem fresh_unread (token : BToken) : Keeps Fresh (unread token) :=
  .modify fun _ hs => ⟨hs.code, hs.uses, hs.blocks⟩

theorem fresh_blockArgs (room : Nat) (names : List Name) :
    Keeps Fresh (cgParseBlockArgs room names) := by
  induction room generalizing names with
  | zero =>
    unfold cgParseBlockArgs
    exact .bind fresh_next fun arg => Keeps.reject
  | succ room ih =>
    unfold cgParseBlockArgs
    refine .bind fresh_next fun arg => .ite (fun _ => ?_) fun _ => Keeps.reject
    refine .bind fresh_next fun token => .ite (fun _ => ih _) fun _ => ?_
    exact .ite (fun _ => Keeps.pure _) fun _ => Keeps.reject

theorem fresh_blockHeader : Keeps Fresh cgParseBlockHeader := by
  refine .bind fresh_next fun token => .ite (fun _ => fresh_blockArgs 8 []) fun _ => ?_
  exact .bind (fresh_unread token) fun _ => Keeps.pure _

theorem fresh_temps (room : Nat) (names : List Name) : Keeps Fresh (cgParseTemps room names) := by
  induction room generalizing names with
  | zero =>
    unfold cgParseTemps
    exact .bind fresh_next fun temp => .ite (fun _ => Keeps.pure _) fun _ => Keeps.reject
  | succ room ih =>
    unfold cgParseTemps
    refine .bind fresh_next fun temp => .ite (fun _ => Keeps.pure _) fun _ => ?_
    exact .ite (fun _ => ih _) fun _ => Keeps.reject

theorem fresh_tempDecls : Keeps Fresh cgParseTempDecls := by
  refine .bind fresh_next fun token => .ite (fun _ => fresh_temps 16 []) fun _ => ?_
  exact .bind (fresh_unread token) fun _ => Keeps.pure _

/-! ## §5. Every function keeps the invariant. -/

/-- A body in scopes, what they are to be when it is a block. -/
def BodyOf (inBlock : Bool) (outer : List Scope) (closureOffset : Nat) (b : CompiledBlock) : Prop :=
  inBlock = true → ∃ own, own.closureOffset = closureOffset ∧ BlockOf b own outer

/-- Where a body with the offset may stand. -/
structure PlaceOk (inBlock : Bool) (outer : List Scope) (closureOffset : Nat) : Prop where
  nested : ∀ args temps, Nested (⟨args, temps, closureOffset⟩ :: outer)
  inside : inBlock = true → outer ≠ []

/-- With some fuel, every function keeps the invariant. -/
structure Kept (fuel : Nat) : Prop where
  primary : ∀ {env jumps} token, EnvOk env →
    Keeps (Good env jumps) (cgEmitPrimaryToken fuel env token)
  compileBlock : ∀ {env jumps} source blockIndex, EnvOk env →
    Keeps (Good env jumps) (cgCompileAndStoreBlock fuel env source blockIndex)
  storeBody : ∀ {env jumps} source blockIndex, EnvOk env →
    Keeps (Good env jumps) (cgStoreBody fuel env source blockIndex)
  unary : ∀ {env jumps}, EnvOk env → Keeps (Good env jumps) (cgParseUnaryExpression fuel env)
  unaryLoop : ∀ {env jumps}, Keeps (Good env jumps) (cgUnaryLoop fuel)
  binary : ∀ {env jumps}, EnvOk env → Keeps (Good env jumps) (cgParseBinaryExpression fuel env)
  binaryLoop : ∀ {env jumps}, EnvOk env → Keeps (Good env jumps) (cgBinaryLoop fuel env)
  continuation : ∀ {env jumps}, EnvOk env →
    Keeps (Good env jumps) (cgParseExpressionContinuation fuel env)
  keywordLoop : ∀ {env jumps} current selector argc, EnvOk env →
    Keeps (Good env jumps) (cgKeywordLoop fuel env current selector argc)
  expression : ∀ {env jumps}, EnvOk env → Keeps (Good env jumps) (cgParseExpression fuel env)
  inlineExpression : ∀ {env jumps} source, EnvOk env →
    Keeps (Good env jumps) (cgEmitInlineExpression fuel env source)
  inlineStatements : ∀ {env jumps} source, EnvOk env →
    Keeps (Good env jumps) (cgEmitInlineStatements fuel env source)
  whileTrue : ∀ {env jumps}, EnvOk env →
    Keeps (Good env jumps) (cgParseWhileTrueStatement fuel env)
  statements : ∀ {env jumps}, EnvOk env → Keeps (Good env jumps) (cgParseStatements fuel env)
  endStatement : ∀ {env jumps}, EnvOk env → Keeps (Good env jumps) (cgEndStatement fuel env)
  body : ∀ {inBlock outer closureOffset} header targetClass, PlaceOk inBlock outer closureOffset →
    Triple Fresh (bcCodegenBody fuel inBlock header targetClass outer closureOffset)
      (fun b s => TableOk s.blocks ∧ BodyOf inBlock outer closureOffset b)
      (fun s => TableOk s.blocks)

section Cases

variable {fuel : Nat} {env : Env} {jumps : List Nat}

theorem Kept.primary_succ (h : Kept fuel) (token : BToken) (henv : EnvOk env) :
    Keeps (Good env jumps) (cgEmitPrimaryToken (fuel + 1) env token) := by
  unfold cgEmitPrimaryToken
  refine .ite (fun _ => keeps_emitIdentifier token) fun _ => ?_
  refine .ite (fun _ => keeps_pushLiteralToken token) fun _ => ?_
  refine .ite (fun _ => ?_) fun _ => .ite (fun _ => ?_) fun _ => .ite (fun _ => ?_) fun _ => Keeps.reject
  · refine .bind (h.expression henv) fun _ => .bind keeps_next fun close => ?_
    exact Keeps.require _
  · exact .bind (keeps_captureLiteralArray fuel) fun text => keeps_pushLiteralToken _
  · refine .get_bind fun start _ => .bind (keeps_skipBlockLiteral fuel 1) fun _ => ?_
    refine .get_bind fun finish _ => .bind (Keeps.require _) fun _ => ?_
    refine .bind (Keeps.require _) fun _ => .bind keeps_reserveBlock fun blockIndex => ?_
    refine .bind (h.compileBlock _ blockIndex henv) fun _ => ?_
    exact .bind (keeps_literalIndex _) fun _ => keeps_emit rfl

theorem Kept.compileBlock_succ (h : Kept fuel) (source : List Char) (blockIndex : Nat)
    (henv : EnvOk env) :
    Keeps (Good env jumps) (cgCompileAndStoreBlock (fuel + 1) env source blockIndex) := by
  unfold cgCompileAndStoreBlock
  refine .bind (h.storeBody source blockIndex henv).succeeds fun accepted => ?_
  refine .ite (fun _ => Keeps.pure ()) fun _ => ?_
  cases cgBuildImplicitReturnSource source with
  | none => exact Keeps.reject
  | some implicitSource => exact h.storeBody implicitSource blockIndex henv

/-- A block has a state of its own, and shares the table. -/
theorem Kept.storeBody_succ (h : Kept fuel) (source : List Char) (blockIndex : Nat)
    (henv : EnvOk env) :
    Keeps (Good env jumps) (cgStoreBody (fuel + 1) env source blockIndex) := by
  have hplace : PlaceOk true env.enclose env.blockOffset :=
    ⟨fun args temps => ⟨rfl, henv.nested⟩, fun _ => by simp [Env.enclose]⟩
  unfold cgStoreBody
  refine .bind (Q := fun b s => Good env jumps s ∧ ∃ own outer, BlockOf b own outer) ?_ fun b => ?_
  · refine .inside (fun s hs => ⟨rfl, rfl, hs.blocks⟩) (fun b t s hb hs => ⟨?_, ?_⟩)
      (fun t s ht hs => ?_) (h.body [] env.targetClass hplace)
    · exact ⟨hs.code, hs.jumps, hb.1⟩
    · obtain ⟨own, -, hown⟩ := hb.2 rfl
      exact ⟨own, _, hown⟩
    · exact ⟨hs.code, hs.jumps, ht⟩
  · intro s hs
    exact keeps_storeBlock blockIndex hs.2 s hs.1

theorem Kept.continuation_succ (h : Kept fuel) (henv : EnvOk env) :
    Keeps (Good env jumps) (cgParseExpressionContinuation (fuel + 1) env) := by
  unfold cgParseExpressionContinuation
  refine .bind keeps_next fun token => .ite (fun _ => keeps_unread token) fun _ => ?_
  refine .ite (fun _ => keeps_unread token) fun _ => ?_
  refine .ite (fun _ => h.continuation henv) fun _ => .ite (fun _ => ?_) fun _ => ?_
  · exact .bind (keeps_selectorSend _ _) fun _ => h.continuation henv
  refine .ite (fun _ => ?_) fun _ => .ite (fun _ => ?_) fun _ => Keeps.reject
  · refine .bind (keeps_binarySelector token) fun selector => .bind (h.unary henv) fun _ => ?_
    exact .bind (keeps_selectorSend _ _) fun _ => h.continuation henv
  · exact .bind (h.keywordLoop token [] 0 henv) fun _ => h.continuation henv

theorem Kept.keywordLoop_succ (h : Kept fuel) (current : BToken) (selector : List Char) (argc : Nat)
    (henv : EnvOk env) :
    Keeps (Good env jumps) (cgKeywordLoop (fuel + 1) env current selector argc) := by
  unfold cgKeywordLoop
  refine .bind (h.binary henv) fun _ => .bind keeps_next fun maybeNext => ?_
  refine .ite (fun _ => h.keywordLoop _ _ _ henv) fun _ => ?_
  exact .bind (keeps_unread maybeNext) fun _ => keeps_selectorSend _ _

theorem Kept.binaryLoop_succ (h : Kept fuel) (henv : EnvOk env) :
    Keeps (Good env jumps) (cgBinaryLoop (fuel + 1) env) := by
  unfold cgBinaryLoop
  refine .bind keeps_next fun token => .ite (fun _ => ?_) fun _ => keeps_unread token
  refine .bind (keeps_binarySelector token) fun selector => .bind (h.unary henv) fun _ => ?_
  exact .bind (keeps_selectorSend _ _) fun _ => h.binaryLoop henv

theorem Kept.unaryLoop_succ (h : Kept fuel) : Keeps (Good env jumps) (cgUnaryLoop (fuel + 1)) := by
  unfold cgUnaryLoop
  refine .bind keeps_next fun token => .ite (fun _ => ?_) fun _ => keeps_unread token
  exact .bind (keeps_selectorSend _ _) fun _ => h.unaryLoop

theorem Kept.inlineExpression_succ (h : Kept fuel) (source : List Char) (henv : EnvOk env) :
    Keeps (Good env jumps) (cgEmitInlineExpression (fuel + 1) env source) := by
  unfold cgEmitInlineExpression
  refine .get_bind fun s _ => .bind (keeps_setParser _) fun _ => ?_
  refine .bind (h.expression henv).succeeds fun accepted => .ite (fun _ => ?_) fun _ => ?_
  · refine .bind keeps_next fun eof => .bind (keeps_setParser _) fun _ => ?_
    exact Keeps.require _
  · exact .bind (keeps_setParser _) fun _ => Keeps.reject

theorem Kept.inlineStatements_succ (h : Kept fuel) (source : List Char) (henv : EnvOk env) :
    Keeps (Good env jumps) (cgEmitInlineStatements (fuel + 1) env source) := by
  unfold cgEmitInlineStatements
  refine .get_bind fun s _ => .bind (keeps_setParser _) fun _ => ?_
  refine .bind (h.statements henv).succeeds fun accepted => .bind (keeps_setParser _) fun _ => ?_
  exact Keeps.require _

theorem Kept.whileTrue_succ (h : Kept fuel) (henv : EnvOk env) :
    Keeps (Good env jumps) (cgParseWhileTrueStatement (fuel + 1) env) := by
  unfold cgParseWhileTrueStatement
  refine .bind (keeps_captureBlockSource fuel) fun conditionSource => .bind keeps_next fun keyword => ?_
  refine .bind (Keeps.require _) fun _ => .bind keeps_next fun bodyOpen => ?_
  refine .bind (Keeps.require _) fun _ => .bind (keeps_captureBlockSource fuel) fun bodySource => ?_
  refine .get_bind fun s _ => .bind (h.inlineExpression conditionSource henv) fun _ => ?_
  -- the place of the exit jump is kept while the body is compiled
  refine keeps_jump fun place => .bind (h.inlineStatements bodySource henv) fun _ => ?_
  refine .bind (keeps_emit rfl) fun _ => .bind (keeps_patch List.mem_cons_self) fun _ => ?_
  exact keeps_pushLiteralToken nilToken

theorem Kept.endStatement_succ (h : Kept fuel) (henv : EnvOk env) :
    Keeps (Good env jumps) (cgEndStatement (fuel + 1) env) := by
  unfold cgEndStatement
  refine .bind keeps_next fun separator => .ite (fun _ => ?_) fun _ => ?_
  · exact .bind (keeps_emit rfl) fun _ => keeps_setSawReturn
  · refine .bind (Keeps.require _) fun _ => .bind (keeps_emit rfl) fun _ => ?_
    exact h.statements henv

theorem Kept.statements_succ (h : Kept fuel) (henv : EnvOk env) :
    Keeps (Good env jumps) (cgParseStatements (fuel + 1) env) := by
  unfold cgParseStatements
  refine .bind keeps_next fun token => .ite (fun _ => Keeps.pure ()) fun _ => ?_
  refine .ite (fun _ => h.statements henv) fun _ => .ite (fun _ => ?_) fun _ => ?_
  · -- a return
    have hreturn : (if env.inBlock = true then Instruction.returnNonLocal else .ret).tempSlot
        = none := by
      split <;> rfl
    refine .bind (h.expression henv) fun _ => .bind (keeps_emit hreturn) fun _ => ?_
    refine .bind keeps_setSawReturn fun _ => .bind keeps_next fun eof => ?_
    exact Keeps.require _
  refine .ite (fun _ => ?_) fun _ => .ite (fun _ => ?_) fun _ => ?_
  · -- a block: a loop, or else an expression
    refine .get_bind fun saved _ => .bind (h.whileTrue henv).succeeds fun isLoop => ?_
    refine .ite (fun _ => ?_) fun _ => ?_
    · refine .bind keeps_next fun separator => .ite (fun _ => Keeps.pure ()) fun _ => ?_
      refine .bind (Keeps.require _) fun _ => .bind (keeps_emit rfl) fun _ => ?_
      exact h.statements henv
    · refine .bind (keeps_setParser _) fun _ => .bind (keeps_unread token) fun _ => ?_
      exact .bind (h.expression henv) fun _ => h.endStatement henv
  · -- an assignment, or else an expression that begins with a name
    refine .bind keeps_next fun maybeAssign => .ite (fun _ => ?_) fun _ => ?_
    · refine .bind (keeps_emitAssignment _ (h.expression henv)) fun _ => ?_
      refine .bind keeps_next fun separator => .ite (fun _ => Keeps.pure ()) fun _ => ?_
      exact .bind (Keeps.require _) fun _ => h.statements henv
    · refine .bind (keeps_unread maybeAssign) fun _ => .bind (h.primary token henv) fun _ => ?_
      exact .bind (h.continuation henv) fun _ => h.endStatement henv
  · refine .bind (keeps_unread token) fun _ => .bind (h.expression henv) fun _ => ?_
    exact h.endStatement henv

/-- A body has the scope that its declarations say. -/
theorem Kept.body_succ (h : Kept fuel) {inBlock : Bool} {outer : List Scope} {closureOffset : Nat}
    (header : List Name) (targetClass : TargetClass) (hplace : PlaceOk inBlock outer closureOffset) :
    Triple Fresh (bcCodegenBody (fuel + 1) inBlock header targetClass outer closureOffset)
      (fun b s => TableOk s.blocks ∧ BodyOf inBlock outer closureOffset b)
      (fun s => TableOk s.blocks) := by
  have hargs : Keeps Fresh (cgBodyArgs inBlock header) :=
    .ite (fun _ => fresh_blockHeader) fun _ => Keeps.pure header
  have hblocks : ∀ s, Fresh s → TableOk s.blocks := fun s hs => hs.blocks
  unfold bcCodegenBody
  refine .bind (hargs.imp (fun _ hs => hs) (fun _ _ hs => hs) hblocks) fun args => ?_
  refine .bind (fresh_tempDecls.imp (fun _ hs => hs) (fun _ _ hs => hs) hblocks) fun temps => ?_
  let env : Env := ⟨⟨args, temps, closureOffset⟩, outer, inBlock, targetClass⟩
  have henv : EnvOk env := ⟨hplace.nested args temps, hplace.inside⟩
  have hgood : ∀ s, Fresh s → Good env [] s := fun s hs => hs.good env
  have htable : ∀ s, Good env [] s → TableOk s.blocks := fun s hs => hs.blocks
  refine .bind ((h.statements henv).imp hgood (fun _ _ hs => hs) htable) fun _ => ?_
  refine .bind ((keeps_endBlock inBlock).imp (fun _ hs => hs) (fun _ _ hs => hs) htable) fun _ => ?_
  refine .get_bind fun t ht => ?_
  refine .bind ((@Keeps.require _ (Good env []) t.sawReturn).imp (fun _ hs => hs)
    (fun _ _ hs => hs) htable) fun _ => ?_
  refine Triple.pure fun u hu => ⟨hu.blocks, fun hin => ?_⟩
  exact ⟨⟨args, temps, closureOffset⟩, rfl, rfl, hplace.inside hin, hplace.nested args temps, rfl,
    rfl, ht.code hin⟩

end Cases

/-- **The invariant of code generation**, by induction on the fuel. -/
theorem kept (fuel : Nat) : Kept fuel := by
  induction fuel with
  | zero =>
    constructor <;> intros <;> exact Triple.outOfFuel
  | succ fuel ih =>
    exact {
      primary := fun token henv => ih.primary_succ token henv
      compileBlock := fun source blockIndex henv => ih.compileBlock_succ source blockIndex henv
      storeBody := fun source blockIndex henv => ih.storeBody_succ source blockIndex henv
      unary := fun henv => .bind keeps_next fun token =>
        .bind (ih.primary token henv) fun _ => ih.unaryLoop
      unaryLoop := ih.unaryLoop_succ
      binary := fun henv => .bind (ih.unary henv) fun _ => ih.binaryLoop henv
      binaryLoop := ih.binaryLoop_succ
      continuation := ih.continuation_succ
      keywordLoop := ih.keywordLoop_succ
      expression := fun henv => .bind (ih.binary henv) fun _ => ih.continuation henv
      inlineExpression := ih.inlineExpression_succ
      inlineStatements := ih.inlineStatements_succ
      whileTrue := ih.whileTrue_succ
      statements := ih.statements_succ
      endStatement := ih.endStatement_succ
      body := ih.body_succ }

/-- **The blocks of an accepted method.** -/
theorem bcCodegenMethod_table {fuel : Nat} {header : List Name} {targetClass : TargetClass}
    {source : List Char} {compiled : CompiledBody} {s : CgState}
    (h : bcCodegenMethod fuel header targetClass source = .ok compiled s) :
    TableOk compiled.blocks := by
  have hplace : PlaceOk false [] 0 := ⟨fun _ _ => rfl, fun hin => by cases hin⟩
  have hfresh : Fresh (.init source []) := ⟨rfl, rfl, fun _ hb => absurd hb List.not_mem_nil⟩
  have hbody := (kept fuel).body header targetClass hplace
  unfold bcCodegenMethod at h
  cases hrun : bcCodegenBody fuel false header targetClass [] 0 (.init source []) with
  | ok body t =>
    rw [hrun] at h
    injection h with hcompiled
    rw [← hcompiled]
    exact (hbody.of_ok hfresh hrun).1
  | rejected t =>
    rw [hrun] at h
    cases h
  | outOfFuel =>
    rw [hrun] at h
    cases h

end LivingObjects.Compiler
