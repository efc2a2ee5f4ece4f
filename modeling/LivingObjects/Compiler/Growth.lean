/-
  LivingObjects.Compiler.Growth — what every step of code generation keeps.

  Code, literals and the table of blocks only grow, whether an attempt gets through or not:
  a property that the few ways to write do not disturb is kept by every function, at any
  nesting.  A block is stored in the place that was reserved for it, so that the places
  before stay as they are.
-/
import LivingObjects.Compiler.Codegen

namespace LivingObjects.Compiler

open LivingObjects.Lib
open LivingObjects.Lib.Attempt

/-! ## §1. Steps that only read. -/

section Reading

variable {I : CgState → Prop} (hI : ∀ s parser, I s → I { s with parser := parser })

include hI

theorem reading_next : Keeps I next := .modifyGet fun s hs => hI s _ hs

theorem reading_unread (token : BToken) : Keeps I (unread token) := .modify fun s hs => hI s _ hs

theorem reading_setParser (parser : BParser) : Keeps I (setParser parser) :=
  .modify fun s hs => hI s _ hs

theorem reading_skipBlockLiteral (fuel depth : Nat) : Keeps I (cgSkipBlockLiteral fuel depth) := by
  induction fuel generalizing depth with
  | zero => exact .outOfFuel
  | succ fuel ih =>
    cases depth with
    | zero => exact Keeps.pure ()
    | succ depth =>
      refine .bind (reading_next hI) fun token => .ite (fun _ => Keeps.reject) fun _ => ?_
      exact .ite (fun _ => ih _) fun _ => .ite (fun _ => ih _) fun _ => ih _

theorem reading_skipLiteralArray (fuel depth : Nat) : Keeps I (cgSkipLiteralArray fuel depth) := by
  induction fuel generalizing depth with
  | zero => exact .outOfFuel
  | succ fuel ih =>
    cases depth with
    | zero => exact Keeps.pure ()
    | succ depth =>
      refine .bind (reading_next hI) fun token => .ite (fun _ => Keeps.reject) fun _ => ?_
      exact .ite (fun _ => ih _) fun _ => .ite (fun _ => ih _) fun _ => ih _

theorem reading_captureLiteralArray (fuel : Nat) : Keeps I (cgCaptureLiteralArray fuel) := by
  refine .get_bind fun start _ => .bind (reading_skipLiteralArray hI fuel 1) fun _ => ?_
  exact .get_bind fun finish _ => .bind (Keeps.require _) fun _ => Keeps.pure _

theorem reading_captureBlockSource (fuel : Nat) : Keeps I (cgCaptureBlockSource fuel) := by
  refine .get_bind fun start _ => .bind (reading_skipBlockLiteral hI fuel 1) fun _ => ?_
  exact .get_bind fun finish _ => .bind (Keeps.require _) fun _ => Keeps.pure _

theorem reading_binarySelector (token : BToken) : Keeps I (cgBinarySelector token) := by
  refine .bind (reading_next hI) fun maybeSecond => .ite (fun _ => Keeps.pure _) fun _ => ?_
  exact .bind (reading_unread hI maybeSecond) fun _ => Keeps.pure _

theorem reading_blockArgs (room : Nat) (names : List Name) :
    Keeps I (cgParseBlockArgs room names) := by
  induction room generalizing names with
  | zero =>
    unfold cgParseBlockArgs
    exact .bind (reading_next hI) fun arg => Keeps.reject
  | succ room ih =>
    unfold cgParseBlockArgs
    refine .bind (reading_next hI) fun arg => .ite (fun _ => ?_) fun _ => Keeps.reject
    refine .bind (reading_next hI) fun token => .ite (fun _ => ih _) fun _ => ?_
    exact .ite (fun _ => Keeps.pure _) fun _ => Keeps.reject

theorem reading_blockHeader : Keeps I cgParseBlockHeader := by
  refine .bind (reading_next hI) fun token => .ite (fun _ => reading_blockArgs hI 8 []) fun _ => ?_
  exact .bind (reading_unread hI token) fun _ => Keeps.pure _

theorem reading_bodyArgs (inBlock : Bool) (header : List Name) :
    Keeps I (cgBodyArgs inBlock header) :=
  .ite (fun _ => reading_blockHeader hI) fun _ => Keeps.pure header

theorem reading_temps (room : Nat) (names : List Name) : Keeps I (cgParseTemps room names) := by
  induction room generalizing names with
  | zero =>
    unfold cgParseTemps
    exact .bind (reading_next hI) fun temp => .ite (fun _ => Keeps.pure _) fun _ => Keeps.reject
  | succ room ih =>
    unfold cgParseTemps
    refine .bind (reading_next hI) fun temp => .ite (fun _ => Keeps.pure _) fun _ => ?_
    exact .ite (fun _ => ih _) fun _ => Keeps.reject

theorem reading_tempDecls : Keeps I cgParseTempDecls := by
  refine .bind (reading_next hI) fun token => .ite (fun _ => reading_temps hI 16 []) fun _ => ?_
  exact .bind (reading_unread hI token) fun _ => Keeps.pure _

end Reading

/-! ## §2. Closed properties. -/

/-- A property of the table of blocks that new places and blocks in them do not disturb. -/
structure ClosedTable (T : List CompiledBlock → Prop) (fresh : Nat) : Prop where
  room : ∀ blocks, T blocks → fresh ≤ blocks.length
  reserve : ∀ blocks, T blocks → T (blocks ++ [.empty])
  store : ∀ blocks index block, fresh ≤ index → T blocks → T (blocks.set index block)

/-- A property of the state of a body that writing does not disturb. -/
structure ClosedState (A : CgState → Prop) : Prop where
  parser : ∀ s parser, A s → A { s with parser := parser }
  emit : ∀ s i, A s → A { s with code := s.code ++ [i] }
  emitUse : ∀ s i use, A s → A { s with code := s.code ++ [i], uses := s.uses ++ [use] }
  patch : ∀ s place target, A s → A { s with code := s.code.set place (.jumpIfFalse target) }
  literal : ∀ s token, A s → A { s with literals := s.literals ++ [token] }
  instVar : ∀ s name, A s → A { s with instVarNames := s.instVarNames ++ [name] }
  sawReturn : ∀ s, A s → A { s with sawReturn := true }
  blocks : ∀ s blocks, A s → A { s with blocks := blocks }

/-- Both of them. -/
structure Held (T : List CompiledBlock → Prop) (A : CgState → Prop) (s : CgState) : Prop where
  table : T s.blocks
  state : A s

theorem ClosedState.reading {T : List CompiledBlock → Prop} {A : CgState → Prop} (hA : ClosedState A)
    (s : CgState) (parser : BParser) (hs : Held T A s) : Held T A { s with parser := parser } :=
  ⟨hs.table, hA.parser s parser hs.state⟩

/-- A body of its own is only asked to keep the table. -/
theorem ClosedState.trivial : ClosedState fun _ => True where
  parser _ _ h := h
  emit _ _ h := h
  emitUse _ _ _ h := h
  patch _ _ _ h := h
  literal _ _ h := h
  instVar _ _ h := h
  sawReturn _ h := h
  blocks _ _ h := h

/-! ## §3. Steps that write. -/

section Steps

variable {T : List CompiledBlock → Prop} {A : CgState → Prop} (hA : ClosedState A) (env : Env)

include hA

theorem held_emit (i : Instruction) : Keeps (Held T A) (emit i) :=
  .modify fun s hs => ⟨hs.table, hA.emit s i hs.state⟩

theorem held_emitUse (i : Instruction) (use : Use) : Keeps (Held T A) (emitUse i use) :=
  .modify fun s hs => ⟨hs.table, hA.emitUse s i use hs.state⟩

theorem held_setSawReturn : Keeps (Held T A) setSawReturn :=
  .modify fun s hs => ⟨hs.table, hA.sawReturn s hs.state⟩

theorem held_jumpPlaceholder : Keeps (Held T A) cgEmitJumpPlaceholder :=
  .modifyGet fun s hs => ⟨hs.table, hA.emit s _ hs.state⟩

theorem held_patch (place : Nat) : Keeps (Held T A) (cgPatch place) :=
  .modify fun s hs => ⟨hs.table, hA.patch s place _ hs.state⟩

theorem held_literalIndex (token : BToken) : Keeps (Held T A) (cgLiteralIndex token) := by
  refine .modifyGet fun s hs => ?_
  split
  · exact hs
  · exact ⟨hs.table, hA.literal s token hs.state⟩

theorem held_instVarIndex (name : Name) : Keeps (Held T A) (cgInstVarIndex env name) := by
  refine .modifyGet fun s hs => ?_
  split
  · exact hs
  · split
    · exact hs
    · split
      · exact hs
      · exact ⟨hs.table, hA.instVar s _ hs.state⟩

theorem held_pushLiteralToken (token : BToken) : Keeps (Held T A) (cgEmitPushLiteralToken token) :=
  .bind (held_literalIndex hA token) fun _ => held_emit hA _

theorem held_selectorSend (selector : List Char) (argc : Nat) :
    Keeps (Held T A) (cgEmitSelectorSend selector argc) :=
  .bind (held_literalIndex hA _) fun _ => held_emit hA _

theorem held_emitIdentifier (token : BToken) : Keeps (Held T A) (cgEmitIdentifier env token) := by
  unfold cgEmitIdentifier
  refine .ite (fun _ => held_emit hA _) fun _ => .ite (fun _ => held_emit hA _) fun _ => ?_
  refine .ite (fun _ => held_pushLiteralToken hA token) fun _ => ?_
  -- the tables of names in the order they are searched
  split
  · exact held_emitUse hA _ _
  split
  · exact held_emitUse hA _ _
  split
  · exact held_emitUse hA _ _
  split
  · exact held_emitUse hA _ _
  refine .bind (held_instVarIndex hA env token.text) fun found => ?_
  cases found with
  | some index => exact held_emit hA _
  | none => exact .bind (held_literalIndex hA _) fun _ => held_emit hA _

theorem held_emitAssignment (name : Name) {value : Cg Unit} (hvalue : Keeps (Held T A) value) :
    Keeps (Held T A) (cgEmitAssignment env name value) := by
  unfold cgEmitAssignment
  split
  · exact .bind hvalue fun _ => held_emitUse hA _ _
  split
  · exact .bind hvalue fun _ => held_emitUse hA _ _
  refine .bind (held_instVarIndex hA env name) fun found => ?_
  cases found with
  | some index => exact .bind hvalue fun _ => held_emit hA _
  | none => exact Keeps.reject

theorem held_endBlock (inBlock : Bool) : Keeps (Held T A) (cgEndBlock inBlock) := by
  refine .get_bind fun s _ => .ite (fun _ => ?_) fun _ => Keeps.pure ()
  refine .bind (held_pushLiteralToken hA nilToken) fun _ => .bind (held_emit hA _) fun _ => ?_
  exact held_setSawReturn hA

end Steps

section Table

variable {T : List CompiledBlock → Prop} {fresh : Nat} {A : CgState → Prop}

/-- The place that is reserved lies behind those that are kept. -/
theorem held_reserveBlock (hT : ClosedTable T fresh) (hA : ClosedState A) :
    Triple (Held T A) reserveBlock (fun index s => fresh ≤ index ∧ Held T A s) (Held T A) :=
  .modifyGet fun s hs =>
    ⟨hT.room _ hs.table, hT.reserve _ hs.table, hA.blocks s _ hs.state⟩

theorem held_storeBlock (hT : ClosedTable T fresh) (hA : ClosedState A) {index : Nat}
    (hindex : fresh ≤ index) (block : CompiledBlock) : Keeps (Held T A) (storeBlock index block) :=
  .modify fun s hs => ⟨hT.store _ index block hindex hs.table, hA.blocks s _ hs.state⟩

end Table

/-! ## §4. Every function. -/

/-- With some fuel, every function keeps the properties. -/
structure HeldBy (T : List CompiledBlock → Prop) (fresh fuel : Nat) (A : CgState → Prop) :
    Prop where
  primary : ∀ env token, Keeps (Held T A) (cgEmitPrimaryToken fuel env token)
  compileBlock : ∀ env source index, fresh ≤ index →
    Keeps (Held T A) (cgCompileAndStoreBlock fuel env source index)
  storeBody : ∀ env source index, fresh ≤ index →
    Keeps (Held T A) (cgStoreBody fuel env source index)
  unary : ∀ env, Keeps (Held T A) (cgParseUnaryExpression fuel env)
  unaryLoop : Keeps (Held T A) (cgUnaryLoop fuel)
  binary : ∀ env, Keeps (Held T A) (cgParseBinaryExpression fuel env)
  binaryLoop : ∀ env, Keeps (Held T A) (cgBinaryLoop fuel env)
  continuation : ∀ env, Keeps (Held T A) (cgParseExpressionContinuation fuel env)
  keywordLoop : ∀ env current selector argc,
    Keeps (Held T A) (cgKeywordLoop fuel env current selector argc)
  expression : ∀ env, Keeps (Held T A) (cgParseExpression fuel env)
  inlineExpression : ∀ env source, Keeps (Held T A) (cgEmitInlineExpression fuel env source)
  inlineStatements : ∀ env source, Keeps (Held T A) (cgEmitInlineStatements fuel env source)
  whileTrue : ∀ env, Keeps (Held T A) (cgParseWhileTrueStatement fuel env)
  statements : ∀ env, Keeps (Held T A) (cgParseStatements fuel env)
  endStatement : ∀ env, Keeps (Held T A) (cgEndStatement fuel env)
  body : ∀ inBlock header targetClass outer closureOffset,
    Keeps (Held T A) (bcCodegenBody fuel inBlock header targetClass outer closureOffset)

section Cases

variable {T : List CompiledBlock → Prop} {fresh fuel : Nat} {A : CgState → Prop}

theorem HeldBy.primary_succ (h : HeldBy T fresh fuel A) (hT : ClosedTable T fresh)
    (hA : ClosedState A) (env : Env) (token : BToken) :
    Keeps (Held T A) (cgEmitPrimaryToken (fuel + 1) env token) := by
  unfold cgEmitPrimaryToken
  refine .ite (fun _ => held_emitIdentifier hA env token) fun _ => ?_
  refine .ite (fun _ => held_pushLiteralToken hA token) fun _ => ?_
  refine .ite (fun _ => ?_) fun _ => .ite (fun _ => ?_) fun _ => .ite (fun _ => ?_)
    fun _ => Keeps.reject
  · refine .bind (h.expression env) fun _ => .bind (reading_next hA.reading) fun close => ?_
    exact Keeps.require _
  · exact .bind (reading_captureLiteralArray hA.reading fuel) fun text => held_pushLiteralToken hA _
  · refine .get_bind fun start _ => .bind (reading_skipBlockLiteral hA.reading fuel 1) fun _ => ?_
    refine .get_bind fun finish _ => .bind (Keeps.require _) fun _ => ?_
    refine .bind (Keeps.require _) fun _ => .bind (held_reserveBlock hT hA) fun index => ?_
    -- the block is compiled for the place it has been given
    intro s hs
    refine Triple.bind (h.compileBlock env _ index hs.1) (fun _ => ?_) s hs.2
    exact .bind (held_literalIndex hA _) fun _ => held_emit hA _

theorem HeldBy.compileBlock_succ (h : HeldBy T fresh fuel A) (env : Env) (source : List Char)
    {index : Nat} (hindex : fresh ≤ index) :
    Keeps (Held T A) (cgCompileAndStoreBlock (fuel + 1) env source index) := by
  unfold cgCompileAndStoreBlock
  refine .bind (h.storeBody env source index hindex).succeeds fun accepted => ?_
  refine .ite (fun _ => Keeps.pure ()) fun _ => ?_
  cases cgBuildImplicitReturnSource source with
  | none => exact Keeps.reject
  | some implicitSource => exact h.storeBody env implicitSource index hindex

/-- Of what goes on in a block, its surroundings see the table. -/
theorem HeldBy.storeBody_succ (hbody : HeldBy T fresh fuel fun _ => True) (hT : ClosedTable T fresh)
    (hA : ClosedState A) (env : Env) (source : List Char) {index : Nat} (hindex : fresh ≤ index) :
    Keeps (Held T A) (cgStoreBody (fuel + 1) env source index) := by
  unfold cgStoreBody
  refine .bind ?_ fun block => held_storeBlock hT hA hindex block
  refine .inside (fun s hs => ⟨hs.table, trivial⟩) (fun _ t s ht hs => ?_) (fun t s ht hs => ?_)
    (hbody.body true [] env.targetClass env.enclose env.blockOffset)
  · exact ⟨ht.table, hA.blocks s _ hs.state⟩
  · exact ⟨ht.table, hA.blocks s _ hs.state⟩

theorem HeldBy.continuation_succ (h : HeldBy T fresh fuel A) (hA : ClosedState A) (env : Env) :
    Keeps (Held T A) (cgParseExpressionContinuation (fuel + 1) env) := by
  unfold cgParseExpressionContinuation
  refine .bind (reading_next hA.reading) fun token => .ite (fun _ => reading_unread hA.reading token) fun _ => ?_
  refine .ite (fun _ => reading_unread hA.reading token) fun _ => ?_
  refine .ite (fun _ => h.continuation env) fun _ => .ite (fun _ => ?_) fun _ => ?_
  · exact .bind (held_selectorSend hA _ _) fun _ => h.continuation env
  refine .ite (fun _ => ?_) fun _ => .ite (fun _ => ?_) fun _ => Keeps.reject
  · refine .bind (reading_binarySelector hA.reading token) fun selector => .bind (h.unary env) fun _ => ?_
    exact .bind (held_selectorSend hA _ _) fun _ => h.continuation env
  · exact .bind (h.keywordLoop env token [] 0) fun _ => h.continuation env

theorem HeldBy.keywordLoop_succ (h : HeldBy T fresh fuel A) (hA : ClosedState A) (env : Env)
    (current : BToken) (selector : List Char) (argc : Nat) :
    Keeps (Held T A) (cgKeywordLoop (fuel + 1) env current selector argc) := by
  unfold cgKeywordLoop
  refine .bind (h.binary env) fun _ => .bind (reading_next hA.reading) fun maybeNext => ?_
  refine .ite (fun _ => h.keywordLoop env _ _ _) fun _ => ?_
  exact .bind (reading_unread hA.reading maybeNext) fun _ => held_selectorSend hA _ _

theorem HeldBy.binaryLoop_succ (h : HeldBy T fresh fuel A) (hA : ClosedState A) (env : Env) :
    Keeps (Held T A) (cgBinaryLoop (fuel + 1) env) := by
  unfold cgBinaryLoop
  refine .bind (reading_next hA.reading) fun token => .ite (fun _ => ?_) fun _ => reading_unread hA.reading token
  refine .bind (reading_binarySelector hA.reading token) fun selector => .bind (h.unary env) fun _ => ?_
  exact .bind (held_selectorSend hA _ _) fun _ => h.binaryLoop env

theorem HeldBy.unaryLoop_succ (h : HeldBy T fresh fuel A) (hA : ClosedState A) :
    Keeps (Held T A) (cgUnaryLoop (fuel + 1)) := by
  unfold cgUnaryLoop
  refine .bind (reading_next hA.reading) fun token => .ite (fun _ => ?_) fun _ => reading_unread hA.reading token
  exact .bind (held_selectorSend hA _ _) fun _ => h.unaryLoop

theorem HeldBy.inlineExpression_succ (h : HeldBy T fresh fuel A) (hA : ClosedState A) (env : Env)
    (source : List Char) : Keeps (Held T A) (cgEmitInlineExpression (fuel + 1) env source) := by
  unfold cgEmitInlineExpression
  refine .get_bind fun s _ => .bind (reading_setParser hA.reading _) fun _ => ?_
  refine .bind (h.expression env).succeeds fun accepted => .ite (fun _ => ?_) fun _ => ?_
  · refine .bind (reading_next hA.reading) fun eof => .bind (reading_setParser hA.reading _) fun _ => ?_
    exact Keeps.require _
  · exact .bind (reading_setParser hA.reading _) fun _ => Keeps.reject

theorem HeldBy.inlineStatements_succ (h : HeldBy T fresh fuel A) (hA : ClosedState A) (env : Env)
    (source : List Char) : Keeps (Held T A) (cgEmitInlineStatements (fuel + 1) env source) := by
  unfold cgEmitInlineStatements
  refine .get_bind fun s _ => .bind (reading_setParser hA.reading _) fun _ => ?_
  refine .bind (h.statements env).succeeds fun accepted => .bind (reading_setParser hA.reading _) fun _ => ?_
  exact Keeps.require _

theorem HeldBy.whileTrue_succ (h : HeldBy T fresh fuel A) (hA : ClosedState A) (env : Env) :
    Keeps (Held T A) (cgParseWhileTrueStatement (fuel + 1) env) := by
  unfold cgParseWhileTrueStatement
  refine .bind (reading_captureBlockSource hA.reading fuel) fun conditionSource => ?_
  refine .bind (reading_next hA.reading) fun keyword => .bind (Keeps.require _) fun _ => ?_
  refine .bind (reading_next hA.reading) fun bodyOpen => .bind (Keeps.require _) fun _ => ?_
  refine .bind (reading_captureBlockSource hA.reading fuel) fun bodySource => .get_bind fun s _ => ?_
  refine .bind (h.inlineExpression env conditionSource) fun _ => ?_
  refine .bind (held_jumpPlaceholder hA) fun exitPatch => ?_
  refine .bind (h.inlineStatements env bodySource) fun _ => .bind (held_emit hA _) fun _ => ?_
  exact .bind (held_patch hA exitPatch) fun _ => held_pushLiteralToken hA nilToken

theorem HeldBy.endStatement_succ (h : HeldBy T fresh fuel A) (hA : ClosedState A) (env : Env) :
    Keeps (Held T A) (cgEndStatement (fuel + 1) env) := by
  unfold cgEndStatement
  refine .bind (reading_next hA.reading) fun separator => .ite (fun _ => ?_) fun _ => ?_
  · exact .bind (held_emit hA _) fun _ => held_setSawReturn hA
  · refine .bind (Keeps.require _) fun _ => .bind (held_emit hA _) fun _ => ?_
    exact h.statements env

theorem HeldBy.statements_succ (h : HeldBy T fresh fuel A) (hA : ClosedState A) (env : Env) :
    Keeps (Held T A) (cgParseStatements (fuel + 1) env) := by
  unfold cgParseStatements
  refine .bind (reading_next hA.reading) fun token => .ite (fun _ => Keeps.pure ()) fun _ => ?_
  refine .ite (fun _ => h.statements env) fun _ => .ite (fun _ => ?_) fun _ => ?_
  · refine .bind (h.expression env) fun _ => .bind (held_emit hA _) fun _ => ?_
    refine .bind (held_setSawReturn hA) fun _ => .bind (reading_next hA.reading) fun eof => ?_
    exact Keeps.require _
  refine .ite (fun _ => ?_) fun _ => .ite (fun _ => ?_) fun _ => ?_
  · refine .get_bind fun saved _ => .bind (h.whileTrue env).succeeds fun isLoop => ?_
    refine .ite (fun _ => ?_) fun _ => ?_
    · refine .bind (reading_next hA.reading) fun separator => .ite (fun _ => Keeps.pure ()) fun _ => ?_
      refine .bind (Keeps.require _) fun _ => .bind (held_emit hA _) fun _ => ?_
      exact h.statements env
    · refine .bind (reading_setParser hA.reading _) fun _ => .bind (reading_unread hA.reading token) fun _ => ?_
      exact .bind (h.expression env) fun _ => h.endStatement env
  · refine .bind (reading_next hA.reading) fun maybeAssign => .ite (fun _ => ?_) fun _ => ?_
    · refine .bind (held_emitAssignment hA env _ (h.expression env)) fun _ => ?_
      refine .bind (reading_next hA.reading) fun separator => .ite (fun _ => Keeps.pure ()) fun _ => ?_
      exact .bind (Keeps.require _) fun _ => h.statements env
    · refine .bind (reading_unread hA.reading maybeAssign) fun _ => .bind (h.primary env token) fun _ => ?_
      exact .bind (h.continuation env) fun _ => h.endStatement env
  · refine .bind (reading_unread hA.reading token) fun _ => .bind (h.expression env) fun _ => ?_
    exact h.endStatement env

theorem HeldBy.body_succ (h : HeldBy T fresh fuel A) (hA : ClosedState A) (inBlock : Bool)
    (header : List Name) (targetClass : TargetClass) (outer : List Scope) (closureOffset : Nat) :
    Keeps (Held T A) (bcCodegenBody (fuel + 1) inBlock header targetClass outer closureOffset) := by
  unfold bcCodegenBody
  refine .bind (reading_bodyArgs hA.reading inBlock header) fun args => ?_
  refine .bind (reading_tempDecls hA.reading) fun temps => .bind (h.statements _) fun _ => ?_
  refine .bind (held_endBlock hA inBlock) fun _ => .get_bind fun s _ => ?_
  exact .bind (Keeps.require _) fun _ => Keeps.pure _

end Cases

/-- **Every function keeps a closed property**, by induction on the fuel. -/
theorem heldBy {T : List CompiledBlock → Prop} {fresh : Nat} (hT : ClosedTable T fresh)
    (fuel : Nat) : ∀ {A : CgState → Prop}, ClosedState A → HeldBy T fresh fuel A := by
  induction fuel with
  | zero =>
    intro A hA
    constructor <;> intros <;> exact Triple.outOfFuel
  | succ fuel ih =>
    intro A hA
    have h := ih hA
    exact {
      primary := h.primary_succ hT hA
      compileBlock := fun env source _ hindex => h.compileBlock_succ env source hindex
      storeBody := fun env source _ hindex =>
        (ih ClosedState.trivial).storeBody_succ hT hA env source hindex
      unary := fun env => .bind (reading_next hA.reading) fun token =>
        .bind (h.primary env token) fun _ => h.unaryLoop
      unaryLoop := h.unaryLoop_succ hA
      binary := fun env => .bind (h.unary env) fun _ => h.binaryLoop env
      binaryLoop := h.binaryLoop_succ hA
      continuation := h.continuation_succ hA
      keywordLoop := h.keywordLoop_succ hA
      expression := fun env => .bind (h.binary env) fun _ => h.continuation env
      inlineExpression := h.inlineExpression_succ hA
      inlineStatements := h.inlineStatements_succ hA
      whileTrue := h.whileTrue_succ hA
      statements := h.statements_succ hA
      endStatement := h.endStatement_succ hA
      body := h.body_succ hA }

end LivingObjects.Compiler
