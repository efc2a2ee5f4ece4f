/-
  LivingObjects.Compiler.Backtrack — the attempt at a loop, and what it leaves behind.

  A statement that begins with a block is tried as a loop first.  When that fails the
  parser goes back and the statement is compiled as an expression, but what has been
  written is not taken back.  The attempt writes as soon as the statement has the form of
  a loop and its condition begins with an operand; otherwise it fails before.
-/
import LivingObjects.Compiler.Grammar
import LivingObjects.Compiler.Growth
import LivingObjects.Compiler.Lookahead

namespace LivingObjects.Compiler

open LivingObjects.Lib
open LivingObjects.Lib.Attempt

/-! ## §1. The same tokens twice. -/

/-- Two states at the same place of the source, where the second has written more. -/
structure Ahead (d : Nat) (s t : CgState) : Prop where
  parser : t.parser = s.parser
  code : t.code.length = s.code.length + d

section Steps

variable {d : Nat} (env : Env)

theorem ahead_next : Lockstep (Ahead d) next := by
  refine .modifyGet fun s t h => ?_
  rw [h.parser]
  exact ⟨rfl, rfl, h.code⟩

theorem ahead_unread (token : BToken) : Lockstep (Ahead d) (unread token) := by
  refine .modify fun s t h => ⟨?_, h.code⟩
  show bpUnread t.parser token = bpUnread s.parser token
  rw [h.parser]

theorem ahead_skipBlockLiteral (fuel depth : Nat) :
    Lockstep (Ahead d) (cgSkipBlockLiteral fuel depth) := by
  induction fuel generalizing depth with
  | zero => exact .outOfFuel
  | succ fuel ih =>
    cases depth with
    | zero => exact .pure ()
    | succ depth =>
      refine .bind ahead_next fun token => .ite (fun _ => .reject) fun _ => ?_
      exact .ite (fun _ => ih _) fun _ => .ite (fun _ => ih _) fun _ => ih _

theorem ahead_skipLiteralArray (fuel depth : Nat) :
    Lockstep (Ahead d) (cgSkipLiteralArray fuel depth) := by
  induction fuel generalizing depth with
  | zero => exact .outOfFuel
  | succ fuel ih =>
    cases depth with
    | zero => exact .pure ()
    | succ depth =>
      refine .bind ahead_next fun token => .ite (fun _ => .reject) fun _ => ?_
      exact .ite (fun _ => ih _) fun _ => .ite (fun _ => ih _) fun _ => ih _

theorem ahead_binarySelector (token : BToken) : Lockstep (Ahead d) (cgBinarySelector token) := by
  refine .bind ahead_next fun maybeSecond => .ite (fun _ => .pure _) fun _ => ?_
  exact .bind (ahead_unread maybeSecond) fun _ => .pure _

/-- The program writes one instruction, whatever it is, and reads nothing. -/
def WritesOne (m : Cg Unit) : Prop :=
  ∀ s s', m s = .ok () s' → s'.parser = s.parser ∧ s'.code.length = s.code.length + 1

theorem WritesOne.lockstep {m : Cg Unit} (h : WritesOne m) : Lockstep (Ahead d) m := by
  intro s t hst _ s' _ t' hs ht
  obtain ⟨hparser, hcode⟩ := h s s' hs
  obtain ⟨hparser', hcode'⟩ := h t t' ht
  refine ⟨rfl, ?_, ?_⟩
  · rw [hparser, hparser', hst.parser]
  · rw [hcode, hcode', hst.code]
    omega

theorem writesOne_emit (i : Instruction) : WritesOne (emit i) := by
  intro s s' h
  obtain ⟨-, rfl⟩ := Tried.ok.inj h
  exact ⟨rfl, List.length_append⟩

theorem writesOne_emitUse (i : Instruction) (use : Use) : WritesOne (emitUse i use) := by
  intro s s' h
  obtain ⟨-, rfl⟩ := Tried.ok.inj h
  exact ⟨rfl, List.length_append⟩

/-- The program neither reads nor writes code. -/
def WritesNone {α : Type} (m : Cg α) : Prop :=
  ∀ s a s', m s = .ok a s' → s'.parser = s.parser ∧ s'.code = s.code

theorem WritesOne.after {α : Type} {m : Cg α} {f : α → Cg Unit} (hm : WritesNone m)
    (hf : ∀ a, WritesOne (f a)) : WritesOne (m >>= f) := by
  intro s s' h
  obtain ⟨a, s₁, hs₁, hs'⟩ := of_bind_ok h
  obtain ⟨hparser, hcode⟩ := hm s a s₁ hs₁
  obtain ⟨hparser', hcode'⟩ := hf a s₁ s' hs'
  exact ⟨hparser'.trans hparser, by rw [hcode', hcode]⟩

theorem writesNone_literalIndex (token : BToken) : WritesNone (cgLiteralIndex token) := by
  intro s a s' h
  obtain ⟨-, rfl⟩ := Tried.ok.inj h
  dsimp only
  split
  · exact ⟨rfl, rfl⟩
  · exact ⟨rfl, rfl⟩

theorem writesNone_instVarIndex (name : Name) : WritesNone (cgInstVarIndex env name) := by
  intro s a s' h
  obtain ⟨-, rfl⟩ := Tried.ok.inj h
  dsimp only
  split
  · exact ⟨rfl, rfl⟩
  split
  · exact ⟨rfl, rfl⟩
  split
  · exact ⟨rfl, rfl⟩
  · exact ⟨rfl, rfl⟩

theorem writesOne_pushLiteralToken (token : BToken) : WritesOne (cgEmitPushLiteralToken token) :=
  .after (writesNone_literalIndex token) fun _ => writesOne_emit _

theorem writesOne_selectorSend (selector : List Char) (argc : Nat) :
    WritesOne (cgEmitSelectorSend selector argc) :=
  .after (writesNone_literalIndex _) fun _ => writesOne_emit _

theorem writesOne_emitIdentifier (token : BToken) : WritesOne (cgEmitIdentifier env token) := by
  unfold cgEmitIdentifier
  dsimp only
  split
  · exact writesOne_emit _
  split
  · exact writesOne_emit _
  split
  · exact writesOne_pushLiteralToken token
  split
  · exact writesOne_emitUse _ _
  split
  · exact writesOne_emitUse _ _
  split
  · exact writesOne_emitUse _ _
  split
  · exact writesOne_emitUse _ _
  refine .after (writesNone_instVarIndex env _) fun found => ?_
  cases found with
  | some index => exact writesOne_emit _
  | none => exact .after (writesNone_literalIndex _) fun _ => writesOne_emit _

theorem writesNone_reserveBlock : WritesNone reserveBlock := by
  intro s a s' h
  obtain ⟨-, rfl⟩ := Tried.ok.inj h
  exact ⟨rfl, rfl⟩

/-- The place in the source and the code. -/
def Steady (parser : BParser) (code : List Instruction) (s : CgState) : Prop :=
  s.parser = parser ∧ s.code = code

/-- A block is compiled in a state of its own, also when that fails. -/
theorem steady_storeBody (parser : BParser) (code : List Instruction) (fuel : Nat)
    (source : List Char) (index : Nat) :
    Keeps (Steady parser code) (cgStoreBody fuel env source index) := by
  cases fuel with
  | zero => exact .outOfFuel
  | succ fuel =>
    unfold cgStoreBody
    have hbody : Triple (fun _ => True)
        (bcCodegenBody fuel true [] env.targetClass env.enclose env.blockOffset)
        (fun _ _ => True) (fun _ => True) := by
      intro s _
      cases bcCodegenBody fuel true [] env.targetClass env.enclose env.blockOffset s <;> trivial
    refine .bind (Q := fun _ => Steady parser code) ?_ fun block => .modify fun s hs => hs
    exact .inside (fun _ _ => trivial) (fun _ _ s _ hs => hs) (fun _ s _ hs => hs) hbody

theorem steady_compileBlock (parser : BParser) (code : List Instruction) (fuel : Nat)
    (source : List Char) (index : Nat) :
    Keeps (Steady parser code) (cgCompileAndStoreBlock fuel env source index) := by
  cases fuel with
  | zero => exact .outOfFuel
  | succ fuel =>
    unfold cgCompileAndStoreBlock
    refine .bind (steady_storeBody env parser code fuel source index).succeeds fun accepted => ?_
    refine .ite (fun _ => Keeps.pure ()) fun _ => ?_
    cases cgBuildImplicitReturnSource source with
    | none => exact Keeps.reject
    | some implicitSource => exact steady_storeBody env parser code fuel implicitSource index

theorem writesNone_compileBlock (fuel : Nat) (source : List Char) (index : Nat) :
    WritesNone (cgCompileAndStoreBlock fuel env source index) :=
  fun s _ _ h => (steady_compileBlock env s.parser s.code fuel source index).of_ok ⟨rfl, rfl⟩ h

theorem writesNone_require (c : Bool) : WritesNone (Attempt.require c) := by
  intro s _ s' h
  cases c with
  | false => cases h
  | true =>
    obtain ⟨-, rfl⟩ := Tried.ok.inj h
    exact ⟨rfl, rfl⟩

/-- The end of the branch for literal blocks, after the source. -/
def compileBlockLiteral (fuel : Nat) (env : Env) (room fits : Bool) (source : List Char) :
    Cg Unit := do
  Attempt.require room
  Attempt.require fits
  let blockIndex ← reserveBlock
  cgCompileAndStoreBlock fuel env source blockIndex
  let index ← cgLiteralIndex (blockToken blockIndex)
  emit (.pushClosure index)

theorem writesOne_blockLiteral (fuel : Nat) (room fits : Bool) (source : List Char) :
    WritesOne (compileBlockLiteral fuel env room fits source) := by
  refine .after (writesNone_require room) fun _ => .after (writesNone_require fits) fun _ => ?_
  refine .after writesNone_reserveBlock fun index => ?_
  refine .after (writesNone_compileBlock env fuel source index) fun _ => ?_
  exact .after (writesNone_literalIndex _) fun _ => writesOne_emit _

end Steps

/-! ### Every function of an expression. -/

/-- With some fuel, the functions for expressions go on side by side. -/
structure AheadBy (d fuel : Nat) : Prop where
  primary : ∀ env token, Lockstep (Ahead d) (cgEmitPrimaryToken fuel env token)
  unary : ∀ env, Lockstep (Ahead d) (cgParseUnaryExpression fuel env)
  unaryLoop : Lockstep (Ahead d) (cgUnaryLoop fuel)
  binary : ∀ env, Lockstep (Ahead d) (cgParseBinaryExpression fuel env)
  binaryLoop : ∀ env, Lockstep (Ahead d) (cgBinaryLoop fuel env)
  continuation : ∀ env, Lockstep (Ahead d) (cgParseExpressionContinuation fuel env)
  keywordLoop : ∀ env current selector argc,
    Lockstep (Ahead d) (cgKeywordLoop fuel env current selector argc)
  expression : ∀ env, Lockstep (Ahead d) (cgParseExpression fuel env)

section Cases

variable {d fuel : Nat} (env : Env)

theorem ahead_send (selector : List Char) (argc : Nat) :
    Lockstep (Ahead d) (cgEmitSelectorSend selector argc) :=
  (writesOne_selectorSend selector argc).lockstep

/-- Text that is captured is the same, and so is what is left. -/
theorem ahead_captureLiteralArray (fuel : Nat) : Lockstep (Ahead d) (cgCaptureLiteralArray fuel) := by
  intro s t hst a s' b t' hs ht
  obtain ⟨_, s₁, hget, hs⟩ := of_bind_ok hs
  obtain ⟨rfl, rfl⟩ := Tried.ok.inj hget
  obtain ⟨_, t₁, hget, ht⟩ := of_bind_ok ht
  obtain ⟨rfl, rfl⟩ := Tried.ok.inj hget
  obtain ⟨_, s₂, hskip, hs⟩ := of_bind_ok hs
  obtain ⟨_, t₂, hskip', ht⟩ := of_bind_ok ht
  obtain ⟨-, hst₂⟩ := ahead_skipLiteralArray fuel 1 _ _ hst _ _ _ _ hskip hskip'
  obtain ⟨_, s₃, hget, hs⟩ := of_bind_ok hs
  obtain ⟨rfl, rfl⟩ := Tried.ok.inj hget
  obtain ⟨_, t₃, hget, ht⟩ := of_bind_ok ht
  obtain ⟨rfl, rfl⟩ := Tried.ok.inj hget
  rw [hst.parser, hst₂.parser] at ht
  have hsame : Lockstep (Ahead d) (do
      Attempt.require (decide ((['#', '('] ++ textBetween s.parser.rest s₂.parser.rest).length
        ≤ textRoom))
      return ['#', '('] ++ textBetween s.parser.rest s₂.parser.rest) :=
    .bind (.require _) fun _ => .pure _
  exact hsame s₂ t₂ hst₂ a s' b t' hs ht

theorem ahead_blockLiteral (fuel : Nat) : Lockstep (Ahead d) (do
    let start ← Attempt.get
    cgSkipBlockLiteral fuel 1
    let finish ← Attempt.get
    compileBlockLiteral fuel env (finish.blocks.length < 16)
      ((textBetween start.parser.rest finish.parser.rest).dropLast.length < 4096)
      (textBetween start.parser.rest finish.parser.rest).dropLast) := by
  intro s t hst a s' b t' hs ht
  obtain ⟨_, s₁, hget, hs⟩ := of_bind_ok hs
  obtain ⟨rfl, rfl⟩ := Tried.ok.inj hget
  obtain ⟨_, t₁, hget, ht⟩ := of_bind_ok ht
  obtain ⟨rfl, rfl⟩ := Tried.ok.inj hget
  obtain ⟨_, s₂, hskip, hs⟩ := of_bind_ok hs
  obtain ⟨_, t₂, hskip', ht⟩ := of_bind_ok ht
  obtain ⟨-, hst₂⟩ := ahead_skipBlockLiteral fuel 1 _ _ hst _ _ _ _ hskip hskip'
  obtain ⟨_, s₃, hget, hs⟩ := of_bind_ok hs
  obtain ⟨rfl, rfl⟩ := Tried.ok.inj hget
  obtain ⟨_, t₃, hget, ht⟩ := of_bind_ok ht
  obtain ⟨rfl, rfl⟩ := Tried.ok.inj hget
  -- from here on the blocks differ, but each run writes one instruction
  obtain ⟨hparser, hcode⟩ := writesOne_blockLiteral env fuel _ _ _ s₂ s' hs
  obtain ⟨hparser', hcode'⟩ := writesOne_blockLiteral env fuel _ _ _ t₂ t' ht
  refine ⟨rfl, ?_, ?_⟩
  · rw [hparser, hparser', hst₂.parser]
  · rw [hcode, hcode', hst₂.code]
    omega

theorem AheadBy.primary_succ (h : AheadBy d fuel) (token : BToken) :
    Lockstep (Ahead d) (cgEmitPrimaryToken (fuel + 1) env token) := by
  rw [cgEmitPrimaryToken]
  refine .ite (fun _ => (writesOne_emitIdentifier env token).lockstep) fun _ => ?_
  refine .ite (fun _ => (writesOne_pushLiteralToken token).lockstep) fun _ => ?_
  refine .ite (fun _ => ?_) fun _ => .ite (fun _ => ?_) fun _ => .ite (fun _ => ?_) fun _ => .reject
  · exact .bind (h.expression env) fun _ => .bind ahead_next fun close => .require _
  · refine .bind (ahead_captureLiteralArray fuel) fun text => ?_
    exact (writesOne_pushLiteralToken _).lockstep
  · exact ahead_blockLiteral env fuel

theorem AheadBy.unaryLoop_succ (h : AheadBy d fuel) :
    Lockstep (Ahead d) (cgUnaryLoop (fuel + 1)) := by
  rw [cgUnaryLoop]
  refine .bind ahead_next fun token => .ite (fun _ => ?_) fun _ => ahead_unread token
  exact .bind (ahead_send _ _) fun _ => h.unaryLoop

theorem AheadBy.binaryLoop_succ (h : AheadBy d fuel) :
    Lockstep (Ahead d) (cgBinaryLoop (fuel + 1) env) := by
  rw [cgBinaryLoop]
  refine .bind ahead_next fun token => .ite (fun _ => ?_) fun _ => ahead_unread token
  refine .bind (ahead_binarySelector token) fun selector => .bind (h.unary env) fun _ => ?_
  exact .bind (ahead_send _ _) fun _ => h.binaryLoop env

theorem AheadBy.continuation_succ (h : AheadBy d fuel) :
    Lockstep (Ahead d) (cgParseExpressionContinuation (fuel + 1) env) := by
  rw [cgParseExpressionContinuation]
  refine .bind ahead_next fun token => .ite (fun _ => ahead_unread token) fun _ => ?_
  refine .ite (fun _ => ahead_unread token) fun _ => .ite (fun _ => h.continuation env) fun _ => ?_
  refine .ite (fun _ => .bind (ahead_send _ _) fun _ => h.continuation env) fun _ => ?_
  refine .ite (fun _ => ?_) fun _ => .ite (fun _ => ?_) fun _ => .reject
  · refine .bind (ahead_binarySelector token) fun selector => .bind (h.unary env) fun _ => ?_
    exact .bind (ahead_send _ _) fun _ => h.continuation env
  · exact .bind (h.keywordLoop env token [] 0) fun _ => h.continuation env

theorem AheadBy.keywordLoop_succ (h : AheadBy d fuel) (current : BToken) (selector : List Char)
    (argc : Nat) : Lockstep (Ahead d) (cgKeywordLoop (fuel + 1) env current selector argc) := by
  rw [cgKeywordLoop]
  refine .bind (h.binary env) fun _ => .bind ahead_next fun maybeNext => ?_
  refine .ite (fun _ => h.keywordLoop env _ _ _) fun _ => ?_
  exact .bind (ahead_unread maybeNext) fun _ => ahead_send _ _

end Cases

/-- **What has been written before does not change how much an expression writes.** -/
theorem aheadBy (d fuel : Nat) : AheadBy d fuel := by
  induction fuel with
  | zero => constructor <;> intros <;> exact .outOfFuel
  | succ fuel ih =>
    exact {
      primary := ih.primary_succ
      unary := fun env => .bind ahead_next fun token =>
        .bind (ih.primary env token) fun _ => ih.unaryLoop
      unaryLoop := ih.unaryLoop_succ
      binary := fun env => .bind (ih.unary env) fun _ => ih.binaryLoop env
      binaryLoop := ih.binaryLoop_succ
      continuation := ih.continuation_succ
      keywordLoop := ih.keywordLoop_succ
      expression := fun env => .bind (ih.binary env) fun _ => ih.continuation env }

/-! ## §2. Operands. -/

/-- The source of a literal block can be read from here, and has room. -/
def CapturesBlock (p : BParser) : Prop :=
  ∃ fuel s s', s.parser = p ∧ cgSkipBlockLiteral fuel 1 s = .ok () s' ∧
    (textBetween p.rest s'.parser.rest).dropLast.length < 4096

/-- The source of a literal array can be read from here, and has room. -/
def CapturesArray (p : BParser) : Prop :=
  ∃ fuel s s', s.parser = p ∧ cgSkipLiteralArray fuel 1 s = .ok () s' ∧
    (['#', '('] ++ textBetween p.rest s'.parser.rest).length ≤ textRoom

/-- **The source begins with an operand**, in any parentheses, with so many blocks in the
table. -/
inductive OperandAhead (blocks : Nat) : BParser → Prop where
  | name {p : BParser} (h : (bpNext p).1.type = .identifier) : OperandAhead blocks p
  | literal {p : BParser} (h : (bpNext p).1.isLiteral) : OperandAhead blocks p
  | array {p : BParser} (h : (bpNext p).1.isSpecial "#(" = true)
      (hcapture : CapturesArray (bpNext p).2) : OperandAhead blocks p
  | block {p : BParser} (h : (bpNext p).1.isSpecial "[" = true) (hroom : blocks < 16)
      (hcapture : CapturesBlock (bpNext p).2) : OperandAhead blocks p
  | parenthesis {p : BParser} (h : (bpNext p).1.isSpecial "(" = true)
      (hinside : OperandAhead blocks (bpNext p).2) : OperandAhead blocks p

/-- The loop over nested brackets, for blocks and for arrays. -/
structure Skips (skip : Nat → Nat → Cg Unit) (opening closing : String) : Prop where
  outOfFuel : ∀ depth, skip 0 depth = Attempt.outOfFuel
  done : ∀ fuel, skip (fuel + 1) 0 = pure ()
  step : ∀ fuel depth, skip (fuel + 1) (depth + 1) = do
    let token ← next
    if token.type = .eof then Attempt.reject
    else if token.isSpecial opening then skip fuel (depth + 2)
    else if token.isSpecial closing then skip fuel depth
    else skip fuel (depth + 1)

theorem skips_blockLiteral : Skips cgSkipBlockLiteral "[" "]" :=
  ⟨fun _ => rfl, fun _ => rfl, fun _ _ => rfl⟩

theorem skips_literalArray : Skips cgSkipLiteralArray "#(" ")" :=
  ⟨fun _ => rfl, fun _ => rfl, fun _ _ => rfl⟩

/-- Where the brackets end depends on the source alone. -/
theorem Skips.agrees {skip : Nat → Nat → Cg Unit} {opening closing : String}
    (hskip : Skips skip opening closing) {fuel depth : Nat} {s s' : CgState}
    (h : skip fuel depth s = .ok () s') (fuel' : Nat) {t : CgState} (ht : t.parser = s.parser) :
    skip fuel' depth t = .outOfFuel ∨
      ∃ t', skip fuel' depth t = .ok () t' ∧ t'.parser = s'.parser := by
  induction fuel generalizing depth s t fuel' with
  | zero =>
    rw [hskip.outOfFuel] at h
    cases h
  | succ fuel ih =>
    cases fuel' with
    | zero =>
      rw [hskip.outOfFuel]
      exact .inl rfl
    | succ fuel' =>
      cases depth with
      | zero =>
        rw [hskip.done] at h ⊢
        obtain ⟨-, rfl⟩ := Tried.ok.inj h
        exact .inr ⟨t, rfl, ht⟩
      | succ depth =>
        rw [hskip.step] at h ⊢
        obtain ⟨token, s₁, hnext, h⟩ := of_bind_ok h
        obtain ⟨rfl, rfl⟩ := Tried.ok.inj hnext
        have hstep : next t = .ok (bpNext s.parser).1 { t with parser := (bpNext s.parser).2 } := by
          rw [← ht]
          rfl
        rw [bind_ok hstep]
        -- both runs see the same token
        dsimp only at h ⊢
        split at h
        · cases h
        rename_i hne
        rw [if_neg hne]
        split at h
        · rename_i hopen
          rw [if_pos hopen]
          exact ih h fuel' rfl
        rename_i hopen
        rw [if_neg hopen]
        split at h
        · rename_i hclose
          rw [if_pos hclose]
          exact ih h fuel' rfl
        rename_i hclose
        rw [if_neg hclose]
        exact ih h fuel' rfl

/-- The brackets are skipped when they can be, and nothing is written. -/
theorem Skips.captured {skip : Nat → Nat → Cg Unit} {opening closing : String}
    (hskip : Skips skip opening closing) {I : CgState → Prop}
    (hI : ∀ fuel depth, Keeps I (skip fuel depth)) {fuel : Nat} {s s' : CgState}
    (h : skip fuel 1 s = .ok () s') (fuel' : Nat) :
    Triple (fun t => t.parser = s.parser ∧ I t) (skip fuel' 1)
      (fun _ t => t.parser = s'.parser ∧ I t) (fun _ => False) := by
  intro t ht
  rcases hskip.agrees h fuel' ht.1 with hrun | ⟨t', hrun, hparser⟩
  · rw [hrun]
    trivial
  · rw [hrun]
    exact ⟨hparser, (hI fuel' 1).of_ok ht.2 hrun⟩

/-! ## §3. An operand is written. -/

/-- The code has become longer. -/
def Longer (n : Nat) (s : CgState) : Prop := n < s.code.length

theorem closed_longer (n : Nat) : ClosedState (Longer n) where
  parser _ _ h := h
  emit s i h := by
    show n < (s.code ++ [i]).length
    rw [List.length_append]
    exact Nat.lt_add_right _ h
  emitUse s i use h := by
    show n < (s.code ++ [i]).length
    rw [List.length_append]
    exact Nat.lt_add_right _ h
  patch s place target h := by
    show n < (s.code.set place _).length
    rw [List.length_set]
    exact h
  literal _ _ h := h
  instVar _ _ h := h
  sawReturn _ h := h
  blocks _ _ h := h

theorem closedTable_any : ClosedTable (fun _ => True) 0 :=
  ⟨fun _ _ => Nat.zero_le _, fun _ h => h, fun _ _ _ _ h => h⟩

theorem closedTable_at (b : CompiledBlock) (n : Nat) :
    ClosedTable (fun blocks => blocks[n]? = some b) (n + 1) where
  room blocks h := (List.getElem?_eq_some_iff.mp h).1
  reserve blocks h := by
    have hlt := (List.getElem?_eq_some_iff.mp h).1
    rw [List.getElem?_append_left hlt]
    exact h
  store blocks index block hindex h := by
    have hne : index ≠ n := Nat.ne_of_gt hindex
    rw [List.getElem?_set_ne hne]
    exact h

/-- What is shown of an operand holds of the expression that begins with it, when the loops
behind it keep it. -/
theorem expression_of_primary {P Q R : CgState → Prop} (env : Env) {fuel : Nat}
    (h : ∀ less, less < fuel → Triple P (next >>= fun token => cgEmitPrimaryToken less env token)
      (fun _ => Q) R)
    (hunary : ∀ fuel, Triple Q (cgUnaryLoop fuel) (fun _ => Q) R)
    (hbinary : ∀ fuel, Triple Q (cgBinaryLoop fuel env) (fun _ => Q) R)
    (hcontinuation : ∀ fuel, Triple Q (cgParseExpressionContinuation fuel env) (fun _ => Q) R) :
    Triple P (cgParseExpression fuel env) (fun _ => Q) R := by
  rcases fuel with _ | _ | _ | fuel
  · exact .outOfFuel
  · rw [cgParseExpression]
    exact .bind (Q := fun _ => Q) .outOfFuel fun _ => hcontinuation 0
  · rw [cgParseExpression, cgParseBinaryExpression]
    exact .bind (.bind (Q := fun _ => Q) .outOfFuel fun _ => hbinary 0) fun _ => hcontinuation 1
  · have heq : cgParseUnaryExpression (fuel + 1) env =
        ((next >>= fun token => cgEmitPrimaryToken fuel env token) >>= fun _ =>
          cgUnaryLoop fuel) := by
      rw [Attempt.bind_assoc, cgParseUnaryExpression]
    rw [cgParseExpression, cgParseBinaryExpression, heq]
    have hoperand := Triple.bind (h fuel (by omega)) fun _ => hunary fuel
    have hmessages := Triple.bind hoperand fun _ => hbinary (fuel + 1)
    exact .bind hmessages fun _ => hcontinuation (fuel + 2)

/-- Something has been written: an instruction, or a place for a block that is not filled. -/
def Touched (n blocks : Nat) (s : CgState) : Prop :=
  Longer n s ∨ s.blocks[blocks]? = some .empty

section Writes

variable {n : Nat} (env : Env)

theorem longer_keeps {α : Type} {m : Cg α} (h : Keeps (Held (fun _ => True) (Longer n)) m)
    (blocks : Nat) : Triple (Longer n) m (fun _ => Longer n) (Touched n blocks) :=
  h.imp (fun _ hs => ⟨trivial, hs⟩) (fun _ _ hs => hs.state) fun _ hs => .inl hs.state

/-- Before an instruction. -/
def Before (n : Nat) (s : CgState) : Prop := s.code.length = n

theorem longer_emit (i : Instruction) :
    Triple (Before n) (emit i) (fun _ => Longer n) (fun _ => False) :=
  .modify fun s hs => by
    show n < (s.code ++ [i]).length
    rw [List.length_append, hs]
    exact Nat.lt_succ_self n

theorem longer_emitUse (i : Instruction) (use : Use) :
    Triple (Before n) (emitUse i use) (fun _ => Longer n) (fun _ => False) :=
  .modify fun s hs => by
    show n < (s.code ++ [i]).length
    rw [List.length_append, hs]
    exact Nat.lt_succ_self n

theorem before_literalIndex (token : BToken) :
    Triple (Before n) (cgLiteralIndex token) (fun _ => Before n) (fun _ => False) := by
  refine .modifyGet fun s hs => ?_
  split
  · exact hs
  · exact hs

theorem before_instVarIndex (name : Name) :
    Triple (Before n) (cgInstVarIndex env name) (fun _ => Before n) (fun _ => False) := by
  refine .modifyGet fun s hs => ?_
  split
  · exact hs
  · split
    · exact hs
    · split
      · exact hs
      · exact hs

theorem longer_pushLiteralToken (token : BToken) :
    Triple (Before n) (cgEmitPushLiteralToken token) (fun _ => Longer n) (fun _ => False) :=
  .bind (before_literalIndex token) fun _ => longer_emit _

theorem longer_emitIdentifier (token : BToken) :
    Triple (Before n) (cgEmitIdentifier env token) (fun _ => Longer n) (fun _ => False) := by
  unfold cgEmitIdentifier
  refine .ite (fun _ => longer_emit _) fun _ => .ite (fun _ => longer_emit _) fun _ => ?_
  refine .ite (fun _ => longer_pushLiteralToken token) fun _ => ?_
  split
  · exact longer_emitUse _ _
  split
  · exact longer_emitUse _ _
  split
  · exact longer_emitUse _ _
  split
  · exact longer_emitUse _ _
  refine .bind (before_instVarIndex env token.text) fun found => ?_
  cases found with
  | some index => exact longer_emit _
  | none => exact .bind (before_literalIndex _) fun _ => longer_emit _

/-- The place of the block that is being compiled is not filled yet. -/
def EmptyAt (place : Nat) (s : CgState) : Prop := s.blocks[place]? = some .empty

theorem emptyAt_storeBody (fuel : Nat) (source : List Char) (place : Nat) :
    Triple (fun s => Before n s ∧ EmptyAt place s) (cgStoreBody fuel env source place)
      (fun _ => Before n) (fun s => Before n s ∧ EmptyAt place s) := by
  cases fuel with
  | zero => exact .outOfFuel
  | succ fuel =>
    unfold cgStoreBody
    refine .bind (Q := fun _ => Before n) ?_ fun block => .modify fun s hs => hs
    have hbody := (heldBy (closedTable_at .empty place) fuel ClosedState.trivial).body true []
      env.targetClass env.enclose env.blockOffset
    refine .inside (fun s hs => ⟨hs.2, trivial⟩) (fun _ t s _ hs => hs.1) (fun t s ht hs => ?_) hbody
    exact ⟨hs.1, ht.table⟩

/-- A block that is not accepted has left its place empty. -/
theorem emptyAt_compileBlock (fuel : Nat) (source : List Char) (place : Nat) :
    Triple (fun s => Before n s ∧ EmptyAt place s) (cgCompileAndStoreBlock fuel env source place)
      (fun _ => Before n) (EmptyAt place) := by
  cases fuel with
  | zero => exact .outOfFuel
  | succ fuel =>
    unfold cgCompileAndStoreBlock
    refine .bind (emptyAt_storeBody env fuel source place).succeeds fun accepted => ?_
    cases accepted with
    | true => exact .pure fun s hs => hs.1 rfl
    | false =>
      rw [if_neg Bool.false_ne_true]
      cases cgBuildImplicitReturnSource source with
      | none => exact .reject fun s hs => (hs.2 rfl).2
      | some implicitSource =>
        exact (emptyAt_storeBody env fuel implicitSource place).imp (fun s hs => hs.2 rfl)
          (fun _ _ hs => hs) fun s hs => hs.2

/-- Before an expression, with so many blocks in the table. -/
structure At (p : BParser) (n blocks : Nat) (s : CgState) : Prop where
  parser : s.parser = p
  code : s.code.length = n
  blocks : s.blocks.length = blocks

theorem at_next {p : BParser} {blocks : Nat} :
    Triple (At p n blocks) next
      (fun token s => token = (bpNext p).1 ∧ At (bpNext p).2 n blocks s) (fun _ => False) :=
  .modifyGet fun s hs => by
    rw [← hs.parser]
    exact ⟨rfl, rfl, hs.code, hs.blocks⟩

theorem touched_of_false {α : Type} {P : CgState → Prop} {m : Cg α} {blocks : Nat}
    {Q : α → CgState → Prop} (h : Triple P m Q (fun _ => False)) : Triple P m Q (Touched n blocks) :=
  h.imp (fun _ hs => hs) (fun _ _ hs => hs) fun _ hs => hs.elim

/-- The first operand is the first thing an expression writes. -/
theorem touched_expression {p : BParser} {blocks : Nat} (h : ∀ fuel, Triple (At p n blocks)
      (next >>= fun token => cgEmitPrimaryToken fuel env token) (fun _ => Longer n)
      (Touched n blocks)) (fuel : Nat) :
    Triple (At p n blocks) (cgParseExpression fuel env) (fun _ => Longer n) (Touched n blocks) := by
  have hkeeps := fun fuel => heldBy closedTable_any fuel (closed_longer n)
  refine expression_of_primary env (fun less _ => h less) ?_ ?_ ?_
  · exact fun fuel => longer_keeps (hkeeps fuel).unaryLoop blocks
  · exact fun fuel => longer_keeps ((hkeeps fuel).binaryLoop env) blocks
  · exact fun fuel => longer_keeps ((hkeeps fuel).continuation env) blocks

theorem touched_primary_token {p : BParser} {blocks : Nat} (h : ∀ fuel,
      Triple (At (bpNext p).2 n blocks) (cgEmitPrimaryToken (fuel + 1) env (bpNext p).1)
        (fun _ => Longer n) (Touched n blocks)) (fuel : Nat) :
    Triple (At p n blocks) (next >>= fun token => cgEmitPrimaryToken fuel env token)
      (fun _ => Longer n) (Touched n blocks) := by
  refine .bind (touched_of_false at_next) fun token => ?_
  cases fuel with
  | zero => exact .outOfFuel
  | succ fuel =>
    intro s hs
    rw [hs.1]
    exact h fuel s hs.2

/-- A literal block is a place in the table, and an instruction once it is compiled. -/
theorem touched_block {p : BParser} {blocks : Nat} (hroom : blocks < 16) (hcapture : CapturesBlock p)
    (fuel : Nat) : Triple (At p n blocks) (do
      let start ← Attempt.get
      cgSkipBlockLiteral fuel 1
      let finish ← Attempt.get
      compileBlockLiteral fuel env (finish.blocks.length < 16)
        ((textBetween start.parser.rest finish.parser.rest).dropLast.length < 4096)
        (textBetween start.parser.rest finish.parser.rest).dropLast)
      (fun _ => Longer n) (Touched n blocks) := by
  obtain ⟨fuel₀, s₀, s₁, hp, hskip, hlength⟩ := hcapture
  subst hp
  refine .get_bind fun start hstart => ?_
  rw [hstart.parser]
  have hI : ∀ fuel depth, Keeps (fun s : CgState => Before n s ∧ s.blocks.length = blocks)
      (cgSkipBlockLiteral fuel depth) := reading_skipBlockLiteral fun _ _ hs => hs
  have hcaptured := skips_blockLiteral.captured hI hskip fuel
  have hread : Triple (At s₀.parser n blocks) (cgSkipBlockLiteral fuel 1)
      (fun _ => At s₁.parser n blocks) (Touched n blocks) :=
    hcaptured.imp (fun s hs => ⟨hs.parser, hs.code, hs.blocks⟩)
      (fun _ s hs => ⟨hs.1, hs.2.1, hs.2.2⟩) fun _ hs => hs.elim
  refine .bind hread fun _ => .get_bind fun finish hfinish => ?_
  rw [hfinish.parser, hfinish.blocks]
  refine .bind (.require (decide_eq_true hroom)) fun _ => ?_
  refine .bind (.require (decide_eq_true hlength)) fun _ => ?_
  -- the place is the end of the table
  refine .bind (Q := fun place s => place = blocks ∧ Before n s ∧ EmptyAt blocks s)
    (.modifyGet fun s hs => ⟨hs.blocks, hs.code, ?_⟩) fun place => ?_
  · show (s.blocks ++ [CompiledBlock.empty])[blocks]? = some .empty
    rw [← hs.blocks]
    exact List.getElem?_concat_length
  · intro s hs
    obtain ⟨rfl, hs⟩ := hs
    refine Triple.bind (P := fun s => Before n s ∧ EmptyAt place s) ((emptyAt_compileBlock env fuel _
      place).imp (fun _ hs => hs) (fun _ _ hs => hs) fun _ hs => .inr hs) (fun _ => ?_) s hs
    exact touched_of_false (.bind (before_literalIndex _) fun _ => longer_emit _)

/-- A literal array is one instruction. -/
theorem touched_array {p : BParser} {blocks : Nat} (hcapture : CapturesArray p) (fuel : Nat) :
    Triple (At p n blocks) (do
      let text ← cgCaptureLiteralArray fuel
      cgEmitPushLiteralToken { makeToken .literalArray with text := text })
      (fun _ => Longer n) (Touched n blocks) := by
  obtain ⟨fuel₀, s₀, s₁, hp, hskip, hlength⟩ := hcapture
  subst hp
  refine .bind (Q := fun _ => Before n) ?_ fun text => touched_of_false (longer_pushLiteralToken _)
  refine .get_bind fun start hstart => ?_
  rw [hstart.parser]
  have hcaptured := skips_literalArray.captured (I := Before n)
    (reading_skipLiteralArray fun _ _ hs => hs) hskip fuel
  refine .bind (Q := fun _ s => s.parser = s₁.parser ∧ Before n s) (hcaptured.imp
    (fun s hs => ⟨hs.parser, hs.code⟩) (fun _ _ hs => hs) fun _ hs => hs.elim) fun _ => ?_
  refine .get_bind fun finish hfinish => ?_
  rw [hfinish.1]
  refine .bind (.require (decide_eq_true hlength)) fun _ => .pure fun s hs => hs.2

/-- A special character is no name and no literal. -/
theorem primary_of_special {token : BToken} {text : String} (h : token.isSpecial text = true) :
    token.type ≠ .identifier ∧ ¬(token.type = .integer ∨ token.type = .character ∨
      token.type = .string ∨ token.type = .symbol) := by
  rw [(BToken.special_of_isSpecial h).1]
  decide

/-- **An operand leaves a trace**, by induction on the parentheses around it. -/
theorem touched_primary {p : BParser} {blocks : Nat} (h : OperandAhead blocks p) :
    ∀ fuel, Triple (At p n blocks) (next >>= fun token => cgEmitPrimaryToken fuel env token)
      (fun _ => Longer n) (Touched n blocks) := by
  have hcode : ∀ q s, At q n blocks s → Before n s := fun _ _ hs => hs.code
  induction h with
  | name htype =>
    refine touched_primary_token env fun fuel => ?_
    rw [cgEmitPrimaryToken, if_pos htype]
    exact (touched_of_false (longer_emitIdentifier env _)).imp (hcode _) (fun _ _ hs => hs)
      fun _ hs => hs
  | @literal p hliteral =>
    refine touched_primary_token env fun fuel => ?_
    have hne : (bpNext p).1.type ≠ .identifier := by
      rcases hliteral with h | h | h | h <;> rw [h] <;> exact BTokenType.noConfusion
    have hlit : (bpNext p).1.type = .integer ∨ (bpNext p).1.type = .character ∨
        (bpNext p).1.type = .string ∨ (bpNext p).1.type = .symbol := hliteral
    rw [cgEmitPrimaryToken, if_neg hne, if_pos hlit]
    exact (touched_of_false (longer_pushLiteralToken _)).imp (hcode _) (fun _ _ hs => hs)
      fun _ hs => hs
  | @array p hopen hcapture =>
    refine touched_primary_token env fun fuel => ?_
    obtain ⟨hname, hliteral⟩ := primary_of_special hopen
    have hparenthesis : (bpNext p).1.isSpecial "(" = false :=
      BToken.isSpecial_of_text hopen (by decide)
    rw [cgEmitPrimaryToken, if_neg hname, if_neg hliteral, hparenthesis, hopen]
    exact touched_array hcapture fuel
  | @block p hopen hroom hcapture =>
    refine touched_primary_token env fun fuel => ?_
    obtain ⟨hname, hliteral⟩ := primary_of_special hopen
    have hparenthesis : (bpNext p).1.isSpecial "(" = false :=
      BToken.isSpecial_of_text hopen (by decide)
    have harray : (bpNext p).1.isSpecial "#(" = false :=
      BToken.isSpecial_of_text hopen (by decide)
    rw [cgEmitPrimaryToken, if_neg hname, if_neg hliteral, hparenthesis, harray, hopen]
    exact touched_block env hroom hcapture fuel
  | @parenthesis p hopen _ ih =>
    refine touched_primary_token env fun fuel => ?_
    obtain ⟨hname, hliteral⟩ := primary_of_special hopen
    have hkeeps : Keeps (Held (fun _ => True) (Longer n)) (do
        let close ← next
        Attempt.require (close.isSpecial ")")) :=
      .bind (reading_next (closed_longer n).reading) fun close => Keeps.require _
    rw [cgEmitPrimaryToken, if_neg hname, if_neg hliteral, hopen]
    exact .bind (touched_expression env ih fuel) fun _ => longer_keeps hkeeps blocks

end Writes

/-! ## §4. Without an operand nothing is written. -/

/-- Only the place in the source differs. -/
def Unwritten (base s : CgState) : Prop := { s with parser := base.parser } = base

section NoOperand

variable {base : CgState} (env : Env)

theorem unwritten_reading (s : CgState) (parser : BParser) (hs : Unwritten base s) :
    Unwritten base { s with parser := parser } := hs

theorem Unwritten.blocks {s : CgState} (h : Unwritten base s) : s.blocks = base.blocks := by
  have hsame : { s with parser := base.parser } = base := h
  rw [← hsame]

theorem Unwritten.code {s : CgState} (h : Unwritten base s) : s.code = base.code := by
  have hsame : { s with parser := base.parser } = base := h
  rw [← hsame]

/-- Before tokens, with nothing written. -/
structure UnwrittenAt (base : CgState) (p : BParser) (s : CgState) : Prop where
  parser : s.parser = p
  unwritten : Unwritten base s

theorem unwritten_next {p : BParser} : Triple (UnwrittenAt base p) next
    (fun token s => token = (bpNext p).1 ∧ UnwrittenAt base (bpNext p).2 s) (Unwritten base) :=
  .modifyGet fun s hs => by
    rw [← hs.parser]
    exact ⟨rfl, rfl, hs.unwritten⟩

theorem unwritten_array {p : BParser} (hno : ¬CapturesArray p) (fuel : Nat) :
    Triple (UnwrittenAt base p) (do
      let text ← cgCaptureLiteralArray fuel
      cgEmitPushLiteralToken { makeToken .literalArray with text := text })
      (fun _ _ => False) (Unwritten base) := by
  refine .bind (Q := fun _ _ => False) (.get_bind fun start hstart => ?_) fun _ _ hs => hs.elim
  refine .bind ((reading_skipLiteralArray unwritten_reading fuel 1).ran
    fun s hs => hs.unwritten) fun _ => ?_
  intro finish hfinish
  obtain ⟨hunwritten, s, hs, hrun⟩ := hfinish
  refine Triple.get_bind (P := fun t => t = finish) (fun t ht => ?_) finish rfl
  subst ht
  by_cases hlength : (['#', '('] ++ textBetween start.parser.rest t.parser.rest).length ≤ textRoom
  · rw [hstart.parser] at hlength
    exact absurd ⟨fuel, s, t, hs.parser, hrun, hlength⟩ hno
  · dsimp only
    rw [decide_eq_false hlength]
    intro u hu
    rw [hu]
    exact hunwritten

theorem unwritten_block {p : BParser}
    (hno : ¬(base.blocks.length < 16 ∧ CapturesBlock p)) (fuel : Nat) :
    Triple (UnwrittenAt base p) (do
      let start ← Attempt.get
      cgSkipBlockLiteral fuel 1
      let finish ← Attempt.get
      compileBlockLiteral fuel env (finish.blocks.length < 16)
        ((textBetween start.parser.rest finish.parser.rest).dropLast.length < 4096)
        (textBetween start.parser.rest finish.parser.rest).dropLast)
      (fun _ _ => False) (Unwritten base) := by
  refine .get_bind fun start hstart => ?_
  refine .bind ((reading_skipBlockLiteral unwritten_reading fuel 1).ran
    fun s hs => hs.unwritten) fun _ => ?_
  intro finish hfinish
  obtain ⟨hunwritten, s, hs, hrun⟩ := hfinish
  refine Triple.get_bind (P := fun t => t = finish) (fun t ht => ?_) finish rfl
  subst ht
  by_cases hroom : t.blocks.length < 16
  · by_cases hlength : (textBetween start.parser.rest t.parser.rest).dropLast.length < 4096
    · rw [hstart.parser] at hlength
      rw [hunwritten.blocks] at hroom
      exact absurd ⟨hroom, fuel, s, t, hs.parser, hrun, hlength⟩ hno
    · rw [decide_eq_true hroom, decide_eq_false hlength]
      intro u hu
      rw [hu]
      exact hunwritten
  · rw [decide_eq_false hroom]
    intro u hu
    rw [hu]
    exact hunwritten

/-- **Without an operand the expression is not accepted and nothing is written.** -/
theorem unwritten_expression (fuel : Nat) : ∀ {p : BParser},
    ¬OperandAhead base.blocks.length p →
    Triple (UnwrittenAt base p) (cgParseExpression fuel env) (fun _ _ => False)
      (Unwritten base) := by
  -- an expression in parentheses has less fuel
  induction fuel using Nat.strongRecOn with
  | _ fuel ih =>
  intro p hno
  refine expression_of_primary (Q := fun _ => False) env (fun less hless => ?_)
    (fun _ _ hs => hs.elim) (fun _ _ hs => hs.elim) (fun _ _ hs => hs.elim)
  refine .bind unwritten_next fun token => ?_
  rcases less with _ | less
  · exact .outOfFuel
  intro s hs
  rw [hs.1]
  refine (?_ : Triple (UnwrittenAt base (bpNext p).2) _ _ _) s hs.2
  rw [cgEmitPrimaryToken]
  refine .ite (fun hname => absurd (.name hname) hno) fun _ => ?_
  refine .ite (fun hliteral => absurd (.literal hliteral) hno) fun _ => ?_
  refine .ite (fun hopen => ?_) fun _ => .ite (fun hopen => ?_) fun _ => .ite (fun hopen => ?_)
    fun _ => .reject fun s hs => hs.unwritten
  · have hinside : ¬OperandAhead base.blocks.length (bpNext p).2 :=
      fun h => hno (.parenthesis hopen h)
    exact .bind (ih less (by omega) hinside) fun _ _ hs => hs.elim
  · exact unwritten_array (fun h => hno (.array hopen h)) less
  · exact unwritten_block env (fun h => hno (.block hopen h.1 h.2)) less

end NoOperand

/-! ## §5. The head of a loop. -/

/-- `[c] whileTrue: [b]`, up to the point where code is written. -/
def loopHead (fuel : Nat) : Cg (List Char × List Char) := do
  let conditionSource ← cgCaptureBlockSource fuel
  let keyword ← next
  Attempt.require (keyword.type = .keyword ∧ keyword.text = "whileTrue:".toList)
  let bodyOpen ← next
  Attempt.require (bodyOpen.isSpecial "[")
  let bodySource ← cgCaptureBlockSource fuel
  return (conditionSource, bodySource)

/-- The code of a loop. -/
def loopCode (fuel : Nat) (env : Env) (conditionSource bodySource : List Char) : Cg Unit := do
  let s ← Attempt.get
  let loopStart := byteCount s.code
  cgEmitInlineExpression fuel env conditionSource
  let exitPatch ← cgEmitJumpPlaceholder
  cgEmitInlineStatements fuel env bodySource
  emit (.jump loopStart)
  cgPatch exitPatch
  cgEmitPushLiteralToken nilToken

theorem whileTrue_eq (fuel : Nat) (env : Env) : cgParseWhileTrueStatement (fuel + 1) env =
    (loopHead fuel >>= fun sources => loopCode fuel env sources.1 sources.2) := by
  rw [cgParseWhileTrueStatement]
  simp only [loopHead, Attempt.bind_assoc, Attempt.pure_bind]
  rfl

/-- The program depends on the source alone; with less fuel it may not get through. -/
def Agrees {α : Type} (m : Nat → Cg α) : Prop :=
  ∀ fuel s a s', m fuel s = .ok a s' → ∀ fuel' t, t.parser = s.parser →
    m fuel' t = .outOfFuel ∨ ∃ t', m fuel' t = .ok a t' ∧ t'.parser = s'.parser

theorem Agrees.bind {α β : Type} {m : Nat → Cg α} {f : Nat → α → Cg β} (hm : Agrees m)
    (hf : ∀ a, Agrees fun fuel => f fuel a) : Agrees fun fuel => m fuel >>= f fuel := by
  intro fuel s b s' h fuel' t ht
  obtain ⟨a, s₁, hs₁, hs'⟩ := of_bind_ok h
  rcases hm fuel s a s₁ hs₁ fuel' t ht with hrun | ⟨t₁, hrun, ht₁⟩
  · refine .inl ?_
    show (m fuel' >>= f fuel') t = _
    rw [bind_run, hrun]
  · have hstep : (m fuel' >>= f fuel') t = f fuel' a t₁ := bind_ok hrun
    rcases hf a fuel s₁ b s' hs' fuel' t₁ ht₁ with hrest | ⟨t', hrest, ht'⟩
    · exact .inl (hstep.trans hrest)
    · exact .inr ⟨t', hstep.trans hrest, ht'⟩

theorem agrees_pure {α : Type} (a : α) : Agrees fun _ => (pure a : Cg α) := by
  intro fuel s b s' h fuel' t ht
  obtain ⟨rfl, rfl⟩ := Tried.ok.inj h
  exact .inr ⟨t, rfl, ht⟩

theorem agrees_require (c : Bool) : Agrees fun _ => (Attempt.require c : Cg Unit) := by
  cases c with
  | false =>
    intro fuel s b s' h
    cases h
  | true => exact agrees_pure ()

theorem agrees_next : Agrees fun _ => next := by
  intro fuel s token s' h fuel' t ht
  obtain ⟨rfl, rfl⟩ := Tried.ok.inj h
  refine .inr ⟨{ t with parser := (bpNext s.parser).2 }, ?_, rfl⟩
  show next t = .ok (bpNext s.parser).1 { t with parser := (bpNext s.parser).2 }
  rw [← ht]
  rfl

theorem agrees_captureBlockSource : Agrees cgCaptureBlockSource := by
  intro fuel s source s' h fuel' t ht
  obtain ⟨_, s₁, hget, h⟩ := of_bind_ok h
  obtain ⟨rfl, rfl⟩ := Tried.ok.inj hget
  obtain ⟨_, s₂, hskip, h⟩ := of_bind_ok h
  obtain ⟨_, s₃, hget, h⟩ := of_bind_ok h
  obtain ⟨rfl, rfl⟩ := Tried.ok.inj hget
  rcases skips_blockLiteral.agrees hskip fuel' ht with hrun | ⟨t₂, hrun, ht₂⟩
  · refine .inl ?_
    show (cgSkipBlockLiteral fuel' 1 >>= _) t = _
    rw [bind_run, hrun]
  · have hlast : Agrees fun _ => (do
        Attempt.require ((textBetween s.parser.rest s₂.parser.rest).dropLast.length < 4096)
        return (textBetween s.parser.rest s₂.parser.rest).dropLast : Cg (List Char)) :=
      (agrees_require _).bind fun _ => agrees_pure _
    rcases hlast 0 s₂ source s' h 0 t₂ ht₂ with hrest | ⟨t', hrest, ht'⟩
    all_goals
      have hcapture : cgCaptureBlockSource fuel' t = (do
          Attempt.require ((textBetween s.parser.rest s₂.parser.rest).dropLast.length < 4096)
          return (textBetween s.parser.rest s₂.parser.rest).dropLast : Cg (List Char)) t₂ := by
        rw [← ht, ← ht₂]
        exact bind_ok hrun
    · exact .inl (hcapture.trans hrest)
    · exact .inr ⟨t', hcapture.trans hrest, ht'⟩

/-- The form of a loop does not depend on what has been written. -/
theorem agrees_loopHead : Agrees loopHead :=
  agrees_captureBlockSource.bind fun _ => agrees_next.bind fun _ => (agrees_require _).bind fun _ =>
    agrees_next.bind fun _ => (agrees_require _).bind fun _ =>
      agrees_captureBlockSource.bind fun _ => agrees_pure _

/-! ## §6. The fallback. -/

/-- The parser is back before a token. -/
def CgState.back (s : CgState) (parser : BParser) (token : BToken) : CgState :=
  { s with parser := bpUnread parser token }

/-- Code, literals, blocks and flags. -/
structure SameOutput (s t : CgState) : Prop where
  code : s.code = t.code
  literals : s.literals = t.literals
  instVarNames : s.instVarNames = t.instVarNames
  sawReturn : s.sawReturn = t.sawReturn
  blocks : s.blocks = t.blocks

/-- The statement after the bracket has the form of a loop, and its condition begins with an
operand. -/
def LoopWithOperand (s : CgState) : Prop :=
  ∃ fuel sources s', loopHead fuel s = .ok sources s' ∧
    OperandAhead s.blocks.length (bpInit sources.1)

theorem unwritten_loopHead (base : CgState) (fuel : Nat) : Keeps (Unwritten base) (loopHead fuel) := by
  refine .bind (reading_captureBlockSource unwritten_reading fuel) fun conditionSource => ?_
  refine .bind (reading_next unwritten_reading) fun keyword => .bind (Keeps.require _) fun _ => ?_
  refine .bind (reading_next unwritten_reading) fun bodyOpen => .bind (Keeps.require _) fun _ => ?_
  exact .bind (reading_captureBlockSource unwritten_reading fuel) fun _ => Keeps.pure _

theorem Touched.reading {n blocks : Nat} (s : CgState) (parser : BParser)
    (hs : Touched n blocks s) : Touched n blocks { s with parser := parser } := hs

section Fallback

variable {fuel : Nat} {env : Env}

/-- The condition of a loop is written first. -/
theorem touched_loopCode (fuel : Nat) (env : Env) {n blocks : Nat} {conditionSource : List Char} (bodySource : List Char)
    (h : OperandAhead blocks (bpInit conditionSource)) :
    Triple (fun s => s.code.length = n ∧ s.blocks.length = blocks)
      (loopCode fuel env conditionSource bodySource) (fun _ => Longer n) (Touched n blocks) := by
  have hlonger := closed_longer n
  have hkeeps := heldBy closedTable_any fuel hlonger
  refine .get_bind fun s _ => .bind (Q := fun _ => Longer n) ?_ fun _ => ?_
  · -- the expression, on a parser of its own
    cases fuel with
    | zero => exact .outOfFuel
    | succ fuel =>
      unfold cgEmitInlineExpression
      refine .get_bind fun saved _ => .bind (Q := fun _ => At (bpInit conditionSource) n blocks)
        (.modify fun s hs => ⟨rfl, hs.1, hs.2⟩) fun _ => ?_
      refine .bind (touched_expression env (touched_primary env h) fuel).succeeds fun accepted => ?_
      cases accepted with
      | true =>
        have hend : Keeps (Longer n) (do
            let eof ← next
            setParser saved.parser
            Attempt.require (eof.type = .eof)) :=
          .bind (reading_next hlonger.parser) fun eof =>
            .bind (reading_setParser hlonger.parser _) fun _ => Keeps.require _
        exact hend.imp (fun s hs => hs.1 rfl) (fun _ _ hs => hs) fun _ hs => .inl hs
      | false =>
        have hend : Triple (Touched n blocks) (do
            setParser saved.parser
            Attempt.reject : Cg Unit) (fun _ _ => False) (Touched n blocks) :=
          .bind (reading_setParser Touched.reading _) fun _ => .reject fun _ hs => hs
        exact hend.imp (fun s hs => hs.2 rfl) (fun _ _ hs => hs.elim) fun _ hs => hs
  · refine longer_keeps ?_ blocks
    refine .bind (held_jumpPlaceholder hlonger) fun exitPatch => ?_
    refine .bind (hkeeps.inlineStatements env bodySource) fun _ => .bind (held_emit hlonger _) fun _ => ?_
    exact .bind (held_patch hlonger exitPatch) fun _ => held_pushLiteralToken hlonger nilToken

/-- Without an operand the condition is not accepted. -/
theorem unwritten_loopCode (fuel : Nat) (env : Env) {base : CgState} {conditionSource : List Char} (bodySource : List Char)
    (h : ¬OperandAhead base.blocks.length (bpInit conditionSource)) :
    Triple (Unwritten base) (loopCode fuel env conditionSource bodySource) (fun _ _ => True)
      (Unwritten base) := by
  refine .get_bind fun s _ => .bind (Q := fun _ _ => False) ?_ fun _ _ hs => hs.elim
  cases fuel with
  | zero => exact .outOfFuel
  | succ fuel =>
    unfold cgEmitInlineExpression
    refine .get_bind fun saved _ => .bind (Q := fun _ => UnwrittenAt base (bpInit conditionSource))
      (.modify fun s hs => ⟨rfl, hs⟩) fun _ => ?_
    have hexpression : Triple (UnwrittenAt base (bpInit conditionSource))
        (cgParseExpression fuel env) (fun _ _ => False) (Unwritten base) :=
      unwritten_expression env fuel h
    refine .bind hexpression.succeeds fun accepted => ?_
    cases accepted with
    | true => exact fun s hs => (hs.1 rfl).elim
    | false =>
      have hend : Triple (Unwritten base) (do
          setParser saved.parser
          Attempt.reject : Cg Unit) (fun _ _ => False) (Unwritten base) :=
        .bind (reading_setParser unwritten_reading _) fun _ => .reject fun _ hs => hs
      exact hend.imp (fun s hs => hs.2 rfl) (fun _ _ hs => hs) fun _ hs => hs

/-- A block has been compiled for this place. -/
def FilledAt (place : Nat) (blocks : List CompiledBlock) : Prop :=
  ∃ b, blocks[place]? = some b ∧ b.scopes ≠ []

theorem closedTable_filled (place : Nat) : ClosedTable (FilledAt place) (place + 1) where
  room blocks h := by
    obtain ⟨b, hb, -⟩ := h
    exact (List.getElem?_eq_some_iff.mp hb).1
  reserve blocks h := by
    obtain ⟨b, hb, hne⟩ := h
    exact ⟨b, (closedTable_at b place).reserve blocks hb, hne⟩
  store blocks index block hindex h := by
    obtain ⟨b, hb, hne⟩ := h
    exact ⟨b, (closedTable_at b place).store blocks index block hindex hb, hne⟩

theorem closedTable_room (place : Nat) : ClosedTable (fun blocks => place < blocks.length) 0 where
  room _ _ := Nat.zero_le _
  reserve blocks h := by
    rw [List.length_append]
    exact Nat.lt_add_right _ h
  store blocks index block _ h := by
    rw [List.length_set]
    exact h

/-- A body has a scope. -/
theorem scopes_of_body (fuel : Nat) (inBlock : Bool) (header : List Name) (targetClass : TargetClass)
    (outer : List Scope) (closureOffset : Nat) : Triple (fun _ => True)
      (bcCodegenBody fuel inBlock header targetClass outer closureOffset)
      (fun b _ => b.scopes ≠ []) (fun _ => True) := by
  have hany : ∀ {α : Type} (m : Cg α), Triple (fun _ => True) m (fun _ _ => True)
      (fun _ => True) := by
    intro α m s _
    cases m s <;> trivial
  cases fuel with
  | zero => exact .outOfFuel
  | succ fuel =>
    unfold bcCodegenBody
    refine .bind (hany _) fun args => .bind (hany _) fun temps => .bind (hany _) fun _ => ?_
    refine .bind (hany _) fun _ => .get_bind fun s _ => .bind (hany _) fun _ => ?_
    exact .pure fun _ _ => List.cons_ne_nil _ _

theorem filled_storeBody (source : List Char) (place : Nat) :
    Triple (fun s => place < s.blocks.length) (cgStoreBody fuel env source place)
      (fun _ s => FilledAt place s.blocks) (fun s => place < s.blocks.length) := by
  cases fuel with
  | zero => exact .outOfFuel
  | succ fuel =>
    unfold cgStoreBody
    refine .bind (Q := fun b s => b.scopes ≠ [] ∧ place < s.blocks.length) ?_ fun block => ?_
    · have hroom := (heldBy (closedTable_room place) fuel ClosedState.trivial).body true []
        env.targetClass env.enclose env.blockOffset
      have hscopes := scopes_of_body fuel true [] env.targetClass env.enclose
        env.blockOffset
      intro s hs
      have hroom := hroom (.init source s.blocks) ⟨hs, trivial⟩
      have hscopes := hscopes (.init source s.blocks) trivial
      unfold withSource Attempt.inside
      cases hrun : bcCodegenBody fuel true [] env.targetClass env.enclose env.blockOffset
          (.init source s.blocks) with
      | ok b t =>
        rw [hrun] at hroom hscopes
        exact ⟨hscopes, hroom.table⟩
      | rejected t =>
        rw [hrun] at hroom
        exact hroom.table
      | outOfFuel => trivial
    · refine .modify fun s hs => ⟨block, ?_, hs.1⟩
      exact List.getElem?_set_self hs.2

theorem filled_compileBlock (source : List Char) (place : Nat) :
    Triple (fun s => place < s.blocks.length) (cgCompileAndStoreBlock fuel env source place)
      (fun _ s => FilledAt place s.blocks) (fun _ => True) := by
  cases fuel with
  | zero => exact .outOfFuel
  | succ fuel =>
    unfold cgCompileAndStoreBlock
    have hbody : ∀ source, Triple (fun s => place < s.blocks.length)
        (cgStoreBody fuel env source place) (fun _ s => FilledAt place s.blocks)
        (fun s => place < s.blocks.length) := fun source => filled_storeBody source place
    refine .bind (hbody source).succeeds fun accepted => ?_
    cases accepted with
    | true => exact .pure fun s hs => hs.1 rfl
    | false =>
      rw [if_neg Bool.false_ne_true]
      cases cgBuildImplicitReturnSource source with
      | none => exact .reject fun _ _ => trivial
      | some implicitSource =>
        exact (hbody implicitSource).imp (fun s hs => hs.2 rfl) (fun _ _ hs => hs) fun _ _ => trivial

/-- **An expression that begins with a block fills the next place of the table.** -/
theorem filled_expression (fuel : Nat) (env : Env) (blocks : Nat) {token : BToken} (htoken : token.isSpecial "[" = true) :
    Triple (fun s => (bpNext s.parser).1 = token ∧ s.blocks.length = blocks)
      (cgParseExpression fuel env) (fun _ s => FilledAt blocks s.blocks) (fun _ => True) := by
  have hkeeps := fun fuel => heldBy (closedTable_filled blocks) fuel ClosedState.trivial
  have hloop : ∀ {m : Cg Unit}, Keeps (Held (FilledAt blocks) fun _ => True) m →
      Triple (fun s => FilledAt blocks s.blocks) m (fun _ s => FilledAt blocks s.blocks)
        (fun _ => True) := fun h =>
    h.imp (fun _ hs => ⟨hs, trivial⟩) (fun _ _ hs => hs.table) fun _ _ => trivial
  refine expression_of_primary env (fun less _ => ?_) (fun fuel => hloop (hkeeps fuel).unaryLoop)
    (fun fuel => hloop ((hkeeps fuel).binaryLoop env))
    fun fuel => hloop ((hkeeps fuel).continuation env)
  refine .bind (Q := fun t s => t = token ∧ s.blocks.length = blocks)
    (.modifyGet fun s hs => ⟨hs.1, hs.2⟩) fun t => ?_
  rcases less with _ | less
  · exact .outOfFuel
  obtain ⟨hname, hliteral⟩ := primary_of_special htoken
  have hparenthesis : token.isSpecial "(" = false := BToken.isSpecial_of_text htoken (by decide)
  have harray : token.isSpecial "#(" = false := BToken.isSpecial_of_text htoken (by decide)
  intro s hs
  rw [hs.1, cgEmitPrimaryToken, if_neg hname, if_neg hliteral, hparenthesis, harray, htoken]
  refine (?_ : Triple (fun s : CgState => s.blocks.length = blocks) _ _ _) s hs.2
  have hread : ∀ {α : Type} {m : Cg α}, Keeps (fun s : CgState => s.blocks.length = blocks) m →
      Triple (fun s : CgState => s.blocks.length = blocks) m
        (fun _ s => s.blocks.length = blocks) (fun _ => True) := fun h =>
    h.imp (fun _ hs => hs) (fun _ _ hs => hs) fun _ _ => trivial
  refine .get_bind fun start _ => .bind (hread (reading_skipBlockLiteral (fun _ _ hs => hs) less 1))
    fun _ => ?_
  refine .get_bind fun finish _ => .bind (hread (Keeps.require _)) fun _ => ?_
  refine .bind (hread (Keeps.require _)) fun _ => ?_
  refine .bind (Q := fun place s => place = blocks ∧ blocks < s.blocks.length)
    (.modifyGet fun s hs => ⟨hs, ?_⟩) fun place => ?_
  · show blocks < (s.blocks ++ [CompiledBlock.empty]).length
    rw [List.length_append, hs]
    exact Nat.lt_succ_self blocks
  · intro s hs
    obtain ⟨rfl, hs⟩ := hs
    refine Triple.bind (filled_compileBlock _ place) (fun _ => hloop ?_) s hs
    exact .bind (held_literalIndex ClosedState.trivial _) fun _ => held_emit ClosedState.trivial _

/-- What a failed attempt has written: nothing, or something that stays. -/
theorem whileTrue_rejected {s s₁ : CgState}
    (hfail : cgParseWhileTrueStatement fuel env s = .rejected s₁) :
    (LoopWithOperand s → Touched s.code.length s.blocks.length s₁) ∧
      (¬LoopWithOperand s → Unwritten s s₁) := by
  cases fuel with
  | zero => cases hfail
  | succ fuel =>
  rw [whileTrue_eq] at hfail
  have hhead := unwritten_loopHead s fuel s rfl
  cases hrun : loopHead fuel s with
  | ok sources s' =>
    rw [bind_ok hrun] at hfail
    rw [hrun] at hhead
    have hunwritten : Unwritten s s' := hhead
    constructor
    · rintro ⟨fuel₀, sources₀, t, hloop, hoperand⟩
      -- the sources are those of this run
      obtain rfl : sources₀ = sources := by
        rcases agrees_loopHead fuel s sources s' hrun fuel₀ s rfl with h | ⟨t', h, -⟩
        · rw [hloop] at h
          cases h
        · rw [hloop] at h
          exact (Tried.ok.inj h).1
      have hcode : s'.code.length = s.code.length := by rw [hunwritten.code]
      have hblocks : s'.blocks.length = s.blocks.length := by rw [hunwritten.blocks]
      have htouched := touched_loopCode fuel env sources₀.2 hoperand s'
        ⟨hcode, hblocks⟩
      rw [hfail] at htouched
      exact htouched
    · intro hno
      have hoperand : ¬OperandAhead s.blocks.length (bpInit sources.1) :=
        fun h => hno ⟨fuel, sources, s', hrun, h⟩
      have hcode := unwritten_loopCode fuel env sources.2 hoperand s' hunwritten
      rw [hfail] at hcode
      exact hcode
  | rejected s' =>
    rw [bind_run, hrun] at hfail
    rw [hrun] at hhead
    obtain rfl := Tried.rejected.inj hfail
    refine ⟨?_, fun _ => hhead⟩
    rintro ⟨fuel₀, sources₀, t, hloop, -⟩
    rcases agrees_loopHead fuel₀ s sources₀ t hloop fuel s rfl with h | ⟨t', h, -⟩
    all_goals
      rw [hrun] at h
      cases h
  | outOfFuel =>
    rw [bind_run, hrun] at hfail
    cases hfail

/-- **When the way back is clean.**  An attempt that has written nothing is as if it had not
been made.  One that has reached an operand of its condition leaves a trace: if the statement
compiles as an expression, what the fallback produces is something else. -/
theorem fallback_clean_iff {s s₁ : CgState} {token : BToken} (htoken : token.isSpecial "[" = true)
    (hfail : cgParseWhileTrueStatement fuel env s = .rejected s₁) :
    (¬LoopWithOperand s → cgParseExpression fuel env (s₁.back s.parser token) =
      cgParseExpression fuel env (s.back s.parser token)) ∧
    ∀ s₃, cgParseExpression fuel env (s.back s.parser token) = .ok () s₃ →
      ((∃ s₂, cgParseExpression fuel env (s₁.back s.parser token) = .ok () s₂ ∧
        SameOutput s₂ s₃) ↔ ¬LoopWithOperand s) := by
  obtain ⟨htouched, hunwritten⟩ := whileTrue_rejected hfail
  have hback : ¬LoopWithOperand s → s₁.back s.parser token = s.back s.parser token := by
    intro hno
    have hsame : { s₁ with parser := s.parser } = s := hunwritten hno
    show CgState.back { s₁ with parser := s.parser } s.parser token = _
    rw [hsame]
  refine ⟨fun hno => by rw [hback hno], fun s₃ hordinary => ⟨?_, fun hno => ?_⟩⟩
  · rintro ⟨s₂, hfallback, hsame⟩ hloop
    rcases htouched hloop with hlonger | hempty
    · -- both runs write as much, after more or less
      have hahead : Ahead (s₁.code.length - s.code.length) (s.back s.parser token)
          (s₁.back s.parser token) := by
        refine ⟨rfl, ?_⟩
        show s₁.code.length = s.code.length + (s₁.code.length - s.code.length)
        have hlt : s.code.length < s₁.code.length := hlonger
        omega
      obtain ⟨-, hend⟩ := (aheadBy _ fuel).expression env _ _ hahead _ _ _ _ hordinary hfallback
      have hlength := hend.code
      rw [hsame.code] at hlength
      have hlt : s.code.length < s₁.code.length := hlonger
      omega
    · -- the place of a block that has failed stays empty
      have hkept := (heldBy (closedTable_at .empty s.blocks.length) fuel
        ClosedState.trivial).expression env (s₁.back s.parser token) ⟨hempty, trivial⟩
      rw [hfallback] at hkept
      have hfilled := filled_expression fuel env s.blocks.length htoken (s.back s.parser token) ⟨rfl, rfl⟩
      rw [hordinary] at hfilled
      obtain ⟨b, hb, hne⟩ := hfilled
      have hstill : s₂.blocks[s.blocks.length]? = some .empty := hkept.table
      rw [hsame.blocks, hb] at hstill
      obtain rfl := Option.some.inj hstill
      exact hne rfl
  · refine ⟨s₃, ?_, rfl, rfl, rfl, rfl, rfl⟩
    rw [hback hno]
    exact hordinary

end Fallback

/-! ### Two expressions in the condition. -/

/-- A block that is no condition of a loop, since two expressions stand in it. -/
def straySource : List Char := "[x. x] whileTrue: [x]".toList

def strayToken : BToken := (bpNext (bpInit straySource)).1

def strayStart : CgState := (CgState.init straySource []).advance

def strayEnv : Env :=
  { scope := { args := ["x".toList], temps := [], closureOffset := 0 }
    outer := []
    inBlock := false
    targetClass := none }

/-- The state a failed program has left. -/
def leftState (start : CgState) : Tried CgState Unit → CgState
  | .rejected s => s
  | _ => start

def strayLeft : CgState := leftState strayStart (cgParseWhileTrueStatement 40 strayEnv strayStart)

def codeLength : Tried CgState Unit → Option Nat
  | .ok _ s => some s.code.length
  | _ => none

theorem stray_fails : cgParseWhileTrueStatement 40 strayEnv strayStart = .rejected strayLeft := by
  have hrejected : (match cgParseWhileTrueStatement 40 strayEnv strayStart with
    | .rejected _ => true
    | _ => false) = true := by decide +kernel
  unfold strayLeft
  cases hrun : cgParseWhileTrueStatement 40 strayEnv strayStart with
  | rejected s => rfl
  | ok _ s =>
    rw [hrun] at hrejected
    cases hrejected
  | outOfFuel =>
    rw [hrun] at hrejected
    cases hrejected

theorem of_codeLength {r : Tried CgState Unit} {n : Nat} (h : codeLength r = some n) :
    ∃ s, r = .ok () s ∧ s.code.length = n := by
  cases r with
  | ok _ s => exact ⟨s, rfl, Option.some.inj h⟩
  | rejected s => cases h
  | outOfFuel => cases h

theorem stray_iff : ∃ s₃, cgParseExpression 40 strayEnv
      (strayStart.back strayStart.parser strayToken) = .ok () s₃ ∧
    ((∃ s₂, cgParseExpression 40 strayEnv (strayLeft.back strayStart.parser strayToken) =
      .ok () s₂ ∧ SameOutput s₂ s₃) ↔ ¬LoopWithOperand strayStart) := by
  obtain ⟨s₃, hordinary, -⟩ := of_codeLength (r := cgParseExpression 40 strayEnv
    (strayStart.back strayStart.parser strayToken)) (n := 3) (by decide +kernel)
  exact ⟨s₃, hordinary, (fallback_clean_iff (by decide) stray_fails).2 s₃ hordinary⟩

/-- The argument is pushed once more than the expression asks for. -/
theorem fallback_not_clean : ¬∀ (fuel : Nat) (env : Env) (s s₁ : CgState) (token : BToken),
    token.isSpecial "[" = true → cgParseWhileTrueStatement fuel env s = .rejected s₁ →
    ∀ s₃, cgParseExpression fuel env (s.back s.parser token) = .ok () s₃ →
      ∃ s₂, cgParseExpression fuel env (s₁.back s.parser token) = .ok () s₂ ∧
        SameOutput s₂ s₃ := by
  intro hclean
  obtain ⟨s₃, hordinary, hthree⟩ := of_codeLength (r := cgParseExpression 40 strayEnv
    (strayStart.back strayStart.parser strayToken)) (n := 3) (by decide +kernel)
  obtain ⟨s₂, hfallback, hfour⟩ := of_codeLength (r := cgParseExpression 40 strayEnv
    (strayLeft.back strayStart.parser strayToken)) (n := 4) (by decide +kernel)
  obtain ⟨s, hrun, hsame⟩ := hclean 40 strayEnv strayStart strayLeft strayToken (by decide)
    stray_fails s₃ hordinary
  rw [hfallback] at hrun
  obtain ⟨-, rfl⟩ := Tried.ok.inj hrun
  rw [hsame.code, hthree] at hfour
  cases hfour

end LivingObjects.Compiler
