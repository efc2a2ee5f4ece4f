/-
  LivingObjects.Compiler.Codegen — code generation of the bootstrap compiler.

  The `cg_` functions of `bootstrap_compiler.c`.  They read tokens and write code in one
  pass, give up by returning 0, and leave behind what they have written; what stays fixed
  while a body is compiled (its scope, those around it, its class) is an argument here.
  Code is a list of instructions, each with its operands of four bytes, and an offset in
  it counts bytes.  The arrays of code and literals have no bounds.  A run takes fuel.

  Every body keeps a list of the variables it has named, which the compiler does not.
-/
import LivingObjects.Lib.Attempt
import LivingObjects.Compiler.Tokenizer

namespace LivingObjects.Compiler

open LivingObjects.Lib

/-! ## §1. Code. -/

inductive Instruction where
  | pushLiteral (index : Nat)
  | pushInstVar (index : Nat)
  | pushTemp (slot : Nat)
  | pushSelf
  | pushThisContext
  | pushArg (index : Nat)
  | storeInstVar (index : Nat)
  | storeTemp (slot : Nat)
  | sendMessage (selector argc : Nat)
  | ret
  | jump (target : Nat)
  | jumpIfFalse (target : Nat)
  | returnNonLocal
  | pushGlobal (index : Nat)
  | pushClosure (index : Nat)
  | pop
deriving DecidableEq, Repr

/-- The bytes of an instruction. -/
def Instruction.size : Instruction → Nat
  | .pushSelf | .pushThisContext | .ret | .returnNonLocal | .pop => 1
  | .sendMessage _ _ => 9
  | _ => 5

/-- `bytecode_count`. -/
def byteCount (code : List Instruction) : Nat := (code.map Instruction.size).sum

/-- A name in a table of names: 31 bytes of it. -/
abbrev Name := List Char

def nameField (text : List Char) : Name := text.take 31

/-- What a body declares.  The slots of what is around it come first. -/
structure Scope where
  args : List Name
  temps : List Name
  closureOffset : Nat
deriving DecidableEq, Repr

/-- The name of a variable where code for it has been written. -/
inductive Use where
  | read (name : Name)
  | assign (name : Name)
deriving DecidableEq, Repr

/-- `BCompiledBlock`, with the scopes the block is in, its own first, and its uses. -/
structure CompiledBlock where
  bytecodes : List Instruction
  argCount : Nat
  tempCount : Nat
  literals : List BToken
  scopes : List Scope
  uses : List Use
deriving DecidableEq, Repr

/-- A place of the table for a block that has not been compiled. -/
def CompiledBlock.empty : CompiledBlock :=
  { bytecodes := [], argCount := 0, tempCount := 0, literals := [], scopes := [], uses := [] }

/-- `cg_inst_var_index` asks the class, or takes the names as they come when there is none. -/
abbrev TargetClass := Option (Name → Option Nat)

/-- What is fixed in a body. -/
structure Env where
  /-- The scope of the body, and those around it from the inside out. -/
  scope : Scope
  outer : List Scope
  inBlock : Bool
  targetClass : TargetClass

/-- `CgState`, as far as it changes. -/
structure CgState where
  parser : BParser
  code : List Instruction
  literals : List BToken
  instVarNames : List Name
  sawReturn : Bool
  /-- `root_compiled->blocks`. -/
  blocks : List CompiledBlock
  uses : List Use

def CgState.init (source : List Char) (blocks : List CompiledBlock) : CgState :=
  { parser := bpInit source
    code := []
    literals := []
    instVarNames := []
    sawReturn := false
    blocks := blocks
    uses := [] }

abbrev Cg := Attempt CgState

/-! ## §2. Reading and writing. -/

def next : Cg BToken := .modifyGet fun s =>
  ((bpNext s.parser).1, { s with parser := (bpNext s.parser).2 })

def unread (token : BToken) : Cg Unit :=
  .modify fun s => { s with parser := bpUnread s.parser token }

def setParser (parser : BParser) : Cg Unit := .modify fun s => { s with parser := parser }

/-- `cg_emit_byte` and `cg_emit_u32`. -/
def emit (i : Instruction) : Cg Unit := .modify fun s => { s with code := s.code ++ [i] }

def emitUse (i : Instruction) (use : Use) : Cg Unit :=
  .modify fun s => { s with code := s.code ++ [i], uses := s.uses ++ [use] }

def setSawReturn : Cg Unit := .modify fun s => { s with sawReturn := true }

/-- `cg_emit_jump_placeholder`: the place of the instruction to patch. -/
def cgEmitJumpPlaceholder : Cg Nat := .modifyGet fun s =>
  (s.code.length, { s with code := s.code ++ [.jumpIfFalse 0] })

/-- `cg_patch_u32` with the offset of the end of the code. -/
def cgPatch (place : Nat) : Cg Unit := .modify fun s =>
  { s with code := s.code.set place (.jumpIfFalse (byteCount s.code)) }

def cgLiteralIndex (literal : BToken) : Cg Nat := .modifyGet fun s =>
  match s.literals.findIdx? (· == literal) with
  | some index => (index, s)
  | none => (s.literals.length, { s with literals := s.literals ++ [literal] })

def cgEmitPushLiteralToken (token : BToken) : Cg Unit := do
  let index ← cgLiteralIndex token
  emit (.pushLiteral index)

def nilToken : BToken := { makeToken .identifier with text := "nil".toList }

def cgEmitSelectorSend (selector : List Char) (argc : Nat) : Cg Unit := do
  let index ← cgLiteralIndex { makeToken .selector with text := selector.take textRoom }
  emit (.sendMessage index argc)

/-! ## §3. Variables. -/

/-- The first place of a name in a table. -/
def indexOfName (names : List Name) (name : Name) : Option Nat := names.findIdx? (· == name)

def cgTempIndex (scope : Scope) (name : Name) : Option Nat := indexOfName scope.temps name

def cgArgIndex (scope : Scope) (name : Name) : Option Nat := indexOfName scope.args name

def cgLocalTempSlot (env : Env) (index : Nat) : Nat :=
  if env.inBlock then env.scope.closureOffset + env.scope.args.length + index else index

/-- `cg_outer_temp_slot`, on the scopes around the body. -/
def cgOuterTempSlot : List Scope → Name → Option Nat
  | [], _ => none
  | scope :: outer, name =>
    match indexOfName scope.temps name with
    | some index => some (scope.closureOffset + scope.args.length + index)
    | none => cgOuterTempSlot outer name

/-- `cg_outer_arg_slot`. -/
def cgOuterArgSlot : List Scope → Name → Option Nat
  | [], _ => none
  | scope :: outer, name =>
    match indexOfName scope.args name with
    | some index => some (scope.closureOffset + index)
    | none => cgOuterArgSlot outer name

def cgInstVarIndex (env : Env) (name : Name) : Cg (Option Nat) := .modifyGet fun s =>
  match env.targetClass with
  | some index => (index name, s)
  | none =>
    match indexOfName s.instVarNames name with
    | some index => (some index, s)
    | none =>
      if 16 ≤ s.instVarNames.length then (none, s)
      else (some s.instVarNames.length,
        { s with instVarNames := s.instVarNames ++ [nameField name] })

/-- The identifier branch of `cg_emit_primary_token`. -/
def cgEmitIdentifier (env : Env) (token : BToken) : Cg Unit :=
  let name := token.text
  if name = "self".toList ∨ name = "super".toList then emit .pushSelf
  else if name = "thisContext".toList then emit .pushThisContext
  else if name = "nil".toList ∨ name = "true".toList ∨ name = "false".toList then
    cgEmitPushLiteralToken token
  else
    match cgTempIndex env.scope name with
    | some index => emitUse (.pushTemp (cgLocalTempSlot env index)) (.read name)
    | none =>
    match cgArgIndex env.scope name with
    | some index => emitUse (.pushArg index) (.read name)
    | none =>
    match cgOuterArgSlot env.outer name with
    | some slot => emitUse (.pushTemp slot) (.read name)
    | none =>
    match cgOuterTempSlot env.outer name with
    | some slot => emitUse (.pushTemp slot) (.read name)
    | none => do
      match ← cgInstVarIndex env name with
      | some index => emit (.pushInstVar index)
      | none =>
        let index ← cgLiteralIndex { makeToken .classRef with text := name }
        emit (.pushGlobal index)

/-- The instruction that stores into a variable, with the search of `cg_parse_statements`;
the value is compiled before it is written. -/
def cgEmitAssignment (env : Env) (name : Name) (value : Cg Unit) : Cg Unit :=
  match cgTempIndex env.scope name with
  | some index => do
    value
    emitUse (.storeTemp (cgLocalTempSlot env index)) (.assign name)
  | none =>
  match cgOuterTempSlot env.outer name with
  | some slot => do
    value
    emitUse (.storeTemp slot) (.assign name)
  | none => do
    match ← cgInstVarIndex env name with
    | some index =>
      value
      emit (.storeInstVar index)
    | none => .reject

/-! ## §4. Sources of blocks. -/

/-- `cg_skip_block_literal`, from a depth. -/
def cgSkipBlockLiteral : Nat → Nat → Cg Unit
  | 0, _ => .outOfFuel
  | _ + 1, 0 => pure ()
  | fuel + 1, depth + 1 => do
    let token ← next
    if token.type = .eof then .reject
    else if token.isSpecial "[" then cgSkipBlockLiteral fuel (depth + 2)
    else if token.isSpecial "]" then cgSkipBlockLiteral fuel depth
    else cgSkipBlockLiteral fuel (depth + 1)

/-- The loop of `cg_capture_literal_array`. -/
def cgSkipLiteralArray : Nat → Nat → Cg Unit
  | 0, _ => .outOfFuel
  | _ + 1, 0 => pure ()
  | fuel + 1, depth + 1 => do
    let token ← next
    if token.type = .eof then .reject
    else if token.isSpecial "#(" then cgSkipLiteralArray fuel (depth + 2)
    else if token.isSpecial ")" then cgSkipLiteralArray fuel depth
    else cgSkipLiteralArray fuel (depth + 1)

/-- The text between two places of the tokenizer. -/
def textBetween (start finish : List Char) : List Char := start.take (start.length - finish.length)

/-- `cg_capture_literal_array`, whose text begins two characters back. -/
def cgCaptureLiteralArray (fuel : Nat) : Cg (List Char) := do
  let start ← Attempt.get
  cgSkipLiteralArray fuel 1
  let finish ← Attempt.get
  let text := ['#', '('] ++ textBetween start.parser.rest finish.parser.rest
  .require (text.length ≤ textRoom)
  return text

/-- `cg_capture_block_source_from_open`: the text up to the closing bracket. -/
def cgCaptureBlockSource (fuel : Nat) : Cg (List Char) := do
  let start ← Attempt.get
  cgSkipBlockLiteral fuel 1
  let finish ← Attempt.get
  let text := (textBetween start.parser.rest finish.parser.rest).dropLast
  .require (text.length < 4096)
  return text

def isspace (c : Char) : Bool :=
  c == ' ' || c == '\t' || c == '\n' || c == '\r' || c.toNat == 11 || c.toNat == 12

/-- `cg_build_implicit_return_source`: `^` before the body, or after its temporaries. -/
def cgBuildImplicitReturnSource (raw : List Char) : Option (List Char) :=
  let leading := raw.takeWhile isspace
  let trimmed := ((raw.dropWhile isspace).reverse.dropWhile isspace).reverse
  if trimmed = [] then none
  else
    let caret : List Char := " ^ ".toList
    let split : Option (List Char × List Char) :=
      match trimmed with
      | '|' :: rest =>
        match rest.dropWhile (· != '|') with
        | [] => none
        | bar :: body => some ('|' :: rest.takeWhile (· != '|') ++ [bar], body)
      | _ => some ([], trimmed)
    match split with
    | none => none
    | some (decls, body) =>
      let source := leading ++ decls ++ caret ++ body
      if source.length < 4096 then some source else none

/-! ## §5. Declarations. -/

/-- The loop of `cg_parse_block_header`, with room for as many names. -/
def cgParseBlockArgs : Nat → List Name → Cg (List Name)
  | room, names => do
    let arg ← next
    match room with
    | 0 => .reject
    | room + 1 =>
      if arg.type = .identifier then
        let names := names ++ [nameField arg.text]
        let token ← next
        if token.isSpecial ":" then cgParseBlockArgs room names
        else if token.isSpecial "|" then return names
        else .reject
      else .reject

def cgParseBlockHeader : Cg (List Name) := do
  let token ← next
  if token.isSpecial ":" then cgParseBlockArgs 8 []
  else
    unread token
    return []

/-- The loop of `cg_parse_temp_decls`. -/
def cgParseTemps : Nat → List Name → Cg (List Name)
  | room, names => do
    let temp ← next
    if temp.isSpecial "|" then return names
    else
      match room with
      | 0 => .reject
      | room + 1 =>
        if temp.type = .identifier then cgParseTemps room (names ++ [nameField temp.text])
        else .reject

def cgParseTempDecls : Cg (List Name) := do
  let token ← next
  if token.isSpecial "|" then cgParseTemps 16 []
  else
    unread token
    return []

/-- The arguments of a body: a block has its own header. -/
def cgBodyArgs (inBlock : Bool) (header : List Name) : Cg (List Name) :=
  if inBlock then cgParseBlockHeader else pure header

/-- A block without a return returns nil. -/
def cgEndBlock (inBlock : Bool) : Cg Unit := do
  let s ← Attempt.get
  if inBlock ∧ ¬s.sawReturn then
    cgEmitPushLiteralToken nilToken
    emit .ret
    setSawReturn
  else pure ()

/-! ## §6. Expressions, statements and blocks. -/

/-- A binary character, and the one that may follow it. -/
def BToken.isBinary (token : BToken) : Bool :=
  token.type == .special && match token.text with
    | [c] => isBinarySelectorChar c
    | _ => false

/-- The rest of a binary selector. -/
def cgBinarySelector (token : BToken) : Cg (List Char) := do
  let maybeSecond ← next
  if maybeSecond.isBinary then return token.text ++ maybeSecond.text
  else
    unread maybeSecond
    return token.text

/-- The body of a block goes to its place in the table. -/
def storeBlock (blockIndex : Nat) (block : CompiledBlock) : Cg Unit :=
  .modify fun s => { s with blocks := s.blocks.set blockIndex block }

/-- `root_compiled->block_count++`. -/
def reserveBlock : Cg Nat := .modifyGet fun s =>
  (s.blocks.length, { s with blocks := s.blocks ++ [.empty] })

/-- Compile a source with a state of its own, which shares the table of blocks. -/
def withSource {α : Type} (source : List Char) : Cg α → Cg α :=
  .inside (fun s => .init source s.blocks) (fun inner s => { s with blocks := inner.blocks })

def Env.enclose (env : Env) : List Scope := env.scope :: env.outer

/-- The offset of the blocks of a body. -/
def Env.blockOffset (env : Env) : Nat :=
  env.scope.closureOffset + env.scope.args.length + env.scope.temps.length

def blockToken (blockIndex : Nat) : BToken :=
  { type := .blockLiteral
    text := "block:".toList ++ (toString blockIndex).toList
    intValue := blockIndex }

mutual

/-- `cg_emit_primary_token`. -/
def cgEmitPrimaryToken : Nat → Env → BToken → Cg Unit
  | 0, _, _ => .outOfFuel
  | fuel + 1, env, token =>
    if token.type = .identifier then cgEmitIdentifier env token
    else if token.type = .integer ∨ token.type = .character ∨ token.type = .string
        ∨ token.type = .symbol then cgEmitPushLiteralToken token
    else if token.isSpecial "(" then do
      cgParseExpression fuel env
      let close ← next
      .require (close.isSpecial ")")
    else if token.isSpecial "#(" then do
      let text ← cgCaptureLiteralArray fuel
      cgEmitPushLiteralToken { makeToken .literalArray with text := text }
    else if token.isSpecial "[" then do
      let start ← Attempt.get
      cgSkipBlockLiteral fuel 1
      let finish ← Attempt.get
      -- the table is asked for room before the text is looked at
      .require (finish.blocks.length < 16)
      let source := (textBetween start.parser.rest finish.parser.rest).dropLast
      .require (source.length < 4096)
      let blockIndex ← reserveBlock
      cgCompileAndStoreBlock fuel env source blockIndex
      let index ← cgLiteralIndex (blockToken blockIndex)
      emit (.pushClosure index)
    else .reject

/-- `cg_compile_and_store_block`: a body that is not accepted is tried again with `^`. -/
def cgCompileAndStoreBlock : Nat → Env → List Char → Nat → Cg Unit
  | 0, _, _, _ => .outOfFuel
  | fuel + 1, env, rawSource, blockIndex => do
    let accepted ← (cgStoreBody fuel env rawSource blockIndex).succeeds
    if accepted then pure ()
    else
      match cgBuildImplicitReturnSource rawSource with
      | none => .reject
      | some implicitSource => cgStoreBody fuel env implicitSource blockIndex

/-- One try at a block. -/
def cgStoreBody : Nat → Env → List Char → Nat → Cg Unit
  | 0, _, _, _ => .outOfFuel
  | fuel + 1, env, source, blockIndex => do
    let block ← withSource source
      (bcCodegenBody fuel true [] env.targetClass env.enclose env.blockOffset)
    storeBlock blockIndex block

/-- `cg_parse_primary` and the loop of `cg_parse_unary_expression`. -/
def cgParseUnaryExpression : Nat → Env → Cg Unit
  | 0, _ => .outOfFuel
  | fuel + 1, env => do
    let token ← next
    cgEmitPrimaryToken fuel env token
    cgUnaryLoop fuel

def cgUnaryLoop : Nat → Cg Unit
  | 0 => .outOfFuel
  | fuel + 1 => do
    let token ← next
    if token.type = .identifier then
      cgEmitSelectorSend token.text 0
      cgUnaryLoop fuel
    else unread token

def cgParseBinaryExpression : Nat → Env → Cg Unit
  | 0, _ => .outOfFuel
  | fuel + 1, env => do
    cgParseUnaryExpression fuel env
    cgBinaryLoop fuel env

def cgBinaryLoop : Nat → Env → Cg Unit
  | 0, _ => .outOfFuel
  | fuel + 1, env => do
    let token ← next
    if token.isBinary then
      let selector ← cgBinarySelector token
      cgParseUnaryExpression fuel env
      cgEmitSelectorSend selector 1
      cgBinaryLoop fuel env
    else unread token

/-- `cg_parse_expression_continuation`. -/
def cgParseExpressionContinuation : Nat → Env → Cg Unit
  | 0, _ => .outOfFuel
  | fuel + 1, env => do
    let token ← next
    if token.type = .eof then unread token
    else if token.isSpecial "." || token.isSpecial ")" || token.isSpecial "]" then unread token
    else if token.isSpecial ";" then cgParseExpressionContinuation fuel env
    else if token.type = .identifier then
      cgEmitSelectorSend token.text 0
      cgParseExpressionContinuation fuel env
    else if token.isBinary then
      let selector ← cgBinarySelector token
      cgParseUnaryExpression fuel env
      cgEmitSelectorSend selector 1
      cgParseExpressionContinuation fuel env
    else if token.type = .keyword then
      cgKeywordLoop fuel env token [] 0
      cgParseExpressionContinuation fuel env
    else .reject

/-- The keywords of a message, after as many arguments; the selector has room for 127 bytes. -/
def cgKeywordLoop : Nat → Env → BToken → List Char → Nat → Cg Unit
  | 0, _, _, _, _ => .outOfFuel
  | fuel + 1, env, current, selector, argc => do
    let selector := (selector ++ current.text).take 127
    cgParseBinaryExpression fuel env
    let maybeNext ← next
    if maybeNext.type = .keyword then cgKeywordLoop fuel env maybeNext selector (argc + 1)
    else
      unread maybeNext
      cgEmitSelectorSend selector (argc + 1)

def cgParseExpression : Nat → Env → Cg Unit
  | 0, _ => .outOfFuel
  | fuel + 1, env => do
    cgParseBinaryExpression fuel env
    cgParseExpressionContinuation fuel env

/-- `cg_emit_inline_expression`. -/
def cgEmitInlineExpression : Nat → Env → List Char → Cg Unit
  | 0, _, _ => .outOfFuel
  | fuel + 1, env, source => do
    let s ← Attempt.get
    setParser (bpInit source)
    let accepted ← (cgParseExpression fuel env).succeeds
    if accepted then
      let eof ← next
      setParser s.parser
      .require (eof.type = .eof)
    else
      setParser s.parser
      .reject

/-- `cg_emit_inline_statements`. -/
def cgEmitInlineStatements : Nat → Env → List Char → Cg Unit
  | 0, _, _ => .outOfFuel
  | fuel + 1, env, source => do
    let s ← Attempt.get
    setParser (bpInit source)
    let accepted ← (cgParseStatements fuel env).succeeds
    setParser s.parser
    .require accepted

/-- `cg_parse_while_true_statement`. -/
def cgParseWhileTrueStatement : Nat → Env → Cg Unit
  | 0, _ => .outOfFuel
  | fuel + 1, env => do
    let conditionSource ← cgCaptureBlockSource fuel
    let keyword ← next
    .require (keyword.type = .keyword ∧ keyword.text = "whileTrue:".toList)
    let bodyOpen ← next
    .require (bodyOpen.isSpecial "[")
    let bodySource ← cgCaptureBlockSource fuel
    let s ← Attempt.get
    let loopStart := byteCount s.code
    cgEmitInlineExpression fuel env conditionSource
    let exitPatch ← cgEmitJumpPlaceholder
    cgEmitInlineStatements fuel env bodySource
    emit (.jump loopStart)
    cgPatch exitPatch
    cgEmitPushLiteralToken nilToken

/-- `cg_parse_statements`. -/
def cgParseStatements : Nat → Env → Cg Unit
  | 0, _ => .outOfFuel
  | fuel + 1, env => do
    let token ← next
    if token.type = .eof then pure ()
    else if token.isSpecial "." then cgParseStatements fuel env
    else if token.isSpecial "^" then
      cgParseExpression fuel env
      emit (if env.inBlock then .returnNonLocal else .ret)
      setSawReturn
      let eof ← next
      .require (eof.type = .eof)
    else if token.isSpecial "[" then
      let saved ← Attempt.get
      let isLoop ← (cgParseWhileTrueStatement fuel env).succeeds
      if isLoop then
        let separator ← next
        if separator.type = .eof then pure ()
        else
          .require (separator.isSpecial ".")
          emit .pop
          cgParseStatements fuel env
      else
        -- only the parser goes back
        setParser saved.parser
        unread token
        cgParseExpression fuel env
        cgEndStatement fuel env
    else if token.type = .identifier then
      let maybeAssign ← next
      if maybeAssign.isSpecial ":=" then
        cgEmitAssignment env token.text (cgParseExpression fuel env)
        let separator ← next
        if separator.type = .eof then pure ()
        else
          .require (separator.isSpecial ".")
          cgParseStatements fuel env
      else
        unread maybeAssign
        cgEmitPrimaryToken fuel env token
        cgParseExpressionContinuation fuel env
        cgEndStatement fuel env
    else
      unread token
      cgParseExpression fuel env
      cgEndStatement fuel env

/-- After an expression: the last one is returned, the others are popped. -/
def cgEndStatement : Nat → Env → Cg Unit
  | 0, _ => .outOfFuel
  | fuel + 1, env => do
    let separator ← next
    if separator.type = .eof then
      emit .ret
      setSawReturn
    else
      .require (separator.isSpecial ".")
      emit .pop
      cgParseStatements fuel env

/-- `bc_codegen_body_with_outer_state`. -/
def bcCodegenBody : Nat → Bool → List Name → TargetClass → List Scope → Nat → Cg CompiledBlock
  | 0, _, _, _, _, _ => .outOfFuel
  | fuel + 1, inBlock, header, targetClass, outer, closureOffset => do
    let args ← cgBodyArgs inBlock header
    let temps ← cgParseTempDecls
    let scope : Scope := { args := args, temps := temps, closureOffset := closureOffset }
    let env : Env :=
      { scope := scope, outer := outer, inBlock := inBlock, targetClass := targetClass }
    cgParseStatements fuel env
    cgEndBlock inBlock
    let s ← Attempt.get
    .require s.sawReturn
    return {
      bytecodes := s.code
      argCount := args.length
      tempCount := temps.length
      literals := s.literals
      scopes := scope :: outer
      uses := s.uses }
termination_by structural fuel => fuel

end

/-- `BCompiledBody`, of a method. -/
structure CompiledBody where
  body : CompiledBlock
  instVarNames : List Name
  blocks : List CompiledBlock

/-- `bc_codegen_body` for the body of a method with a header; the source is accepted when
there is fuel with which the run gets through. -/
def bcCodegenMethod (fuel : Nat) (header : List Name) (targetClass : TargetClass)
    (source : List Char) : Tried CgState CompiledBody :=
  match bcCodegenBody fuel false header targetClass [] 0 (.init source []) with
  | .ok body s => .ok ⟨body, s.instVarNames, s.blocks⟩ s
  | .rejected s => .rejected s
  | .outOfFuel => .outOfFuel

end LivingObjects.Compiler
