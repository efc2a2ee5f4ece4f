/-
  LivingObjects.Smalltalk.CodeGenerator — the code generator written in Smalltalk.

  The methods of `CodeGenerator.st` that visit the nodes of the parser.  `none` is a trap: a
  store past the 256 bytes or the 16 literals, a byte that is none, or a message that a node
  does not understand.  Two literals are the same where `==` says so, which is a parameter
  here: two strings with the same text are two objects.
-/
import LivingObjects.Smalltalk.Parser

namespace LivingObjects.Smalltalk

open Node

/-! ## §1. The generator. -/

/-- A literal of a method; a block is the generator that has compiled it. -/
inductive Literal where
  | value (value : LiteralValue)
  | boolean (value : Bool)
  | block (bytecodes : List Nat) (literals : List Literal) (temps args : List (List Char))

structure CodeGenerator where
  bytecodes : List Nat
  literals : List Literal
  temps : List (List Char)
  args : List (List Char)
  inBlock : Bool

namespace CodeGenerator

def new : CodeGenerator :=
  { bytecodes := [], literals := [], temps := [], args := [], inBlock := false }

def forBlock : CodeGenerator := { new with inBlock := true }

def bytecodeCount (self : CodeGenerator) : Nat := self.bytecodes.length

def arguments (argNames : List (List Char)) (self : CodeGenerator) : CodeGenerator :=
  { self with args := argNames }

def temporaries (tempNames : List (List Char)) (self : CodeGenerator) : CodeGenerator :=
  { self with temps := tempNames }

/-! ## §2. Emitting. -/

/-- `bytecodes at: bytecodeCount put: value`, on a `String` of 256. -/
def emitByte (value : Nat) (self : CodeGenerator) : Option CodeGenerator :=
  if self.bytecodes.length < 256 ∧ value < 256 then
    some { self with bytecodes := self.bytecodes ++ [value] }
  else none

def emitU32 (value : Nat) (self : CodeGenerator) : Option CodeGenerator := do
  let self ← self.emitByte value
  let self ← self.emitByte 0
  let self ← self.emitByte 0
  self.emitByte 0

/-- The index is the one of `emitJumpIfFalsePlaceholder`, and begins with 1. -/
def patchU32At (index value : Nat) (self : CodeGenerator) : Option CodeGenerator :=
  if value < 256 then
    some { self with bytecodes := (((self.bytecodes.set (index - 1) value).set index 0).set
      (index + 1) 0).set (index + 2) 0 }
  else none

def emitPushLiteral (index : Nat) (self : CodeGenerator) : Option CodeGenerator := do
  let self ← self.emitByte 0
  self.emitU32 index

def emitPushTemp (index : Nat) (self : CodeGenerator) : Option CodeGenerator := do
  let self ← self.emitByte 2
  self.emitU32 index

def emitPushSelf (self : CodeGenerator) : Option CodeGenerator := self.emitByte 3

def emitStoreTemp (index : Nat) (self : CodeGenerator) : Option CodeGenerator := do
  let self ← self.emitByte 5
  self.emitU32 index

def emitSendMessage (selectorIndex argc : Nat) (self : CodeGenerator) : Option CodeGenerator := do
  let self ← self.emitByte 6
  let self ← self.emitU32 selectorIndex
  self.emitU32 argc

def emitReturn (self : CodeGenerator) : Option CodeGenerator := self.emitByte 7

def emitJumpTo (offset : Nat) (self : CodeGenerator) : Option CodeGenerator := do
  let self ← self.emitByte 8
  self.emitU32 offset

/-- The index of the first byte of the placeholder, and the generator. -/
def emitJumpIfFalsePlaceholder (self : CodeGenerator) : Option (Nat × CodeGenerator) := do
  let self ← self.emitByte 10
  let patchIndex := self.bytecodeCount + 1
  let self ← self.emitU32 0
  pure (patchIndex, self)

def emitPop (self : CodeGenerator) : Option CodeGenerator := self.emitByte 11

def emitDuplicate (self : CodeGenerator) : Option CodeGenerator := self.emitByte 12

def emitPushClosure (blockIndex : Nat) (self : CodeGenerator) : Option CodeGenerator := do
  let self ← self.emitByte 14
  self.emitU32 blockIndex

def emitPushArg (index : Nat) (self : CodeGenerator) : Option CodeGenerator := do
  let self ← self.emitByte 15
  self.emitU32 index

def emitReturnNonLocal (self : CodeGenerator) : Option CodeGenerator := self.emitByte 16

def emitPushThisContext (self : CodeGenerator) : Option CodeGenerator := self.emitByte 17

/-! ## §3. Literals and variables. -/

variable (identical : Literal → Literal → Bool)

/-- `addLiteral:` and `findLiteral:from:`: the index of the literal, from 0. -/
def addLiteral (anObject : Literal) (self : CodeGenerator) : Option (Nat × CodeGenerator) :=
  match self.literals.findIdx? (identical · anObject) with
  | some index => some (index, self)
  | none =>
    if self.literals.length < 16 then
      some (self.literals.length, { self with literals := self.literals ++ [anObject] })
    else none

/-- `self emitPushLiteral: (self addLiteral: anObject)`. -/
def pushLiteral (anObject : Literal) (self : CodeGenerator) : Option CodeGenerator := do
  let (index, self) ← self.addLiteral identical anObject
  self.emitPushLiteral index

/-- `tempIndexOf:`; `none` is -1. -/
def tempIndexOf (name : List Char) (self : CodeGenerator) : Option Nat :=
  self.temps.findIdx? (· == name)

def argIndexOf (name : List Char) (self : CodeGenerator) : Option Nat :=
  self.args.findIdx? (· == name)

def resolveNamedVariable (name : List Char) (self : CodeGenerator) : Option CodeGenerator :=
  match self.tempIndexOf name with
  | some tempIndex => self.emitPushTemp tempIndex
  | none =>
    match self.argIndexOf name with
    | some argIndex => self.emitPushArg argIndex
    | none => self.emitPushSelf

def resolveVariable (name : List Char) (self : CodeGenerator) : Option CodeGenerator :=
  if name = "self".toList then self.emitPushSelf
  else if name = "super".toList then self.emitPushSelf
  else if name = "thisContext".toList then self.emitPushThisContext
  else if name = "nil".toList then self.pushLiteral identical (.value .nil)
  else if name = "true".toList then self.pushLiteral identical (.boolean true)
  else if name = "false".toList then self.pushLiteral identical (.boolean false)
  else self.resolveNamedVariable name

/-- A variable that is no temporary is not stored: `self` is pushed. -/
def storeVariable (name : List Char) (self : CodeGenerator) : Option CodeGenerator :=
  match self.tempIndexOf name with
  | some tempIndex => self.emitStoreTemp tempIndex
  | none => self.emitPushSelf

/-! ## §4. Visiting. -/

/-- `isWhileTrueMessage:`: both selectors, with a block as the one argument. -/
def isWhileTrueMessage (receiver : Node) (selector : List Char) (arguments : List Node) : Bool :=
  (selector == "whileTrue:".toList || selector == "whileTrue".toList) && receiver.isBlock &&
    match arguments with
    | [body] => body.isBlock
    | _ => false

mutual

def visitNode : Node → CodeGenerator → Option CodeGenerator
  | nil, _ => none
  | literalNode value _, self => self.pushLiteral identical (.value value)
  -- a `LiteralArrayNode` is a literal that does not understand `value`
  | literalArrayNode _, _ => none
  | variableNode name, self => self.resolveVariable identical name
  | messageNode receiver selector arguments, self =>
    if isWhileTrueMessage receiver selector arguments then do
      -- `visitWhileTrue:`
      let loopStart := self.bytecodeCount
      let self ← visitInlineBlock receiver self
      let (exitPatch, self) ← self.emitJumpIfFalsePlaceholder
      let self ← visitLoopBody arguments self
      let self ← self.emitPop
      let self ← self.emitJumpTo loopStart
      let self ← self.patchU32At exitPatch self.bytecodeCount
      self.pushLiteral identical (.value .nil)
    else do
      let self ← visitNode receiver self
      let self ← visitMessageArgs arguments self
      let (selectorIndex, self) ← self.addLiteral identical (.value (.symbol selector))
      self.emitSendMessage selectorIndex arguments.length
  | blockNode arguments temporaries statements, self => do
    let blockGen := (forBlock.arguments arguments).temporaries temporaries
    let blockGen ← if statements.isEmpty then blockGen.pushLiteral identical (.value .nil)
      else visitStatements statements blockGen
    let blockGen ← blockGen.emitReturn
    let (blockIndex, self) ← self.addLiteral identical
      (.block blockGen.bytecodes blockGen.literals blockGen.temps blockGen.args)
    self.emitPushClosure blockIndex
  | assignmentNode target value, self => do
    let self ← visitNode value self
    let self ← self.emitDuplicate
    match target with
    | variableNode name => self.storeVariable name
    | _ => none
  | returnNode expression, self => do
    let self ← visitNode expression self
    if self.inBlock then self.emitReturnNonLocal else self.emitReturn
  | sequenceNode temporaries statements, self =>
    if statements.isEmpty then some (self.temporaries temporaries)
    else visitStatements statements (self.temporaries temporaries)

/-- `visitInlineBlock:`: the arguments and the temporaries of the block are not declared. -/
def visitInlineBlock : Node → CodeGenerator → Option CodeGenerator
  | blockNode _ _ statements, self =>
    if statements.isEmpty then self.pushLiteral identical (.value .nil)
    else visitStatements statements self
  | _, _ => none

/-- `visitInlineBlock:` on the first argument. -/
def visitLoopBody : List Node → CodeGenerator → Option CodeGenerator
  | body :: _, self => visitInlineBlock body self
  | [], _ => none

/-- `visitMessageArgs:from:`. -/
def visitMessageArgs : List Node → CodeGenerator → Option CodeGenerator
  | [], self => some self
  | argument :: arguments, self => do
    let self ← visitNode argument self
    visitMessageArgs arguments self

/-- `visitStatements:from:last:`, on the statements from the index on. -/
def visitStatements : List Node → CodeGenerator → Option CodeGenerator
  | [], _ => none
  | statement :: statements, self => do
    let self ← visitNode statement self
    if statements.isEmpty then some self
    else do
      let self ← self.emitPop
      visitStatements statements self

end

end CodeGenerator

end LivingObjects.Smalltalk
