/-
  LivingObjects.Smalltalk.Parser — the parser written in Smalltalk.

  `Parser.st` and the nodes of `ASTNodes.st`.  A method of the parser is a function of the
  tokenizer; the ones that call each other are bounded by a fuel.  `none` is a trap: a
  store past the end of a buffer, or a message that nil does not understand.
-/
import LivingObjects.Smalltalk.Tokenizer

namespace LivingObjects.Smalltalk

/-! ## §1. Nodes. -/

/-- The value of a `LiteralNode`. -/
inductive LiteralValue where
  | nil
  | integer (value : Int)
  | character (value : Nat)
  | string (text : List Char)
  | symbol (text : List Char)
deriving DecidableEq, Repr

/-- The nodes that the parser makes; `nil` is its answer to what it does not understand. -/
inductive Node where
  | nil
  | literalNode (value : LiteralValue) (token : Token)
  | literalArrayNode (elements : List Node)
  | variableNode (name : List Char)
  | messageNode (receiver : Node) (selector : List Char) (arguments : List Node)
  | blockNode (arguments temporaries : List (List Char)) (statements : List Node)
  | assignmentNode (target value : Node)
  | returnNode (expression : Node)
  | sequenceNode (temporaries : List (List Char)) (statements : List Node)
deriving Repr

namespace Node

def isNil : Node → Bool
  | nil => true
  | _ => false

def isVariable : Node → Bool
  | variableNode _ => true
  | _ => false

def isBlock : Node → Bool
  | blockNode _ _ _ => true
  | _ => false

end Node

def Token.isIdentifier (token : Token) : Bool := token.type == .identifier

def Token.isKeyword (token : Token) : Bool := token.type == .keyword

def Token.isBinarySelector (token : Token) : Bool := token.type == .binary

/-! ## §2. The tokenizer of the parser. -/

/-- A method of the parser. -/
abbrev Parsing (α : Type) := StateT Tokenizer Option α

namespace Parser

def next : Parsing Token := Tokenizer.next

def peek : Parsing Token := Tokenizer.peek

def unread (token : Token) : Parsing Unit := fun tokenizer => some ((), tokenizer.unread token)

def trap {α : Type} : Parsing α := fun _ => none

/-- `buffer at: index put: element` on an `Array` of `room` that is filled up to `index - 1`. -/
def store {α : Type} (room : Nat) (buffer : List α) (element : α) : Parsing (List α) :=
  if buffer.length < room then pure (buffer ++ [element]) else trap

/-- `appendString:to:at:`, on a `String` of 64. -/
def appendString (text buffer : List Char) : Parsing (List Char) :=
  fun tokenizer => (text.foldlM (put 64) buffer).map (·, tokenizer)

/-- `token value`. -/
def tokenValue (token : Token) : LiteralValue :=
  match token.value with
  | none => .nil
  | some (.integer value) => .integer value
  | some (.symbol text) => .symbol text

/-- `LiteralNode value: token value asCharacter token: token`. -/
def characterLiteral (token : Token) : Parsing Node :=
  match token.value with
  | some (.integer value) => pure (.literalNode (.character value.toNat) token)
  | _ => trap

/-! ## §3. Literal arrays. -/

/-- The elements that are one token, in `collectLiteralArrayToken:into:at:`. -/
def literalArrayToken (token : Token) : Option (Parsing Node) :=
  match token.type with
  | .integer | .symbol => some (pure (.literalNode (tokenValue token) token))
  | .identifier | .keyword | .binary => some (pure (.literalNode (.symbol token.text) token))
  | .string => some (pure (.literalNode (.string token.text) token))
  | .character => some (characterLiteral token)
  | _ => none

/-- The elements that are one token, in `collectNestedLiteralToken:into:at:`. -/
def nestedLiteralToken (token : Token) : Option (Parsing Node) :=
  match token.type with
  | .integer | .symbol => some (pure (.literalNode (tokenValue token) token))
  | .identifier => some (pure (.literalNode (.symbol token.text) token))
  | .string => some (pure (.literalNode (.string token.text) token))
  | _ => none

/-- `parseNestedLiteralArray` and `collectNestedLiteralElements:at:`. -/
def collectNestedLiteralElements : Nat → List Node → Parsing Node
  | 0, _ => trap
  | fuel + 1, buffer => do
    let token ← peek
    if token.isSpecialText ")" then do
      let _ ← next
      pure (.literalArrayNode buffer)
    else if token.isEof then pure .nil
    else if token.isSpecialText "(" then do
      let _ ← next
      let elem ← collectNestedLiteralElements fuel []
      let buffer ← store 32 buffer elem
      collectNestedLiteralElements fuel buffer
    else match nestedLiteralToken token with
      | some element => do
        let _ ← next
        let elem ← element
        let buffer ← store 32 buffer elem
        collectNestedLiteralElements fuel buffer
      | none => pure .nil

/-- `collectLiteralArrayElements:at:`; `parseLiteralArray` reads its `#(` and begins with no
elements. -/
def collectLiteralArrayElements : Nat → List Node → Parsing Node
  | 0, _ => trap
  | fuel + 1, buffer => do
    let token ← peek
    if token.isSpecialText ")" then do
      let _ ← next
      pure (.literalArrayNode buffer)
    else if token.isEof then pure .nil
    else if token.isSpecialText "#(" then do
      let _ ← next
      let elem ← collectLiteralArrayElements fuel []
      let buffer ← store 32 buffer elem
      collectLiteralArrayElements fuel buffer
    else if token.isSpecialText "(" then do
      let _ ← next
      let elem ← collectNestedLiteralElements fuel []
      let buffer ← store 32 buffer elem
      collectLiteralArrayElements fuel buffer
    else match literalArrayToken token with
      | some element => do
        let _ ← next
        let elem ← element
        let buffer ← store 32 buffer elem
        collectLiteralArrayElements fuel buffer
      | none => pure .nil

def parseLiteralArray (fuel : Nat) : Parsing Node := do
  let _ ← next
  collectLiteralArrayElements fuel []

/-! ## §4. Names. -/

/-- `collectTemporaries:at:`: whatever token ends the names is gone. -/
def collectTemporaries : Nat → List (List Char) → Parsing (List (List Char))
  | 0, _ => trap
  | fuel + 1, buffer => do
    let token ← next
    if token.isIdentifier then do
      let buffer ← store 16 buffer token.text
      collectTemporaries fuel buffer
    else pure buffer

/-- `parseTemporaries`: the test is on the text of the token alone. -/
def parseTemporaries (fuel : Nat) : Parsing (List (List Char)) := do
  let token ← next
  if token.text = ['|'] then collectTemporaries fuel []
  else do
    unread token
    pure []

/-- `collectBlockArguments:at:`. -/
def collectBlockArguments : Nat → List (List Char) → Parsing (List (List Char))
  | 0, _ => trap
  | fuel + 1, buffer => do
    let token ← peek
    if token.isSpecialText ":" then do
      let _ ← next
      let argToken ← next
      if argToken.isIdentifier then do
        let buffer ← store 8 buffer argToken.text
        collectBlockArguments fuel buffer
      else pure buffer
    else if token.isSpecialText "|" || token.isBinarySelector && token.text = ['|'] then do
      let _ ← next
      pure buffer
    else pure buffer

def parseBlockArguments (fuel : Nat) : Parsing (List (List Char)) := do
  let token ← peek
  if token.isSpecialText ":" then collectBlockArguments fuel [] else pure []

/-! ## §5. Expressions and statements. -/

def parsePrimaryLiteral (token : Token) : Parsing Node :=
  match token.type with
  | .integer | .symbol => do
    let _ ← next
    pure (.literalNode (tokenValue token) token)
  | .character => do
    let _ ← next
    characterLiteral token
  | .string => do
    let _ ← next
    pure (.literalNode (.string token.text) token)
  | .identifier => do
    let _ ← next
    pure (.variableNode token.text)
  | _ => pure .nil

mutual

/-- `parseExpression` and `parseKeywordExpression`. -/
def parseKeywordExpression : Nat → Parsing Node
  | 0 => trap
  | fuel + 1 => do
    let receiver ← parseBinaryExpression fuel
    if receiver.isNil then pure .nil
    else do
      let token ← peek
      if !token.isKeyword then pure receiver
      else if !receiver.isBlock then parseKeywordContinuation fuel receiver [] []
      else do
        let _ ← next
        let arg ← parseBinaryExpression fuel
        pure (.messageNode receiver token.text [arg])

/-- `parseKeywordContinuation:selector:args:at:selectorAt:`. -/
def parseKeywordContinuation : Nat → Node → List Char → List Node → Parsing Node
  | 0, _, _, _ => trap
  | fuel + 1, receiver, selBuf, argsBuf => do
    let token ← peek
    if token.isKeyword then do
      let _ ← next
      let selBuf ← appendString token.text selBuf
      let arg ← parseBinaryExpression fuel
      if arg.isNil then pure .nil
      else do
        let argsBuf ← store 8 argsBuf arg
        parseKeywordContinuation fuel receiver selBuf argsBuf
    else pure (.messageNode receiver selBuf argsBuf)

def parseBinaryExpression : Nat → Parsing Node
  | 0 => trap
  | fuel + 1 => do
    let receiver ← parseUnaryExpression fuel
    if receiver.isNil then pure .nil else parseBinaryContinuation fuel receiver

/-- `parseBinaryContinuation:`. -/
def parseBinaryContinuation : Nat → Node → Parsing Node
  | 0, _ => trap
  | fuel + 1, receiver => do
    let token ← peek
    if token.isBinarySelector then do
      let _ ← next
      let arg ← parseUnaryExpression fuel
      if arg.isNil then pure .nil
      else parseBinaryContinuation fuel (.messageNode receiver token.text [arg])
    else pure receiver

def parseUnaryExpression : Nat → Parsing Node
  | 0 => trap
  | fuel + 1 => do
    let receiver ← parsePrimary fuel
    if receiver.isNil then pure .nil else parseUnaryContinuation fuel receiver

/-- `parseUnaryContinuation:`. -/
def parseUnaryContinuation : Nat → Node → Parsing Node
  | 0, _ => trap
  | fuel + 1, receiver => do
    let token ← peek
    if token.isIdentifier then do
      let _ ← next
      let nextToken ← peek
      if nextToken.isSpecialText ":=" then do
        unread token
        pure receiver
      else parseUnaryContinuation fuel (.messageNode receiver token.text [])
    else pure receiver

def parsePrimary : Nat → Parsing Node
  | 0 => trap
  | fuel + 1 => do
    let token ← peek
    if token.isSpecialText "(" then parseParenthesized fuel
    else if token.isSpecialText "[" then parseBlock fuel
    else if token.isSpecialText "#(" then parseLiteralArray fuel
    else parsePrimaryLiteral token

def parseParenthesized : Nat → Parsing Node
  | 0 => trap
  | fuel + 1 => do
    let _ ← next
    let expr ← parseKeywordExpression fuel
    let token ← next
    if token.isSpecialText ")" then pure expr else pure .nil

def parseBlock : Nat → Parsing Node
  | 0 => trap
  | fuel + 1 => do
    let _ ← next
    let args ← parseBlockArguments fuel
    let temps ← parseTemporaries fuel
    let stmts ← collectStatements fuel []
    let token ← next
    if token.isSpecialText "]" then pure (.blockNode args temps stmts) else pure .nil

/-- `parseStatements` and `collectStatements:at:`. -/
def collectStatements : Nat → List Node → Parsing (List Node)
  | 0, _ => trap
  | fuel + 1, buffer => do
    let token ← peek
    if token.isEof || token.isSpecialText "]" then pure buffer
    else do
      let stmt ← parseStatement fuel
      if stmt.isNil then pure buffer
      else do
        let buffer ← store 32 buffer stmt
        let token ← peek
        if token.isSpecialText "." then do
          let _ ← next
          collectStatements fuel buffer
        else pure buffer

def parseStatement : Nat → Parsing Node
  | 0 => trap
  | fuel + 1 => do
    let token ← peek
    if token.isSpecialText "^" then do
      let _ ← next
      let expression ← parseKeywordExpression fuel
      pure (.returnNode expression)
    else parseExpressionOrAssignment fuel

def parseExpressionOrAssignment : Nat → Parsing Node
  | 0 => trap
  | fuel + 1 => do
    let expr ← parseKeywordExpression fuel
    -- nil does not understand `isVariable`
    if expr.isNil then trap
    else if !expr.isVariable then pure expr
    else do
      let nextToken ← peek
      if !nextToken.isSpecialText ":=" then pure expr
      else do
        let _ ← next
        let value ← parseKeywordExpression fuel
        pure (.assignmentNode expr value)

end

/-! ## §6. Method bodies. -/

/-- `isPrimitiveOpenToken:` and `isPrimitiveCloseToken:`. -/
def isAngle (text : List Char) (token : Token) : Bool :=
  (token.type == .special || token.isBinarySelector) && token.text = text

end Parser

end LivingObjects.Smalltalk
