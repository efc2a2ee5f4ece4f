/-
  LivingObjects.Smalltalk.Printing — nodes as source text.

  The grammar that the parser supports, as the relation between a node and the lexemes it
  is printed with: minimal parentheses, a blank between two lexemes, and everything within
  the buffers of the parser and the tokenizer.
-/
import LivingObjects.Smalltalk.Lexemes
import LivingObjects.Smalltalk.Parser

namespace LivingObjects.Smalltalk

open Node

/-! ## §1. Precedence. -/

/-- What may stand at a place without parentheses, up to some kind of message. -/
inductive Level where
  | primary
  | unary
  | binary
  | keyword
deriving DecidableEq, Repr

def Level.rank : Level → Nat
  | .primary => 0
  | .unary => 1
  | .binary => 2
  | .keyword => 3

/-- A message by its selector and the number of its arguments. -/
def messageLevel (selector : List Char) (arguments : List Node) : Level :=
  if arguments.isEmpty then .unary
  else if startsWith isBinarySelectorChar selector then .binary
  else .keyword

/-- The receivers that a message takes without parentheses. -/
def Level.receiver : Level → Level
  | .primary | .unary => .unary
  | .binary | .keyword => .binary

def Node.level : Node → Level
  | messageNode _ selector arguments => messageLevel selector arguments
  | _ => .primary

/-! ## §2. Lexemes in a printed text. -/

/-- A lexeme that is read back as itself when a blank follows. -/
structure Lexeme.Plain (lexeme : Lexeme) : Prop where
  valid : lexeme.Valid
  fits : lexeme.Fits
  alone : ∀ text, lexeme = .symbol text → underscored text = false

/-- The lexemes of a literal that is no array. -/
def Lexeme.isLiteral : Lexeme → Bool
  | .integer _ | .character _ | .string _ | .symbol _ | .quotedSymbol _ | .binarySymbol _ => true
  | _ => false

/-- The value of a literal. -/
def Lexeme.literalValue : Lexeme → LiteralValue
  | .integer digits => .integer (digitsValue 0 digits)
  | .character value => .character value.toNat
  | .string text => .string text
  | .symbol text | .quotedSymbol text | .binarySymbol text => .symbol text
  | .identifier name => .symbol name
  | .keyword name => .symbol (name ++ [':'])
  | .binary text => .symbol text
  | _ => .nil

/-- The lexemes of an element of a literal array: names, keywords and selectors are symbols
there. -/
def Lexeme.isElement : Lexeme → Bool
  | .identifier _ | .keyword _ | .binary _ => true
  | lexeme => lexeme.isLiteral

def argumentLexemes (names : List (List Char)) : List Lexeme :=
  if names.isEmpty then []
  else names.flatMap (fun name => [.colon, .identifier name]) ++ [.binary ['|']]

def temporaryLexemes (names : List (List Char)) : List Lexeme :=
  if names.isEmpty then [] else .binary ['|'] :: (names.map .identifier ++ [.binary ['|']])

/-- Names that are printed, and how many there may be. -/
structure Names (room : Nat) (names : List (List Char)) : Prop where
  plain : ∀ name ∈ names, (Lexeme.identifier name).Plain
  room : names.length ≤ room

/-- The selector that some keywords make up. -/
def selectorOf (names : List (List Char)) : List Char := names.flatMap (· ++ [':'])

/-! ## §3. The printed grammar. -/

mutual

/-- How an expression is printed where messages up to a level need no parentheses. -/
inductive Prints : Level → Node → List Lexeme → Prop
  | literal {level : Level} {lexeme : Lexeme} (h : lexeme.isLiteral = true)
      (hplain : lexeme.Plain) :
      Prints level (literalNode lexeme.literalValue lexeme.token) [lexeme]
  | variable {level : Level} {name : List Char} (hplain : (Lexeme.identifier name).Plain) :
      Prints level (variableNode name) [.identifier name]
  | literalArray {level : Level} {elements : List Node} {lexemes : List Lexeme}
      (h : PrintsElements elements lexemes) (hroom : elements.length ≤ 32) :
      Prints level (literalArrayNode elements) (.literalArray :: (lexemes ++ [.special ')']))
  | block {level : Level} {arguments temporaries : List (List Char)} {statements : List Node}
      {lexemes : List Lexeme} (harguments : Names 8 arguments)
      (htemporaries : Names 16 temporaries) (h : PrintsStatements statements lexemes)
      (hroom : statements.length ≤ 32) :
      Prints level (blockNode arguments temporaries statements)
        (.special '[' :: (argumentLexemes arguments ++ (temporaryLexemes temporaries ++
          (lexemes ++ [.special ']']))))
  | unary {level : Level} {receiver : Node} {selector : List Char} {lexemes : List Lexeme}
      (hlevel : Level.unary.rank ≤ level.rank) (h : Prints .unary receiver lexemes)
      (hplain : (Lexeme.identifier selector).Plain) :
      Prints level (messageNode receiver selector []) (lexemes ++ [.identifier selector])
  | binary {level : Level} {receiver argument : Node} {selector : List Char}
      {lexemes later : List Lexeme} (hlevel : Level.binary.rank ≤ level.rank)
      (h : Prints .binary receiver lexemes) (hplain : (Lexeme.binary selector).Plain)
      (hargument : Prints .unary argument later) :
      Prints level (messageNode receiver selector [argument])
        (lexemes ++ .binary selector :: later)
  | keyword {receiver : Node} {names : List (List Char)} {arguments : List Node}
      {lexemes later : List Lexeme} (h : Prints .binary receiver lexemes) (hne : names ≠ [])
      (harguments : PrintsArguments names arguments later) (hroom : arguments.length ≤ 8)
      (hselector : (selectorOf names).length ≤ 64) :
      Prints .keyword (messageNode receiver (selectorOf names) arguments) (lexemes ++ later)
  | parenthesized {level : Level} {node : Node} {lexemes : List Lexeme}
      (hlevel : level.rank < node.level.rank) (h : Prints .keyword node lexemes) :
      Prints level node (.special '(' :: (lexemes ++ [.special ')']))

/-- The keywords of a message and its arguments. -/
inductive PrintsArguments : List (List Char) → List Node → List Lexeme → Prop
  | nil : PrintsArguments [] [] []
  | cons {name : List Char} {names : List (List Char)} {argument : Node} {arguments : List Node}
      {lexemes later : List Lexeme} (hplain : (Lexeme.keyword name).Plain)
      (h : Prints .binary argument lexemes) (hlater : PrintsArguments names arguments later) :
      PrintsArguments (name :: names) (argument :: arguments) (.keyword name :: (lexemes ++ later))

/-- The elements of a literal array. -/
inductive PrintsElements : List Node → List Lexeme → Prop
  | nil : PrintsElements [] []
  | literal {lexeme : Lexeme} {elements : List Node} {later : List Lexeme}
      (h : lexeme.isElement = true) (hplain : lexeme.Plain)
      (hlater : PrintsElements elements later) :
      PrintsElements (literalNode lexeme.literalValue lexeme.token :: elements) (lexeme :: later)
  | array {inner elements : List Node} {lexemes later : List Lexeme}
      (h : PrintsElements inner lexemes) (hroom : inner.length ≤ 32)
      (hlater : PrintsElements elements later) :
      PrintsElements (literalArrayNode inner :: elements)
        (.literalArray :: (lexemes ++ .special ')' :: later))

inductive PrintsStatement : Node → List Lexeme → Prop
  | expression {node : Node} {lexemes : List Lexeme} (h : Prints .keyword node lexemes) :
      PrintsStatement node lexemes
  | assignment {name : List Char} {value : Node} {lexemes : List Lexeme}
      (hplain : (Lexeme.identifier name).Plain) (h : Prints .keyword value lexemes) :
      PrintsStatement (assignmentNode (variableNode name) value)
        (.identifier name :: .assignment :: lexemes)
  | return {expression : Node} {lexemes : List Lexeme} (h : Prints .keyword expression lexemes) :
      PrintsStatement (returnNode expression) (.special '^' :: lexemes)

/-- Statements with a period between two of them. -/
inductive PrintsStatements : List Node → List Lexeme → Prop
  | nil : PrintsStatements [] []
  | one {statement : Node} {lexemes : List Lexeme} (h : PrintsStatement statement lexemes) :
      PrintsStatements [statement] lexemes
  | cons {statement next : Node} {statements : List Node} {lexemes later : List Lexeme}
      (h : PrintsStatement statement lexemes)
      (hlater : PrintsStatements (next :: statements) later) :
      PrintsStatements (statement :: next :: statements) (lexemes ++ .special '.' :: later)

end

/-- The text of some lexemes, with a blank between two of them. -/
def spacedText : List Lexeme → List Char
  | [] => []
  | lexeme :: lexemes => lexeme.text ++ lexemes.flatMap fun lexeme => ' ' :: lexeme.text

/-! ## §4. The nodes that are read back. -/

/-- The literal that a printed expression begins with, if it does with one. -/
def Node.firstLiteral : Level → Node → Option Token
  | _, literalNode _ token => some token
  | level, messageNode receiver selector arguments =>
    if level.rank < (messageLevel selector arguments).rank then none
    else receiver.firstLiteral (messageLevel selector arguments).receiver
  | _, _ => none

/-- No temporaries, and a string or a symbol whose text is a bar to begin with. -/
def BeginsWithBar (temporaries : List (List Char)) (statements : List Node) : Prop :=
  temporaries = [] ∧ ∃ statement token, statements.head? = some statement ∧
    statement.firstLiteral .keyword = some token ∧ token.text = ['|']

mutual

/-- No message of several keywords to a block, and no block or sequence that begins with a bar
that is a literal. -/
def Node.Good : Node → Prop
  | messageNode receiver _ arguments =>
    receiver.Good ∧ AllGood arguments ∧ (receiver.isBlock = true → arguments.length ≤ 1)
  | blockNode _ temporaries statements =>
    AllGood statements ∧ ¬ BeginsWithBar temporaries statements
  | assignmentNode target value => target.Good ∧ value.Good
  | returnNode expression => expression.Good
  | sequenceNode temporaries statements =>
    AllGood statements ∧ ¬ BeginsWithBar temporaries statements
  | literalArrayNode elements => AllGood elements
  | _ => True

def AllGood : List Node → Prop
  | [] => True
  | node :: nodes => node.Good ∧ AllGood nodes

end

/-! ## §5. Reading a printed text. -/

end LivingObjects.Smalltalk
