/-
  LivingObjects.Compiler.Tokenizer — the tokens of the bootstrap compiler.

  `bt_next` and the parser's buffer of one token, from `bootstrap_compiler.c`.  A source
  text is the list of its bytes without the final NUL, a byte being a character below
  256, and a tokenizer is the rest of the text: its index counts what is gone.
-/
import Mathlib

namespace LivingObjects.Compiler

/-! ## §1. Tokens. -/

inductive BTokenType where
  | eof
  | identifier
  | keyword
  | integer
  | character
  | string
  | symbol
  | selector
  | blockLiteral
  | literalArray
  | classRef
  | special
deriving DecidableEq, Repr

/-- A token; the text has room for 511 bytes. -/
structure BToken where
  type : BTokenType
  text : List Char
  intValue : Int
deriving DecidableEq, Repr

/-- `sizeof(token.text) - 1`. -/
def textRoom : Nat := 511

def makeToken (type : BTokenType) : BToken := { type := type, text := [], intValue := 0 }

def BToken.isSpecial (token : BToken) (text : String) : Bool :=
  token.type == .special && token.text == text.toList

def isBinarySelectorChar (c : Char) : Bool :=
  c == '+' || c == '-' || c == '*' || c == '/' || c == '<' || c == '>' || c == '=' || c == '~' ||
    c == '&' || c == '|' || c == '@' || c == '%' || c == ',' || c == '?'

/-! ## §2. The tokenizer. -/

/-- `skip_whitespace`, comments included; the flag says that a comment is open. -/
def skipWhitespace : Bool → List Char → List Char
  | _, [] => []
  | true, c :: cs => skipWhitespace (c != '"') cs
  | false, c :: cs =>
    if c == ' ' || c == '\t' || c == '\n' || c == '\r' then skipWhitespace false cs
    else if c == '"' then skipWhitespace true cs
    else c :: cs

/-- The characters of a string after its opening quote, and the text after the closing one. -/
def readString : List Char → List Char × List Char
  | [] => ([], [])
  | '\'' :: '\'' :: cs => let (text, rest) := readString cs; ('\'' :: text, rest)
  | '\'' :: cs => ([], cs)
  | c :: cs => let (text, rest) := readString cs; (c :: text, rest)

/-- A signed word of 64 bits. -/
def toInt64 (n : Int) : Int := (n + 2 ^ 63) % 2 ^ 64 - 2 ^ 63

/-- The value of the digits of an integer. -/
def decimal (digits : List Char) : Int :=
  digits.foldl (fun value digit => toInt64 (value * 10 + (digit.toNat - '0'.toNat))) 0

def isNameChar (c : Char) : Bool := c.isAlphanum || c == '_'

/-- `bt_next`: the next token, and the text after it. -/
def btNext (source : List Char) : BToken × List Char :=
  match skipWhitespace false source with
  | [] => (makeToken .eof, [])
  | c :: cs =>
    if c.isDigit then
      let digits := (c :: cs).takeWhile Char.isDigit
      ({ type := .integer, text := digits.take textRoom, intValue := decimal digits },
        (c :: cs).dropWhile Char.isDigit)
    else if c == '$' then
      match cs with
      | [] => (makeToken .eof, [])
      | value :: rest => ({ type := .character, text := [value], intValue := value.toNat }, rest)
    else if c.isAlpha || c == '_' then
      let name := (c :: cs).takeWhile isNameChar
      match (c :: cs).dropWhile isNameChar with
      | ':' :: rest =>
        ({ makeToken .keyword with text := (name ++ [':']).take textRoom }, rest)
      | rest => ({ makeToken .identifier with text := name.take textRoom }, rest)
    else if c == '\'' then
      let (text, rest) := readString cs
      ({ makeToken .string with text := text.take textRoom }, rest)
    else if c == '#' then
      match cs with
      | '(' :: rest => ({ makeToken .special with text := ['#', '('] }, rest)
      | _ =>
        let inSymbol : Char → Bool :=
          if (cs.head?.map fun d => isNameChar d || d == ':').getD false
          then fun d => isNameChar d || d == ':' else isBinarySelectorChar
        ({ makeToken .symbol with text := (cs.takeWhile inSymbol).take textRoom },
          cs.dropWhile inSymbol)
    else
      match c, cs with
      | ':', '=' :: rest => ({ makeToken .special with text := [':', '='] }, rest)
      | _, _ => ({ makeToken .special with text := [c] }, cs)

/-! ## §3. The parser's buffer. -/

/-- A tokenizer with a token that has been read too early. -/
structure BParser where
  rest : List Char
  buffered : Option BToken

def bpInit (source : List Char) : BParser := { rest := source, buffered := none }

def bpNext (parser : BParser) : BToken × BParser :=
  match parser.buffered with
  | some token => (token, { parser with buffered := none })
  | none => ((btNext parser.rest).1, { parser with rest := (btNext parser.rest).2 })

def bpUnread (parser : BParser) (token : BToken) : BParser := { parser with buffered := some token }

/-- A name is followed by its colon at once, so that `x:=` begins with a keyword. -/
example : (btNext "x:=3".toList).1 = { makeToken .keyword with text := "x:".toList } := by decide

/-! ## §4. What a token takes away. -/

theorem skipWhitespace_suffix (source : List Char) (comment : Bool) :
    skipWhitespace comment source <:+ source := by
  induction source generalizing comment with
  | nil => cases comment <;> exact List.suffix_refl _
  | cons c cs ih =>
    have hrest : ∀ comment, skipWhitespace comment cs <:+ c :: cs := fun comment =>
      (ih comment).trans (List.suffix_cons c cs)
    cases comment with
    | true => exact hrest _
    | false =>
      rw [skipWhitespace]
      split_ifs
      · exact hrest _
      · exact hrest _
      · exact List.suffix_refl _

theorem readString_suffix (text : List Char) : (readString text).2 <:+ text := by
  fun_induction readString text with
  | case1 => exact List.suffix_refl _
  | case2 cs text rest hread ih =>
    rw [hread] at ih
    exact ih.trans ((List.suffix_cons _ _).trans (List.suffix_cons _ _))
  | case3 cs => exact List.suffix_cons _ _
  | case4 c cs _ hquote text rest hread ih =>
    rw [hread] at ih
    exact ih.trans (List.suffix_cons _ _)

theorem dropWhile_suffix_tail {p : Char → Bool} {c : Char} {cs : List Char} (h : p c = true) :
    (c :: cs).dropWhile p <:+ cs := by
  rw [List.dropWhile_cons_of_pos h]
  exact List.dropWhile_suffix p

/-- A token read off a text: the end, or something of the text. -/
def Taken (source : List Char) (read : BToken × List Char) : Prop :=
  read.2 <:+ source ∧ (read.1.type = .eof ∨ read.2.length < source.length)

/-- **A token is the end, or takes something of the text away.** -/
theorem btNext_progress (source : List Char) : Taken source (btNext source) := by
  have hskip := skipWhitespace_suffix source false
  rw [btNext]
  cases htext : skipWhitespace false source with
  | nil => exact ⟨List.nil_suffix, .inl rfl⟩
  | cons c cs =>
    rw [htext] at hskip
    have hstep : ∀ (token : BToken) (rest : List Char), rest <:+ cs →
        Taken source (token, rest) := by
      intro token rest hrest
      refine ⟨hrest.trans ((List.suffix_cons c cs).trans hskip), .inr ?_⟩
      have hlength := hskip.length_le
      have hshort := hrest.length_le
      rw [List.length_cons] at hlength
      show rest.length < source.length
      omega
    dsimp only
    -- in the order of the tests of `bt_next`
    split
    next hdigit => exact hstep _ _ (dropWhile_suffix_tail hdigit)
    split
    · cases cs with
      | nil => exact ⟨List.nil_suffix, .inl rfl⟩
      | cons value rest => exact hstep _ _ (List.suffix_cons _ _)
    split
    next hname =>
      have hchar : isNameChar c = true := by
        simp only [Bool.or_eq_true, beq_iff_eq] at hname
        rw [isNameChar, Char.isAlphanum]
        rcases hname with halpha | hscore
        · rw [halpha]
          rfl
        · rw [hscore]
          rfl
      have hrest : (c :: cs).dropWhile isNameChar <:+ cs := dropWhile_suffix_tail hchar
      split
      · rename_i rest hcolon
        rw [hcolon] at hrest
        exact hstep _ _ ((List.suffix_cons _ _).trans hrest)
      · exact hstep _ _ hrest
    split
    · exact hstep _ _ (readString_suffix cs)
    split
    · split
      · exact hstep _ _ (List.suffix_cons _ _)
      · exact hstep _ _ (List.dropWhile_suffix _)
    · split
      · exact hstep _ _ (List.suffix_cons _ _)
      · exact hstep _ _ (List.suffix_refl _)

end LivingObjects.Compiler
