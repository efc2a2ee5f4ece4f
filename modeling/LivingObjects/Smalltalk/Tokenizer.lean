/-
  LivingObjects.Smalltalk.Tokenizer — the tokenizer written in Smalltalk.

  `Tokenizer.st`: a stream over the source text and one instance variable, `buffered`,
  which holds a token that was peeked at, and the `:=` of an assignment that was read
  together with the name before it.  A stream is the list of the bytes it has left, a
  byte being a character below 256.  A store past the end of a buffer and a number that
  is no `SmallInteger` end in `error:`, which traps: those are `none`.
-/
import Mathlib
import LivingObjects.Compiler.Tokenizer
import LivingObjects.Interp.SmallintPrimitives

namespace LivingObjects.Smalltalk

open LivingObjects.Compiler (readString readString_suffix)
open LivingObjects.Interp (fitsSmallint fitsSmallint_iff)
open LivingObjects.Lib.AArch64 (FitsSigned)

/-! ## §1. Tokens. -/

inductive TokenType where
  | eof
  | integer
  | character
  | string
  | symbol
  | identifier
  | keyword
  | binary
  | special
deriving DecidableEq, Repr

inductive TokenValue where
  | integer (value : Int)
  | symbol (text : List Char)
deriving DecidableEq, Repr

/-- A `Token`; `none` is a value of nil. -/
structure Token where
  type : TokenType
  text : List Char
  value : Option TokenValue
deriving DecidableEq, Repr

def Token.eof : Token := { type := .eof, text := [], value := none }

def Token.isEof (token : Token) : Bool := token.type == .eof

def Token.isSpecialText (token : Token) (text : String) : Bool :=
  token.type == .special && token.text == text.toList

/-- A special token of the given text. -/
def special (text : List Char) : Token := { type := .special, text := text, value := none }

/-- The `:=` that `checkKeywordOrAssignment:` and `readColonToken` make. -/
def assignment : Token := special [':', '=']

def isSeparator (c : Char) : Bool := c == ' ' || c == '\t' || c == '\n' || c == '\r'

def isIdentifierChar (c : Char) : Bool := c.isAlpha || c.isDigit || c == '_'

/-- `isBinarySelectorChar:` and `isBinarySelectorCharExtended:`. -/
def isBinarySelectorChar (c : Char) : Bool :=
  c == '+' || c == '-' || c == '*' || c == '/' || c == '<' || c == '>' || c == '=' || c == '~' ||
    c == '&' || c == '|' || c == '@' || c == '%' || c == ',' || c == '\\' || c == '?'

/-! ## §2. Reading one token. -/

mutual

/-- `skipWhitespaceAndComments`: the character it returns is the head of the rest. -/
def skipWhitespaceAndComments : List Char → List Char
  | [] => []
  | ch :: stream =>
    if isSeparator ch then skipWhitespaceAndComments stream
    else if ch == '"' then skipComment stream
    else ch :: stream

/-- `skipComment`, and the `skipWhitespaceAndComments` that follows it. -/
def skipComment : List Char → List Char
  | [] => []
  | ch :: stream => if ch == '"' then skipWhitespaceAndComments stream else skipComment stream

end

/-- `buffer at: index put: c` on a buffer of `room` bytes that is filled up to `index - 1`. -/
def put (room : Nat) (buffer : List Char) (c : Char) : Option (List Char) :=
  if buffer.length < room then some (buffer ++ [c]) else none

/-- A `SmallInteger`, the result of an arithmetic message. -/
def smallInteger (value : Int) : Option Int := if fitsSmallint value then some value else none

def integer (text : List Char) (value : Int) : Token :=
  { type := .integer, text := text, value := some (.integer value) }

/-- `readIntegerDigitsInto:at:value:`. -/
def readIntegerDigitsInto (buffer : List Char) (value : Int) :
    List Char → Option (Token × List Char)
  | [] => some (integer buffer value, [])
  | peek :: stream =>
    if peek.isDigit then do
      let buffer ← put 32 buffer peek
      let product ← smallInteger (value * 10)
      let newValue ← smallInteger (product + (peek.toNat - 48 : Int))
      readIntegerDigitsInto buffer newValue stream
    else some (integer buffer value, peek :: stream)

def readIntegerStartingWith (firstChar : Char) (stream : List Char) :
    Option (Token × List Char) := do
  let buffer ← put 32 [] firstChar
  readIntegerDigitsInto buffer (firstChar.toNat - 48 : Int) stream

def readCharacterLiteral : List Char → Option (Token × List Char)
  | [] => some ({ type := .character, text := ['$'], value := none }, [])
  | ch :: stream =>
    some ({ type := .character, text := ['$', ch], value := some (.integer ch.toNat) }, stream)

def string (text : List Char) : Token := { type := .string, text := text, value := none }

/-- `collectStringChars:at:`. -/
def collectStringChars (buffer : List Char) : List Char → Option (Token × List Char)
  | [] => some (string buffer, [])
  | '\'' :: '\'' :: stream => do collectStringChars (← put 128 buffer '\'') stream
  | '\'' :: stream => some (string buffer, stream)
  | ch :: stream => do collectStringChars (← put 128 buffer ch) stream

def readStringLiteral (stream : List Char) : Option (Token × List Char) :=
  collectStringChars [] stream

/-- `collectIdentifierFrom:at:`: the text, and the stream after it. -/
def collectIdentifierFrom (buffer : List Char) : List Char → Option (List Char × List Char)
  | [] => some (buffer, [])
  | peek :: stream =>
    if isIdentifierChar peek then do collectIdentifierFrom (← put 64 buffer peek) stream
    else some (buffer, peek :: stream)

def collectIdentifierCharsStartingWith (firstChar : Char) (stream : List Char) :
    Option (List Char × List Char) := do
  let buffer ← put 64 [] firstChar
  collectIdentifierFrom buffer stream

/-- `collectIdentifierChars:at:withColons: true` and `collectKeywordContinuation:at:`. -/
def collectIdentifierChars (buffer : List Char) : List Char → Option (List Char × List Char)
  | [] => some (buffer, [])
  | peek :: stream =>
    if isIdentifierChar peek then do collectIdentifierChars (← put 64 buffer peek) stream
    else if peek == ':' then do
      let buffer ← put 64 buffer ':'
      if (stream.head?.map Char.isAlpha).getD false then collectIdentifierChars buffer stream
      else some (buffer, stream)
    else some (buffer, peek :: stream)

/-- A symbol token: its value is `text asSymbol`. -/
def symbol (text : List Char) : Token :=
  { type := .symbol, text := text, value := some (.symbol text) }

def readSymbolString (stream : List Char) : Option (Token × List Char) := do
  let (strToken, stream) ← readStringLiteral stream
  some (symbol strToken.text, stream)

def readSymbolIdentifier (stream : List Char) : Option (Token × List Char) := do
  let (text, stream) ← collectIdentifierChars [] stream
  some (symbol text, stream)

/-- The text of a binary selector that begins with `ch`, of one character or two, and the
stream after it. -/
def binaryText (ch : Char) : List Char → List Char × List Char
  | [] => ([ch], [])
  | peek :: stream => if isBinarySelectorChar peek then ([ch, peek], stream)
    else ([ch], peek :: stream)

def readBinarySymbol (ch : Char) (stream : List Char) : Token × List Char :=
  (symbol (binaryText ch stream).1, (binaryText ch stream).2)

def readSymbolOrLiteralArray : List Char → Option (Token × List Char)
  | [] => some (special ['#'], [])
  | peek :: stream =>
    if peek == '(' then some (special ['#', '('], stream)
    else if peek == '\'' then readSymbolString stream
    else if peek.isAlpha || peek == '_' then readSymbolIdentifier (peek :: stream)
    else if isBinarySelectorChar peek then some (readBinarySymbol peek stream)
    else some (special ['#'], peek :: stream)

def readColonToken : List Char → Token × List Char
  | '=' :: stream => (assignment, stream)
  | stream => (special [':'], stream)

def readBinarySelectorStartingWith (firstChar : Char) (stream : List Char) : Token × List Char :=
  ({ type := .binary, text := (binaryText firstChar stream).1, value := none },
    (binaryText firstChar stream).2)

def identifier (text : List Char) : Token := { type := .identifier, text := text, value := none }

def keywordTokenFor (text : List Char) : Token :=
  { type := .keyword, text := text ++ [':'], value := none }

/-! ## §3. The tokenizer. -/

structure Tokenizer where
  source : List Char
  stream : List Char
  buffered : Option Token
deriving DecidableEq, Repr

namespace Tokenizer

/-- `on:`. -/
def on (source : List Char) : Tokenizer :=
  { source := source, stream := source, buffered := none }

/-- A token that leaves the buffer alone. -/
def reading (self : Tokenizer) (read : Option (Token × List Char)) : Option (Token × Tokenizer) :=
  read.map fun (token, stream) => (token, { self with stream := stream })

/-- `checkKeywordOrAssignment:`, after the colon was read. -/
def checkKeywordOrAssignment (self : Tokenizer) (text : List Char) : Token × Tokenizer :=
  match self.stream with
  | '=' :: stream => (identifier text, { self with stream := stream, buffered := some assignment })
  | _ => (keywordTokenFor text, self)

def readIdentifierOrKeywordStartingWith (self : Tokenizer) (firstChar : Char) :
    Option (Token × Tokenizer) := do
  let (text, stream) ← collectIdentifierCharsStartingWith firstChar self.stream
  match stream with
  | ':' :: stream => some ({ self with stream := stream }.checkKeywordOrAssignment text)
  | _ => some (identifier text, { self with stream := stream })

def classifyIdentifierOrSpecial (self : Tokenizer) (ch : Char) : Option (Token × Tokenizer) :=
  if ch.isAlpha || ch == '_' then self.readIdentifierOrKeywordStartingWith ch
  else if ch == ':' then self.reading (some (readColonToken self.stream))
  else if isBinarySelectorChar ch then
    self.reading (some (readBinarySelectorStartingWith ch self.stream))
  else some (special [ch], self)

def nextTokenFromStream (self : Tokenizer) : Option (Token × Tokenizer) :=
  match skipWhitespaceAndComments self.stream with
  | [] => some (Token.eof, { self with stream := [] })
  | ch :: stream =>
    if ch.isDigit then self.reading (readIntegerStartingWith ch stream)
    else if ch == '$' then self.reading (readCharacterLiteral stream)
    else if ch == '\'' then self.reading (readStringLiteral stream)
    else if ch == '#' then self.reading (readSymbolOrLiteralArray stream)
    else { self with stream := stream }.classifyIdentifierOrSpecial ch

def next (self : Tokenizer) : Option (Token × Tokenizer) :=
  match self.buffered with
  | none => self.nextTokenFromStream
  | some token => some (token, { self with buffered := none })

def peek (self : Tokenizer) : Option (Token × Tokenizer) :=
  match self.buffered with
  | some token => some (token, self)
  | none => do
    let (token, self) ← self.nextTokenFromStream
    some (token, { self with buffered := some token })

/-- `unread:`. -/
def unread (self : Tokenizer) (token : Token) : Tokenizer := { self with buffered := some token }

end Tokenizer

/-! ## §4. What a reader takes, in terms of the text. -/

theorem put_of_lt {room : Nat} {buffer : List Char} {c : Char} (h : buffer.length < room) :
    put room buffer c = some (buffer ++ [c]) := if_pos h

theorem put_of_le {room : Nat} {buffer : List Char} {c : Char} (h : room ≤ buffer.length) :
    put room buffer c = none := if_neg (by omega)

/-- One more character of a text that a buffer collects: the rule of every reader below. -/
theorem put_bind {room : Nat} {β : Type} {t : List Char} {f : List Char → β}
    {next : List Char → Option β}
    (hnext : ∀ buffer, buffer.length ≤ room → next buffer =
      if (buffer ++ t).length ≤ room then some (f (buffer ++ t)) else none)
    (c : Char) {buffer : List Char} (h : buffer.length ≤ room) :
    (put room buffer c).bind next =
      if (buffer ++ c :: t).length ≤ room then some (f (buffer ++ c :: t)) else none := by
  by_cases hroom : buffer.length < room
  · have hlength : (buffer ++ [c]).length ≤ room := by
      rw [List.length_append, List.length_singleton]
      omega
    rw [put_of_lt hroom]
    show next (buffer ++ [c]) = _
    rw [hnext _ hlength, List.append_assoc, List.singleton_append]
  · have hlong : ¬ (buffer ++ c :: t).length ≤ room := by
      rw [List.length_append, List.length_cons]
      omega
    rw [put_of_le (by omega), if_neg hlong]
    rfl

theorem collectIdentifierFrom_eq (stream buffer : List Char) (h : buffer.length ≤ 64) :
    collectIdentifierFrom buffer stream =
      if (buffer ++ stream.takeWhile isIdentifierChar).length ≤ 64 then
        some (buffer ++ stream.takeWhile isIdentifierChar, stream.dropWhile isIdentifierChar)
      else none := by
  induction stream generalizing buffer with
  | nil =>
    rw [collectIdentifierFrom, List.takeWhile_nil, List.append_nil, if_pos h, List.dropWhile_nil]
  | cons peek stream ih =>
    rw [collectIdentifierFrom]
    by_cases hpeek : isIdentifierChar peek = true
    · rw [if_pos hpeek, List.takeWhile_cons_of_pos hpeek, List.dropWhile_cons_of_pos hpeek]
      exact put_bind (f := fun text => (text, _)) ih peek h
    · rw [if_neg hpeek, List.takeWhile_cons_of_neg hpeek, List.dropWhile_cons_of_neg hpeek,
        List.append_nil, if_pos h]

/-- A name is what its characters make up, if a buffer of 64 holds it. -/
theorem collectIdentifierCharsStartingWith_eq (firstChar : Char) (stream : List Char) :
    collectIdentifierCharsStartingWith firstChar stream =
      if (firstChar :: stream.takeWhile isIdentifierChar).length ≤ 64 then
        some (firstChar :: stream.takeWhile isIdentifierChar, stream.dropWhile isIdentifierChar)
      else none := by
  have hfirst : [firstChar].length ≤ 64 := by
    rw [List.length_singleton]
    omega
  exact collectIdentifierFrom_eq stream [firstChar] hfirst

/-- The text of a symbol that begins with a letter, and the text after it: a colon belongs
to it, and what comes after one if that begins with a letter. -/
def symbolText : List Char → List Char × List Char
  | [] => ([], [])
  | c :: cs =>
    if isIdentifierChar c then (c :: (symbolText cs).1, (symbolText cs).2)
    else if c == ':' then
      if (cs.head?.map Char.isAlpha).getD false then (':' :: (symbolText cs).1, (symbolText cs).2)
      else ([':'], cs)
    else ([], c :: cs)

theorem collectIdentifierChars_eq (stream buffer : List Char) (h : buffer.length ≤ 64) :
    collectIdentifierChars buffer stream =
      if (buffer ++ (symbolText stream).1).length ≤ 64 then
        some (buffer ++ (symbolText stream).1, (symbolText stream).2)
      else none := by
  induction stream generalizing buffer with
  | nil => rw [collectIdentifierChars, symbolText, List.append_nil, if_pos h]
  | cons peek stream ih =>
    rw [collectIdentifierChars, symbolText]
    by_cases hpeek : isIdentifierChar peek = true
    · rw [if_pos hpeek, if_pos hpeek]
      exact put_bind (f := fun text => (text, _)) ih peek h
    rw [if_neg hpeek, if_neg hpeek]
    by_cases hcolon : (peek == ':') = true
    · rw [if_pos hcolon, if_pos hcolon]
      by_cases hletter : (stream.head?.map Char.isAlpha).getD false = true
      · simp only [if_pos hletter]
        exact put_bind (f := fun text => (text, _)) ih ':' h
      · simp only [if_neg hletter]
        refine put_bind (t := []) (f := fun text => (text, stream)) ?_ ':' h
        intro buffer h
        rw [List.append_nil, if_pos h]
    · rw [if_neg hcolon, if_neg hcolon, List.append_nil, if_pos h]

theorem collectStringChars_eq (stream buffer : List Char) (h : buffer.length ≤ 128) :
    collectStringChars buffer stream =
      if (buffer ++ (readString stream).1).length ≤ 128 then
        some (string (buffer ++ (readString stream).1), (readString stream).2)
      else none := by
  fun_induction readString stream generalizing buffer with
  | case1 => rw [collectStringChars, List.append_nil, if_pos h]
  | case2 cs text rest hread ih =>
    rw [hread] at ih
    rw [collectStringChars]
    exact put_bind (f := fun text => (string text, rest)) ih '\'' h
  | case3 cs hquote =>
    rw [collectStringChars, List.append_nil, if_pos h]
    exact hquote
  | case4 c cs hpair hquote text rest hread ih =>
    rw [hread] at ih
    rw [collectStringChars]
    · exact put_bind (f := fun text => (string text, rest)) ih c h
    · exact hpair
    · exact hquote

theorem readStringLiteral_eq (stream : List Char) :
    readStringLiteral stream =
      if (readString stream).1.length ≤ 128 then
        some (string (readString stream).1, (readString stream).2)
      else none :=
  collectStringChars_eq stream [] (Nat.zero_le _)

theorem readSymbolIdentifier_eq (stream : List Char) :
    readSymbolIdentifier stream =
      if (symbolText stream).1.length ≤ 64 then
        some (symbol (symbolText stream).1, (symbolText stream).2)
      else none := by
  have hcollect := collectIdentifierChars_eq stream [] (Nat.zero_le _)
  rw [List.nil_append] at hcollect
  rw [readSymbolIdentifier, hcollect]
  split <;> rfl

/-- The value of digits that follow others of a given value. -/
def digitsValue (value : Int) (digits : List Char) : Int :=
  digits.foldl (fun value digit => value * 10 + (digit.toNat - 48 : Int)) value

theorem digitsValue_cons (value : Int) (c : Char) (digits : List Char) :
    digitsValue value (c :: digits) = digitsValue (value * 10 + (c.toNat - 48 : Int)) digits := rfl

theorem digit_bounds {c : Char} (h : c.isDigit = true) :
    0 ≤ (c.toNat - 48 : Int) ∧ (c.toNat - 48 : Int) ≤ 9 := by
  simp only [Char.isDigit, Bool.and_eq_true, decide_eq_true_eq, ge_iff_le,
    UInt32.le_iff_toNat_le] at h
  have htoNat : c.toNat = c.val.toNat := rfl
  have hzero : '0'.val.toNat = 48 := rfl
  have hnine : '9'.val.toNat = 57 := rfl
  omega

theorem isAlpha_of_isDigit {ch : Char} (h : ch.isDigit = true) :
    (ch.isAlpha || ch == '_') = false := by
  have hdigit := digit_bounds h
  have htoNat : ch.toNat = ch.val.toNat := rfl
  simp only [Char.isAlpha, Char.isUpper, Char.isLower, Bool.or_eq_false_iff, Bool.and_eq_false_iff,
    decide_eq_false_iff_not, ge_iff_le, UInt32.le_iff_toNat_le, beq_eq_false_iff_ne]
  have hA : 'A'.val.toNat = 65 := rfl
  have ha : 'a'.val.toNat = 97 := rfl
  refine ⟨⟨by omega, by omega⟩, ?_⟩
  intro heq
  rw [heq] at h
  exact absurd h (by decide)

/-- More digits do not make a number smaller. -/
theorem le_digitsValue {digits : List Char} (hdigits : ∀ c ∈ digits, c.isDigit = true) {value : Int}
    (h : 0 ≤ value) : value ≤ digitsValue value digits := by
  induction digits generalizing value with
  | nil => exact le_refl value
  | cons c cs ih =>
    have hdigit := digit_bounds (hdigits c (List.mem_cons_self ..))
    have hnew : 0 ≤ value * 10 + (c.toNat - 48 : Int) := by omega
    have hmore := ih (fun d hd => hdigits d (List.mem_cons_of_mem _ hd)) hnew
    rw [digitsValue_cons]
    omega

theorem smallInteger_eq {value : Int} (h : 0 ≤ value) :
    smallInteger value = if value < 2 ^ 61 then some value else none := by
  have hfits := fitsSmallint_iff value
  unfold FitsSigned at hfits
  unfold smallInteger
  by_cases hsmall : value < 2 ^ 61
  · rw [if_pos hsmall, if_pos (hfits.mpr (by omega))]
  · rw [if_neg hsmall, if_neg (fun h => hsmall (by have := hfits.mp h; omega))]

theorem readIntegerDigitsInto_eq (stream buffer : List Char) (value : Int)
    (h : buffer.length ≤ 32) (hvalue : 0 ≤ value) (hsmall : value < 2 ^ 61) :
    readIntegerDigitsInto buffer value stream =
      if (buffer ++ stream.takeWhile Char.isDigit).length ≤ 32 ∧
          digitsValue value (stream.takeWhile Char.isDigit) < 2 ^ 61 then
        some (integer (buffer ++ stream.takeWhile Char.isDigit)
          (digitsValue value (stream.takeWhile Char.isDigit)), stream.dropWhile Char.isDigit)
      else none := by
  induction stream generalizing buffer value with
  | nil =>
    rw [readIntegerDigitsInto, List.takeWhile_nil, List.append_nil, List.dropWhile_nil]
    exact (if_pos ⟨h, hsmall⟩).symm
  | cons peek stream ih =>
    rw [readIntegerDigitsInto]
    by_cases hpeek : peek.isDigit = true
    · have hdigit := digit_bounds hpeek
      have hdigits : ∀ c ∈ stream.takeWhile Char.isDigit, c.isDigit = true :=
        fun c hc => List.mem_takeWhile_imp hc
      rw [if_pos hpeek, List.takeWhile_cons_of_pos hpeek, List.dropWhile_cons_of_pos hpeek]
      obtain ⟨newValue, hnew⟩ : ∃ newValue, value * 10 + (peek.toNat - 48 : Int) = newValue :=
        ⟨_, rfl⟩
      have hdigitsValue : digitsValue value (peek :: stream.takeWhile Char.isDigit) =
          digitsValue newValue (stream.takeWhile Char.isDigit) := by
        rw [digitsValue_cons, hnew]
      rw [hdigitsValue]
      have hmore : newValue ≤ digitsValue newValue (stream.takeWhile Char.isDigit) :=
        le_digitsValue hdigits (by omega)
      by_cases hroom : buffer.length < 32
      · rw [put_of_lt hroom, smallInteger_eq (by omega)]
        by_cases hfits : newValue < 2 ^ 61
        · rw [if_pos (by omega : value * 10 < 2 ^ 61)]
          show (smallInteger (value * 10 + (peek.toNat - 48 : Int))).bind _ = _
          rw [hnew, smallInteger_eq (by omega), if_pos hfits]
          have hlength : (buffer ++ [peek]).length ≤ 32 := by
            rw [List.length_append, List.length_singleton]
            omega
          show readIntegerDigitsInto (buffer ++ [peek]) newValue stream = _
          rw [ih (buffer ++ [peek]) newValue hlength (by omega) hfits, List.append_assoc,
            List.singleton_append]
        · have hlarge : ¬ ((buffer ++ peek :: stream.takeWhile Char.isDigit).length ≤ 32 ∧
              digitsValue newValue (stream.takeWhile Char.isDigit) < 2 ^ 61) := by
            intro hboth
            omega
          rw [if_neg hlarge]
          by_cases hproduct : value * 10 < 2 ^ 61
          · rw [if_pos hproduct]
            show (smallInteger (value * 10 + (peek.toNat - 48 : Int))).bind _ = _
            rw [hnew, smallInteger_eq (by omega), if_neg hfits]
            rfl
          · rw [if_neg hproduct]
            rfl
      · have hlong : ¬ (buffer ++ peek :: stream.takeWhile Char.isDigit).length ≤ 32 := by
          rw [List.length_append, List.length_cons]
          omega
        rw [put_of_le (by omega), if_neg (fun hboth => hlong hboth.1)]
        rfl
    · rw [if_neg hpeek, List.takeWhile_cons_of_neg hpeek, List.dropWhile_cons_of_neg hpeek,
        List.append_nil]
      exact (if_pos ⟨h, hsmall⟩).symm

theorem readIntegerStartingWith_eq {firstChar : Char} (h : firstChar.isDigit = true)
    (stream : List Char) :
    readIntegerStartingWith firstChar stream =
      if ((firstChar :: stream).takeWhile Char.isDigit).length ≤ 32 ∧
          digitsValue 0 ((firstChar :: stream).takeWhile Char.isDigit) < 2 ^ 61 then
        some (integer ((firstChar :: stream).takeWhile Char.isDigit)
          (digitsValue 0 ((firstChar :: stream).takeWhile Char.isDigit)),
          (firstChar :: stream).dropWhile Char.isDigit)
      else none := by
  have hdigit := digit_bounds h
  have hfirst : [firstChar].length ≤ 32 := by
    rw [List.length_singleton]
    omega
  have hvalue : digitsValue 0 (firstChar :: stream.takeWhile Char.isDigit) =
      digitsValue (firstChar.toNat - 48 : Int) (stream.takeWhile Char.isDigit) := by
    rw [digitsValue_cons, Int.zero_mul, Int.zero_add]
  rw [List.takeWhile_cons_of_pos h, List.dropWhile_cons_of_pos h, hvalue]
  exact readIntegerDigitsInto_eq stream [firstChar] _ hfirst hdigit.1 (by omega)

/-! ## §5. The tokens of a text. -/

/-- The text after a symbol, from what follows the `#`. -/
def afterSymbol : List Char → Option (List Char)
  | [] => some []
  | peek :: stream =>
    if peek == '(' then some stream
    else if peek == '\'' then
      if (readString stream).1.length ≤ 128 then some (readString stream).2 else none
    else if peek.isAlpha || peek == '_' then
      if (symbolText (peek :: stream)).1.length ≤ 64 then some (symbolText (peek :: stream)).2
      else none
    else if isBinarySelectorChar peek then some (binaryText peek stream).2
    else some (peek :: stream)

/-- A text without what it begins with. -/
def dropColon : List Char → List Char
  | ':' :: text => text
  | text => text

/-- The text after the token that a text begins with: `none` where the text has ended, and
where the token has no room in the buffer that collects it or the value no `SmallInteger`. -/
def afterToken : List Char → Option (List Char)
  | [] => none
  | ch :: stream =>
    if ch.isDigit then
      if ((ch :: stream).takeWhile Char.isDigit).length ≤ 32 ∧
          digitsValue 0 ((ch :: stream).takeWhile Char.isDigit) < 2 ^ 61 then
        some ((ch :: stream).dropWhile Char.isDigit)
      else none
    else if ch == '$' then some stream.tail
    else if ch == '\'' then
      if (readString stream).1.length ≤ 128 then some (readString stream).2 else none
    else if ch == '#' then afterSymbol stream
    else if ch.isAlpha || ch == '_' then
      if (ch :: stream.takeWhile isIdentifierChar).length ≤ 64 then
        some (dropColon (stream.dropWhile isIdentifierChar))
      else none
    else if ch == ':' then some (if stream.head? = some '=' then stream.tail else stream)
    else if isBinarySelectorChar ch then some (binaryText ch stream).2
    else some stream

/-- A text that begins with a name and, at once after it, `:=`. -/
def NameAssigned (text : List Char) : Prop :=
  ∃ (ch : Char) (stream after : List Char), text = ch :: stream ∧ (ch.isAlpha || ch == '_') = true ∧
    (ch :: stream.takeWhile isIdentifierChar).length ≤ 64 ∧
    stream.dropWhile isIdentifierChar = ':' :: '=' :: after

namespace Tokenizer

/-- What scanning one token does to a tokenizer, from the text without leading blanks. -/
inductive Scanned (self : Tokenizer) : List Char → Option (Token × Tokenizer) → Prop
  | ended : Scanned self [] (some (Token.eof, { self with stream := [] }))
  | trapped {text : List Char} (h : text ≠ []) (hafter : afterToken text = none)
      (hname : ¬ NameAssigned text) : Scanned self text none
  | token {text rest : List Char} (token : Token) (h : text ≠ [])
      (hafter : afterToken text = some rest) (hname : ¬ NameAssigned text)
      (heof : token.isEof = false) :
      Scanned self text (some (token, { self with stream := rest }))
  | assigned {text rest : List Char} (name : List Char) (hname : NameAssigned text)
      (hrest : '=' :: rest <:+ text) :
      Scanned self text
        (some (identifier name, { self with stream := rest, buffered := some assignment }))

theorem not_nameAssigned {ch : Char} {stream : List Char}
    (h : (ch.isAlpha || ch == '_') = false) : ¬ NameAssigned (ch :: stream) := by
  rintro ⟨c, cs, after, htext, hname, -⟩
  rw [← (List.cons.inj htext).1, h] at hname
  exact Bool.noConfusion hname

theorem Scanned.read {self : Tokenizer} {ch : Char} {stream rest : List Char} (token : Token)
    (h : (ch.isAlpha || ch == '_') = false) (hafter : afterToken (ch :: stream) = some rest)
    (heof : token.isEof = false) :
    Scanned self (ch :: stream) (self.reading (some (token, rest))) :=
  .token token (List.cons_ne_nil _ _) hafter (not_nameAssigned h) heof

theorem Scanned.collect {self : Tokenizer} {ch : Char} {stream rest : List Char} {P : Prop}
    [Decidable P] (token : Token) (h : (ch.isAlpha || ch == '_') = false)
    (hafter : afterToken (ch :: stream) = if P then some rest else none)
    (heof : token.isEof = false) :
    Scanned self (ch :: stream) (self.reading (if P then some (token, rest) else none)) := by
  by_cases hroom : P
  · rw [if_pos hroom] at hafter ⊢
    exact .read token h hafter heof
  · rw [if_neg hroom] at hafter ⊢
    exact .trapped (List.cons_ne_nil _ _) hafter (not_nameAssigned h)

theorem readSymbolOrLiteralArray_scanned (self : Tokenizer) (stream : List Char) :
    Scanned self ('#' :: stream) (self.reading (readSymbolOrLiteralArray stream)) := by
  have hafter : afterToken ('#' :: stream) = afterSymbol stream := rfl
  cases stream with
  | nil => exact .read _ rfl hafter rfl
  | cons peek stream =>
    rw [readSymbolOrLiteralArray]
    rw [afterSymbol] at hafter
    by_cases hparen : (peek == '(') = true
    · rw [if_pos hparen] at hafter ⊢
      exact .read _ rfl hafter rfl
    rw [if_neg hparen] at hafter ⊢
    by_cases hquote : (peek == '\'') = true
    · rw [if_pos hquote] at hafter ⊢
      have hread : readSymbolString stream = if (readString stream).1.length ≤ 128 then
          some (symbol (readString stream).1, (readString stream).2) else none := by
        rw [readSymbolString, readStringLiteral_eq]
        split <;> rfl
      rw [hread]
      exact .collect _ rfl hafter rfl
    rw [if_neg hquote] at hafter ⊢
    by_cases hletter : (peek.isAlpha || peek == '_') = true
    · rw [if_pos hletter] at hafter ⊢
      rw [readSymbolIdentifier_eq]
      exact .collect _ rfl hafter rfl
    rw [if_neg hletter] at hafter ⊢
    by_cases hbinary : isBinarySelectorChar peek = true
    · rw [if_pos hbinary] at hafter ⊢
      exact .read _ rfl hafter rfl
    · rw [if_neg hbinary] at hafter ⊢
      exact .read _ rfl hafter rfl

theorem readIdentifierOrKeyword_scanned (self : Tokenizer) {ch : Char} (stream : List Char)
    (h : (ch.isAlpha || ch == '_') = true)
    (hafter : afterToken (ch :: stream) =
      if (ch :: stream.takeWhile isIdentifierChar).length ≤ 64 then
        some (dropColon (stream.dropWhile isIdentifierChar))
      else none) :
    Scanned self (ch :: stream)
      ({ self with stream := stream }.readIdentifierOrKeywordStartingWith ch) := by
  have hcollect := collectIdentifierCharsStartingWith_eq ch stream
  rw [readIdentifierOrKeywordStartingWith]
  show Scanned self _ ((collectIdentifierCharsStartingWith ch stream).bind _)
  by_cases hroom : (ch :: stream.takeWhile isIdentifierChar).length ≤ 64
  · rw [if_pos hroom] at hcollect hafter
    rw [hcollect]
    have hunassigned : ∀ rest, stream.dropWhile isIdentifierChar = rest →
        (∀ after, rest ≠ ':' :: '=' :: after) → ¬ NameAssigned (ch :: stream) := by
      rintro rest hrest hne ⟨c, cs, after, htext, -, -, hassign⟩
      rw [← (List.cons.inj htext).2, hrest] at hassign
      exact hne after hassign
    cases hrest : stream.dropWhile isIdentifierChar with
    | nil =>
      rw [hrest] at hafter
      exact .token (identifier _) (List.cons_ne_nil _ _) hafter (hunassigned _ hrest nofun) rfl
    | cons c rest =>
      rw [hrest] at hafter
      by_cases hcolon : c = ':'
      · subst hcolon
        by_cases hequal : ∃ after, rest = '=' :: after
        · obtain ⟨after, rfl⟩ := hequal
          have hname : NameAssigned (ch :: stream) := ⟨ch, stream, after, rfl, h, hroom, hrest⟩
          have hsuffix : '=' :: after <:+ ch :: stream :=
            (List.suffix_cons ':' _).trans
              (hrest ▸ (List.dropWhile_suffix _).trans (List.suffix_cons ch stream))
          exact .assigned (ch :: stream.takeWhile isIdentifierChar) hname hsuffix
        · have hkeyword : { self with stream := rest }.checkKeywordOrAssignment
              (ch :: stream.takeWhile isIdentifierChar) =
              (keywordTokenFor (ch :: stream.takeWhile isIdentifierChar),
                { self with stream := rest }) := by
            rw [checkKeywordOrAssignment]
            split
            · rename_i after heq
              exact absurd ⟨after, heq⟩ hequal
            · rfl
          show Scanned self _ (some ({ self with stream := rest }.checkKeywordOrAssignment _))
          rw [hkeyword]
          refine .token _ (List.cons_ne_nil _ _) hafter (hunassigned _ hrest ?_) rfl
          intro after heq
          exact hequal ⟨after, (List.cons.inj heq).2⟩
      · have hdrop : dropColon (c :: rest) = c :: rest := by
          rw [dropColon]
          intro text heq
          exact hcolon (List.cons.inj heq).1
        rw [hdrop] at hafter
        have hne : ∀ after, c :: rest ≠ ':' :: '=' :: after := fun after heq =>
          hcolon (List.cons.inj heq).1
        have hread : (some (ch :: stream.takeWhile isIdentifierChar, c :: rest)).bind
            (fun p : List Char × List Char => match p.2 with
              | ':' :: stream => some ({ self with stream := stream }.checkKeywordOrAssignment p.1)
              | _ => some (identifier p.1, { self with stream := p.2 })) =
            some (identifier (ch :: stream.takeWhile isIdentifierChar),
              { self with stream := c :: rest }) := by
          show (match c :: rest with | ':' :: stream => _ | _ => _) = _
          split
          · rename_i heq
            exact absurd (List.cons.inj heq).1 hcolon
          · rfl
        exact hread ▸
          .token (identifier _) (List.cons_ne_nil _ _) hafter (hunassigned _ hrest hne) rfl
  · rw [if_neg hroom] at hcollect hafter
    rw [hcollect]
    refine .trapped (List.cons_ne_nil _ _) hafter ?_
    rintro ⟨c, cs, after, htext, -, hlength, -⟩
    obtain ⟨rfl, rfl⟩ := List.cons.inj htext
    exact hroom hlength

/-- **What one token is read from**: the rest of the text, a trap, or a name with the `:=`
after it, which goes into the buffer whatever the buffer holds. -/
theorem nextTokenFromStream_scanned (self : Tokenizer) :
    Scanned self (skipWhitespaceAndComments self.stream) self.nextTokenFromStream := by
  rw [nextTokenFromStream]
  cases skipWhitespaceAndComments self.stream with
  | nil => exact .ended
  | cons ch stream =>
    -- `afterToken` makes the tests of `nextTokenFromStream` in the same order
    have hafter : afterToken (ch :: stream) = afterToken (ch :: stream) := rfl
    conv at hafter => rhs; rw [afterToken]
    dsimp only
    by_cases hdigit : ch.isDigit = true
    · rw [if_pos hdigit] at hafter ⊢
      rw [readIntegerStartingWith_eq hdigit]
      exact .collect _ (isAlpha_of_isDigit hdigit) hafter rfl
    rw [if_neg hdigit] at hafter ⊢
    by_cases hdollar : (ch == '$') = true
    · rw [if_pos hdollar] at hafter ⊢
      have hch : ch = '$' := beq_iff_eq.mp hdollar
      subst hch
      cases stream with
      | nil => exact .read _ rfl hafter rfl
      | cons value rest => exact .read _ rfl hafter rfl
    rw [if_neg hdollar] at hafter ⊢
    by_cases hquote : (ch == '\'') = true
    · rw [if_pos hquote] at hafter ⊢
      have hch : ch = '\'' := beq_iff_eq.mp hquote
      subst hch
      rw [readStringLiteral_eq]
      exact .collect _ rfl hafter rfl
    rw [if_neg hquote] at hafter ⊢
    by_cases hhash : (ch == '#') = true
    · rw [if_pos hhash] at hafter ⊢
      have hch : ch = '#' := beq_iff_eq.mp hhash
      subst hch
      exact readSymbolOrLiteralArray_scanned self stream
    rw [if_neg hhash] at hafter ⊢
    rw [classifyIdentifierOrSpecial]
    by_cases hname : (ch.isAlpha || ch == '_') = true
    · rw [if_pos hname] at hafter ⊢
      exact readIdentifierOrKeyword_scanned self stream hname hafter
    rw [if_neg hname] at hafter ⊢
    have hname : (ch.isAlpha || ch == '_') = false := Bool.eq_false_iff.mpr hname
    by_cases hcolon : (ch == ':') = true
    · rw [if_pos hcolon] at hafter ⊢
      show Scanned self _ (self.reading (some (readColonToken stream)))
      rw [readColonToken.eq_def]
      split
      · exact .read _ hname hafter rfl
      · rename_i hequal
        have hhead : stream.head? ≠ some '=' := by
          intro hhead
          obtain ⟨after, hstream⟩ := List.head?_eq_some_iff.mp hhead
          exact hequal after hstream
        rw [if_neg hhead] at hafter
        exact .read _ hname hafter rfl
    rw [if_neg hcolon] at hafter ⊢
    by_cases hbinary : isBinarySelectorChar ch = true
    · rw [if_pos hbinary] at hafter ⊢
      exact .read _ hname hafter rfl
    · rw [if_neg hbinary] at hafter ⊢
      exact .read (special [ch]) hname hafter rfl

end Tokenizer

/-! ## §6. A token takes something of the text away. -/

mutual

theorem skipWhitespaceAndComments_suffix : ∀ stream : List Char,
    skipWhitespaceAndComments stream <:+ stream
  | [] => List.suffix_refl _
  | ch :: stream => by
    rw [skipWhitespaceAndComments]
    split_ifs
    · exact (skipWhitespaceAndComments_suffix stream).trans (List.suffix_cons ch stream)
    · exact (skipComment_suffix stream).trans (List.suffix_cons ch stream)
    · exact List.suffix_refl _

theorem skipComment_suffix : ∀ stream : List Char, skipComment stream <:+ stream
  | [] => List.suffix_refl _
  | ch :: stream => by
    rw [skipComment]
    split_ifs
    · exact (skipWhitespaceAndComments_suffix stream).trans (List.suffix_cons ch stream)
    · exact (skipComment_suffix stream).trans (List.suffix_cons ch stream)

end

theorem symbolText_suffix (stream : List Char) : (symbolText stream).2 <:+ stream := by
  induction stream with
  | nil => exact List.suffix_refl _
  | cons c cs ih =>
    rw [symbolText]
    split_ifs
    · exact ih.trans (List.suffix_cons c cs)
    · exact ih.trans (List.suffix_cons c cs)
    · exact List.suffix_cons c cs
    · exact List.suffix_refl _

theorem binaryText_suffix (ch : Char) (stream : List Char) :
    (binaryText ch stream).2 <:+ stream := by
  cases stream with
  | nil => exact List.suffix_refl _
  | cons peek stream =>
    rw [binaryText]
    split_ifs
    · exact List.suffix_cons peek stream
    · exact List.suffix_refl _

theorem dropColon_suffix (text : List Char) : dropColon text <:+ text := by
  rw [dropColon.eq_def]
  split
  · exact List.suffix_cons _ _
  · exact List.suffix_refl _

/-- A collected token leaves the text after it, or nothing at all. -/
theorem suffix_of_collected {P : Prop} [Decidable P] {text rest stream : List Char}
    (h : (if P then some text else none) = some rest) (hsuffix : text <:+ stream) :
    rest <:+ stream := by
  by_cases hroom : P
  · rw [if_pos hroom] at h
    rw [← Option.some.inj h]
    exact hsuffix
  · rw [if_neg hroom] at h
    exact nomatch h

theorem suffix_of_some {text rest stream : List Char} (h : some text = some rest)
    (hsuffix : text <:+ stream) : rest <:+ stream := Option.some.inj h ▸ hsuffix

theorem afterSymbol_suffix {stream rest : List Char} (h : afterSymbol stream = some rest) :
    rest <:+ stream := by
  cases stream with
  | nil => exact suffix_of_some h (List.suffix_refl _)
  | cons peek stream =>
    rw [afterSymbol] at h
    have hcons := List.suffix_cons peek stream
    split_ifs at h
    · exact suffix_of_some h hcons
    · exact suffix_of_some h ((readString_suffix stream).trans hcons)
    · exact suffix_of_some h (symbolText_suffix _)
    · exact suffix_of_some h ((binaryText_suffix peek stream).trans hcons)
    · exact suffix_of_some h (List.suffix_refl _)

theorem afterToken_suffix {ch : Char} {stream rest : List Char}
    (h : afterToken (ch :: stream) = some rest) : rest <:+ stream := by
  rw [afterToken] at h
  by_cases hdigit : ch.isDigit = true
  · rw [if_pos hdigit, List.dropWhile_cons_of_pos hdigit] at h
    exact suffix_of_collected h (List.dropWhile_suffix _)
  rw [if_neg hdigit] at h
  split_ifs at h
  · exact suffix_of_some h (List.tail_suffix stream)
  · exact suffix_of_some h (readString_suffix stream)
  · exact afterSymbol_suffix h
  · exact suffix_of_some h ((dropColon_suffix _).trans (List.dropWhile_suffix _))
  · exact suffix_of_some h (List.tail_suffix stream)
  · exact suffix_of_some h (List.suffix_refl stream)
  · exact suffix_of_some h (binaryText_suffix ch stream)
  · exact suffix_of_some h (List.suffix_refl stream)

namespace Tokenizer

/-- A token is the end, or takes something of the text away. -/
theorem nextTokenFromStream_progress {self after : Tokenizer} {token : Token}
    (h : self.nextTokenFromStream = some (token, after)) :
    after.source = self.source ∧
      (token.isEof = true ∨ after.stream.length < self.stream.length) := by
  have hscanned := self.nextTokenFromStream_scanned
  have hskip := (skipWhitespaceAndComments_suffix self.stream).length_le
  rw [h] at hscanned
  generalize skipWhitespaceAndComments self.stream = text at hscanned hskip
  cases hscanned with
  | ended => exact ⟨rfl, .inl rfl⟩
  | @token text rest token htext hafter hname heof =>
    obtain ⟨ch, stream, rfl⟩ := List.exists_cons_of_ne_nil htext
    have hrest := (afterToken_suffix hafter).length_le
    rw [List.length_cons] at hskip
    refine ⟨rfl, .inr ?_⟩
    show rest.length < self.stream.length
    omega
  | @assigned text rest name hname hrest =>
    have hlength := hrest.length_le
    rw [List.length_cons] at hlength
    refine ⟨rfl, .inr ?_⟩
    show rest.length < self.stream.length
    omega

/-! ## §7. `tokens`. -/

/-- `tokenCountFrom:`, on a tokenizer whose stream is the one counted. -/
def tokenCountFrom (self : Tokenizer) : Option (Nat × Tokenizer) :=
  match h : self.nextTokenFromStream with
  | none => none
  | some (token, after) =>
    if heof : token.isEof = true then some (0, after)
    else after.tokenCountFrom.map fun (count, after) => (1 + count, after)
termination_by self.stream.length
decreasing_by exact (nextTokenFromStream_progress h).2.resolve_left heof

/-- `fillTokens:at:`; an `Array` holds nil where nothing was put. -/
def fillTokens (self : Tokenizer) (aCollection : List (Option Token)) (index : Nat) :
    Option (List (Option Token) × Tokenizer) :=
  match h : self.nextTokenFromStream with
  | none => none
  | some (token, after) =>
    if heof : token.isEof = true then some (aCollection, after)
    else if index ≤ aCollection.length then
      after.fillTokens (aCollection.set (index - 1) (some token)) (index + 1)
    else none
termination_by self.stream.length
decreasing_by exact (nextTokenFromStream_progress h).2.resolve_left heof

/-- `tokens`: the buffer is neither read nor emptied. -/
def tokens (self : Tokenizer) : Option (List (Option Token) × Tokenizer) := do
  let (count, counted) ← { self with stream := self.source }.tokenCountFrom
  { counted with stream := self.source }.fillTokens (List.replicate count none) 1

end Tokenizer

end LivingObjects.Smalltalk
