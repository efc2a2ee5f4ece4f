/-
  LivingObjects.Smalltalk.Lexemes — source texts as lexemes with gaps between them.

  A source text of the language is a list of lexemes, each with the blanks and comments
  before it.  The gap may be empty where the lexeme before it ends by itself.

  `next_lexeme`: on such a text the Smalltalk tokenizer reads one lexeme, or traps where
  the lexeme has no room in its buffer.
-/
import LivingObjects.Smalltalk.Tokenizer

namespace LivingObjects.Smalltalk

open LivingObjects.Compiler (readString)

/-! ## §1. Lexemes. -/

inductive Lexeme where
  | identifier (name : List Char)
  | keyword (name : List Char)
  | integer (digits : List Char)
  | character (value : Char)
  | string (text : List Char)
  | symbol (text : List Char)
  | quotedSymbol (text : List Char)
  | binarySymbol (text : List Char)
  | binary (text : List Char)
  | assignment
  | colon
  | special (value : Char)
  | literalArray
deriving DecidableEq, Repr

/-- The text between the quotes of a string: a quote is written twice. -/
def quoted (text : List Char) : List Char :=
  text.flatMap fun c => if c == '\'' then ['\'', '\''] else [c]

def Lexeme.text : Lexeme → List Char
  | .identifier name => name
  | .keyword name => name ++ [':']
  | .integer digits => digits
  | .character value => ['$', value]
  | .string text => '\'' :: (quoted text ++ ['\''])
  | .symbol text => '#' :: text
  | .quotedSymbol text => '#' :: '\'' :: (quoted text ++ ['\''])
  | .binarySymbol text => '#' :: text
  | .binary text => text
  | .assignment => [':', '=']
  | .colon => [':']
  | .special value => [value]
  | .literalArray => ['#', '(']

/-- A name: a letter or an underscore, then these and digits. -/
structure IsName (name : List Char) : Prop where
  first : ∃ c cs, name = c :: cs ∧ (c.isAlpha || c == '_') = true
  rest : ∀ c ∈ name, isIdentifierChar c = true

/-- The text of a symbol without quotes: a name, or the keywords of a selector. -/
inductive IsSymbolText : List Char → Prop
  | name {name : List Char} (h : IsName name) : IsSymbolText name
  | keyword {name : List Char} (h : IsName name) : IsSymbolText (name ++ [':'])
  | part {name text : List Char} (h : IsName name) (hrest : IsSymbolText text) :
      IsSymbolText (name ++ ':' :: text)

/-- One binary character, or two. -/
def IsBinaryText (text : List Char) : Prop :=
  (∃ a, text = [a] ∧ isBinarySelectorChar a = true) ∨
    ∃ a b, text = [a, b] ∧ isBinarySelectorChar a = true ∧ isBinarySelectorChar b = true

/-- A character that no other token begins with: a bracket, a period and the like. -/
def isPunctuation (c : Char) : Bool :=
  !(isSeparator c || c == '"' || c.isDigit || c == '$' || c == '\'' || c == '#' || c.isAlpha ||
    c == '_' || c == ':' || isBinarySelectorChar c)

def Lexeme.Valid : Lexeme → Prop
  | .identifier name => IsName name
  | .keyword name => IsName name
  | .integer digits => digits ≠ [] ∧ ∀ c ∈ digits, c.isDigit = true
  | .symbol text => IsSymbolText text
  | .binarySymbol text => IsBinaryText text
  | .binary text => IsBinaryText text
  | .special value => isPunctuation value = true
  | _ => True

/-- Whether a text begins with a character of a kind. -/
def startsWith (p : Char → Bool) : List Char → Bool
  | [] => false
  | c :: _ => p c

/-- The texts that may follow a lexeme without a gap. -/
def Lexeme.Ends : Lexeme → List Char → Prop
  | .identifier _, rest => startsWith isIdentifierChar rest = false ∧
      (startsWith (· == ':') rest = true → ∃ after, rest = ':' :: '=' :: after)
  | .keyword _, rest => startsWith (· == '=') rest = false
  | .integer _, rest => startsWith Char.isDigit rest = false
  | .string _, rest => startsWith (· == '\'') rest = false
  | .symbol _, rest => startsWith (fun c => isIdentifierChar c || c == ':') rest = false
  | .quotedSymbol _, rest => startsWith (· == '\'') rest = false
  | .binarySymbol _, rest => startsWith isBinarySelectorChar rest = false
  | .binary text, rest => text.length = 1 → startsWith isBinarySelectorChar rest = false
  | .colon, rest => startsWith (· == '=') rest = false
  | _, _ => True

/-- Blanks and whole comments. -/
inductive IsGap : List Char → Prop
  | nil : IsGap []
  | separator {c : Char} {gap : List Char} (h : isSeparator c = true) (hgap : IsGap gap) :
      IsGap (c :: gap)
  | comment {text gap : List Char} (h : '"' ∉ text) (hgap : IsGap gap) :
      IsGap ('"' :: (text ++ '"' :: gap))

/-- A source text: each lexeme after its gap, and a gap at the end. -/
def sourceText : List (List Char × Lexeme) → List Char → List Char
  | [], last => last
  | (gap, lexeme) :: pieces, last => gap ++ (lexeme.text ++ sourceText pieces last)

/-- Every lexeme is one, and ends where the text says. -/
def Written : List (List Char × Lexeme) → List Char → Prop
  | [], last => IsGap last
  | (gap, lexeme) :: pieces, last =>
    IsGap gap ∧ lexeme.Valid ∧ lexeme.Ends (sourceText pieces last) ∧ Written pieces last

/-! ## §2. The tokens of the lexemes. -/

def Lexeme.token : Lexeme → Token
  | .identifier name => Smalltalk.identifier name
  | .keyword name => keywordTokenFor name
  | .integer digits => Smalltalk.integer digits (digitsValue 0 digits)
  | .character value =>
    { type := .character, text := ['$', value], value := some (.integer value.toNat) }
  | .string text => Smalltalk.string text
  | .symbol text => Smalltalk.symbol text
  | .quotedSymbol text => Smalltalk.symbol text
  | .binarySymbol text => Smalltalk.symbol text
  | .binary text => { type := .binary, text := text, value := none }
  | .assignment => Smalltalk.assignment
  | .colon => Smalltalk.special [':']
  | .special value => Smalltalk.special [value]
  | .literalArray => Smalltalk.special ['#', '(']

/-- The buffers of the tokenizer have room for the lexeme, and a number is a `SmallInteger`. -/
def Lexeme.Fits : Lexeme → Prop
  | .identifier name => name.length ≤ 64
  | .keyword name => name.length ≤ 64
  | .integer digits => digits.length ≤ 32 ∧ digitsValue 0 digits < 2 ^ 61
  | .string text => text.length ≤ 128
  | .symbol text => text.length ≤ 64
  | .quotedSymbol text => text.length ≤ 128
  | _ => True

instance (lexeme : Lexeme) : Decidable lexeme.Fits := by
  cases lexeme <;> unfold Lexeme.Fits <;> infer_instance

/-- A colon before an underscore. -/
def underscored : List Char → Bool
  | ':' :: '_' :: _ => true
  | _ :: text => underscored text
  | [] => false

/-- A lexeme that the Smalltalk tokenizer reads by itself: not a name with its `:=`, and not a
symbol with a keyword that begins with an underscore. -/
def Lexeme.Alone : Lexeme → List Char → Prop
  | .identifier _, rest => startsWith (· == ':') rest = false
  | .symbol text, _ => underscored text = false
  | _, _ => True

/-! ## §3. Gaps. -/

theorem skip_gap {gap : List Char} (h : IsGap gap) (text : List Char) :
    skipWhitespaceAndComments (gap ++ text) = skipWhitespaceAndComments text := by
  have hcomment : ∀ (comment rest : List Char), '"' ∉ comment →
      skipComment (comment ++ '"' :: rest) = skipWhitespaceAndComments rest := by
    intro comment rest hcomment
    induction comment with
    | nil => rfl
    | cons c cs ih =>
      have hc : ¬ (c == '"') = true := fun hc =>
        hcomment (beq_iff_eq.mp hc ▸ List.mem_cons_self ..)
      rw [List.cons_append, skipComment, if_neg hc]
      exact ih fun hmem => hcomment (List.mem_cons_of_mem _ hmem)
  induction h with
  | nil => rfl
  | separator hc _ ih =>
    rw [List.cons_append, skipWhitespaceAndComments, if_pos hc]
    exact ih
  | @comment comment gap hquote _ ih =>
    rw [List.cons_append, List.append_assoc, List.cons_append, skipWhitespaceAndComments,
      if_neg (by decide), if_pos (by decide), hcomment _ _ hquote]
    exact ih

/-- A character that begins a token. -/
def isStart (c : Char) : Bool := !(isSeparator c || c == '"')

theorem skip_start {c : Char} (h : isStart c = true) (text : List Char) :
    skipWhitespaceAndComments (c :: text) = c :: text := by
  rw [isStart, Bool.not_eq_true', Bool.or_eq_false_iff] at h
  rw [skipWhitespaceAndComments, if_neg (Bool.eq_false_iff.mp h.1),
    if_neg (Bool.eq_false_iff.mp h.2)]

/-! ## §4. The characters that a lexeme begins with. -/

/-- A character of a kind is none that is not of it. -/
theorem beq_of_kind {p : Char → Bool} {c d : Char} (h : p c = true) (hd : p d = false) :
    (c == d) = false := by
  rw [beq_eq_false_iff_ne]
  intro heq
  rw [heq, hd] at h
  exact absurd h (by decide)

theorem isStart_of_kind {p : Char → Bool} {c : Char} (h : p c = true)
    (hblank : ∀ d ∈ [' ', '\t', '\n', '\r', '"'], p d = false) : isStart c = true := by
  simp only [List.forall_mem_cons] at hblank
  rw [isStart, isSeparator, beq_of_kind h hblank.1, beq_of_kind h hblank.2.1,
    beq_of_kind h hblank.2.2.1, beq_of_kind h hblank.2.2.2.1, beq_of_kind h hblank.2.2.2.2.1]
  rfl

theorem takeWhile_append_stop {p : Char → Bool} {text rest : List Char}
    (h : ∀ c ∈ text, p c = true) (hrest : startsWith p rest = false) :
    (text ++ rest).takeWhile p = text ∧ (text ++ rest).dropWhile p = rest := by
  rw [List.takeWhile_append_of_pos h, List.dropWhile_append_of_pos h]
  cases rest with
  | nil => exact ⟨List.append_nil text, rfl⟩
  | cons c cs =>
    have hc : ¬ p c = true := Bool.eq_false_iff.mp hrest
    rw [List.takeWhile_cons_of_neg hc, List.dropWhile_cons_of_neg hc]
    exact ⟨List.append_nil text, rfl⟩

/-- A quoted text is read back up to its closing quote. -/
theorem readString_quoted (text : List Char) {rest : List Char}
    (h : startsWith (· == '\'') rest = false) :
    readString (quoted text ++ '\'' :: rest) = (text, rest) := by
  induction text with
  | nil =>
    show readString ('\'' :: rest) = ([], rest)
    rw [readString]
    intro cs heq
    rw [heq] at h
    exact nomatch (show true = false from h)
  | cons c cs ih =>
    by_cases hquote : c = '\''
    · have hread : readString (quoted (c :: cs) ++ '\'' :: rest) =
          readString ('\'' :: '\'' :: (quoted cs ++ '\'' :: rest)) := by
        rw [hquote]
        rfl
      rw [hread, readString, ih, hquote]
    · have hread : readString (quoted (c :: cs) ++ '\'' :: rest) =
          readString (c :: (quoted cs ++ '\'' :: rest)) := by
        have hne : ¬ (c == '\'') = true := fun heq => hquote (beq_iff_eq.mp heq)
        show readString
          (((if c == '\'' then ['\'', '\''] else [c]) ++ quoted cs) ++ '\'' :: rest) = _
        rw [if_neg hne]
        rfl
      rw [hread, readString, ih]
      · intro cs' heq
        exact absurd heq hquote
      · exact hquote

theorem identifierChar_not_colon {c : Char} (h : isIdentifierChar c = true) : (c == ':') = false :=
  beq_of_kind h (by decide)

theorem underscored_name {name : List Char} (h : ∀ c ∈ name, isIdentifierChar c = true)
    (text : List Char) : underscored (name ++ text) = underscored text := by
  induction name with
  | nil => rfl
  | cons c cs ih =>
    have hcolon := identifierChar_not_colon (h c (List.mem_cons_self ..))
    rw [List.cons_append, underscored, ih fun d hd => h d (List.mem_cons_of_mem _ hd)]
    intro rest heq
    rw [heq] at hcolon
    exact absurd hcolon (by decide)

theorem IsSymbolText.first {text : List Char} (h : IsSymbolText text) :
    ∃ c cs, text = c :: cs ∧ (c.isAlpha || c == '_') = true := by
  cases h with
  | name h => exact h.first
  | keyword h =>
    obtain ⟨c, cs, rfl, hc⟩ := h.first
    exact ⟨c, cs ++ [':'], rfl, hc⟩
  | part h =>
    obtain ⟨c, cs, rfl, hc⟩ := h.first
    exact ⟨c, _, rfl, hc⟩

theorem symbolText_name {name : List Char} (h : ∀ c ∈ name, isIdentifierChar c = true)
    (text : List Char) :
    symbolText (name ++ text) = (name ++ (symbolText text).1, (symbolText text).2) := by
  induction name with
  | nil => rfl
  | cons c cs ih =>
    rw [List.cons_append, symbolText, if_pos (h c (List.mem_cons_self ..)),
      ih fun d hd => h d (List.mem_cons_of_mem _ hd)]
    rfl

/-- The tokenizer takes a symbol whole if no keyword of it begins with an underscore. -/
theorem symbolText_lexeme {text rest : List Char} (h : IsSymbolText text)
    (hunderscored : underscored text = false)
    (hrest : startsWith (fun c => isIdentifierChar c || c == ':') rest = false) :
    symbolText (text ++ rest) = (text, rest) := by
  have hstop : symbolText rest = ([], rest) := by
    cases rest with
    | nil => rfl
    | cons c cs =>
      have hc : (isIdentifierChar c || c == ':') = false := hrest
      rw [Bool.or_eq_false_iff] at hc
      rw [symbolText, if_neg (Bool.eq_false_iff.mp hc.1), if_neg (Bool.eq_false_iff.mp hc.2)]
  have hcolon : ∀ text, symbolText (':' :: text) =
      if (text.head?.map Char.isAlpha).getD false then
        (':' :: (symbolText text).1, (symbolText text).2)
      else ([':'], text) := fun text => rfl
  induction h with
  | name h => rw [symbolText_name h.rest, hstop, List.append_nil]
  | keyword h =>
    have hletter : ¬ (rest.head?.map Char.isAlpha).getD false = true := by
      cases rest with
      | nil => exact Bool.noConfusion
      | cons c cs =>
        intro hc
        have hname : (isIdentifierChar c || c == ':') = false := hrest
        have halpha : c.isAlpha = true := hc
        rw [isIdentifierChar, halpha] at hname
        cases hname
    rw [List.append_assoc, symbolText_name h.rest, List.singleton_append, hcolon, if_neg hletter]
  | @part name text h htext ih =>
    rw [underscored_name h.rest] at hunderscored
    obtain ⟨c, cs, rfl, hc⟩ := htext.first
    have hscore : c ≠ '_' := by
      intro heq
      rw [heq] at hunderscored
      cases (show true = false from hunderscored)
    have halpha : c.isAlpha = true := by
      rw [beq_eq_false_iff_ne.mpr hscore, Bool.or_false] at hc
      exact hc
    have hlater : underscored (c :: cs) = false := by
      rw [underscored] at hunderscored
      · exact hunderscored
      · intro text _ heq
        exact hscore (List.cons.inj heq).1
    have hletter : ((c :: cs ++ rest).head?.map Char.isAlpha).getD false = true := halpha
    rw [List.append_assoc, symbolText_name h.rest, List.cons_append, hcolon, if_pos hletter,
      ih hlater]

/-- A binary character begins no token of another kind. -/
theorem binary_start {c : Char} (h : isBinarySelectorChar c = true) :
    isStart c = true ∧ c.isDigit = false ∧ (c == '$') = false ∧ (c == '\'') = false ∧
      (c == '#') = false ∧ (c.isAlpha || c == '_') = false ∧ (c == ':') = false ∧
      (c == '(') = false := by
  simp only [isBinarySelectorChar, Bool.or_eq_true, beq_iff_eq] at h
  obtain ((((((((((((((rfl | rfl) | rfl) | rfl) | rfl) | rfl) | rfl) | rfl) | rfl) | rfl) | rfl) |
    rfl) | rfl) | rfl) | rfl) := h
  all_goals decide

theorem IsBinaryText.first {text : List Char} (h : IsBinaryText text) :
    ∃ c cs, text = c :: cs ∧ isBinarySelectorChar c = true := by
  rcases h with ⟨a, rfl, ha⟩ | ⟨a, b, rfl, ha, -⟩
  · exact ⟨a, [], rfl, ha⟩
  · exact ⟨a, [b], rfl, ha⟩

theorem binaryText_lexeme {c : Char} {cs rest : List Char} (h : IsBinaryText (c :: cs))
    (hends : (Lexeme.binary (c :: cs)).Ends rest) :
    binaryText c (cs ++ rest) = (c :: cs, rest) := by
  rcases h with ⟨a, htext, -⟩ | ⟨a, b, htext, -, hb⟩
  · obtain ⟨rfl, rfl⟩ := List.cons.inj htext
    have hrest : startsWith isBinarySelectorChar rest = false := hends rfl
    cases rest with
    | nil => rfl
    | cons d ds => exact if_neg (Bool.eq_false_iff.mp hrest)
  · obtain ⟨rfl, rfl⟩ := List.cons.inj htext
    exact if_pos hb

theorem punctuation_start {c : Char} (h : isPunctuation c = true) :
    isStart c = true ∧ c.isDigit = false ∧ (c == '$') = false ∧ (c == '\'') = false ∧
      (c == '#') = false ∧ (c.isAlpha || c == '_') = false ∧ (c == ':') = false ∧
      isBinarySelectorChar c = false := by
  simp only [isPunctuation, Bool.not_eq_true', Bool.or_eq_false_iff] at h
  obtain ⟨⟨⟨⟨⟨⟨⟨⟨⟨hsep, hcomment⟩, hdigit⟩, hdollar⟩, hquote⟩, hhash⟩, halpha⟩, hscore⟩, hcolon⟩,
    hbinary⟩ := h
  rw [isStart, hsep, hcomment, halpha, hscore]
  exact ⟨rfl, hdigit, hdollar, hquote, hhash, rfl, hcolon, hbinary⟩

/-! ## §5. The Smalltalk tokenizer on a lexeme. -/

namespace Tokenizer

variable {self : Tokenizer} {rest : List Char}

/-- A lexeme that is collected in a buffer. -/
def ReadsIf (self : Tokenizer) (P : Prop) [Decidable P] (token : Token) (rest : List Char) : Prop :=
  self.nextTokenFromStream = if P then some (token, { self with stream := rest }) else none

theorem reading_if {P : Prop} [Decidable P] {token : Token} {read : Option (Token × List Char)}
    (h : read = if P then some (token, rest) else none) :
    self.reading read = if P then some (token, { self with stream := rest }) else none := by
  rw [h]
  split <;> rfl

/-- The tests of `nextTokenFromStream` on a text whose first character begins a token. -/
theorem nextTokenFromStream_start {ch : Char} {stream : List Char}
    (h : skipWhitespaceAndComments self.stream = ch :: stream) :
    self.nextTokenFromStream =
      if ch.isDigit then self.reading (readIntegerStartingWith ch stream)
      else if ch == '$' then self.reading (readCharacterLiteral stream)
      else if ch == '\'' then self.reading (readStringLiteral stream)
      else if ch == '#' then self.reading (readSymbolOrLiteralArray stream)
      else { self with stream := stream }.classifyIdentifierOrSpecial ch := by
  rw [nextTokenFromStream, h]

/-- The first tests of `nextTokenFromStream`, all but the digits. -/
theorem nextTokenFromStream_classify {ch : Char} {stream : List Char}
    (h : skipWhitespaceAndComments self.stream = ch :: stream) (hdigit : ch.isDigit = false)
    (hdollar : (ch == '$') = false) (hquote : (ch == '\'') = false) (hhash : (ch == '#') = false) :
    self.nextTokenFromStream = { self with stream := stream }.classifyIdentifierOrSpecial ch := by
  rw [nextTokenFromStream_start h, hdigit, hdollar, hquote, hhash]
  rfl

theorem nextTokenFromStream_name {c : Char} {cs : List Char}
    (hc : (c.isAlpha || c == '_') = true)
    (h : skipWhitespaceAndComments self.stream = c :: cs) :
    self.nextTokenFromStream =
      { self with stream := cs }.readIdentifierOrKeywordStartingWith c := by
  have hdigit : c.isDigit = false := by
    rw [Bool.eq_false_iff]
    intro hdigit
    rw [isAlpha_of_isDigit hdigit] at hc
    exact nomatch hc
  have hne : ∀ {d : Char}, (d.isAlpha || d == '_') = false → (c == d) = false := fun hd =>
    beq_of_kind (p := fun c => c.isAlpha || c == '_') hc hd
  rw [nextTokenFromStream_classify h hdigit (hne (by decide)) (hne (by decide)) (hne (by decide)),
    classifyIdentifierOrSpecial, if_pos hc]

/-- A name in front of a text that is no name. -/
theorem collectName {c : Char} {cs : List Char} (h : ∀ d ∈ c :: cs, isIdentifierChar d = true)
    (hrest : startsWith isIdentifierChar rest = false) :
    collectIdentifierCharsStartingWith c (cs ++ rest) =
      if (c :: cs).length ≤ 64 then some (c :: cs, rest) else none := by
  obtain ⟨htake, hdrop⟩ := takeWhile_append_stop
    (fun d hd => h d (List.mem_cons_of_mem _ hd)) hrest
  rw [collectIdentifierCharsStartingWith_eq, htake, hdrop]

theorem next_identifier {name : List Char} (hname : IsName name)
    (hends : (Lexeme.identifier name).Ends rest) (halone : (Lexeme.identifier name).Alone rest)
    (h : skipWhitespaceAndComments self.stream = name ++ rest) :
    ReadsIf self (name.length ≤ 64) (identifier name) rest := by
  obtain ⟨⟨c, cs, rfl, hc⟩, hchars⟩ := hname
  rw [ReadsIf, nextTokenFromStream_name hc h, readIdentifierOrKeywordStartingWith]
  show (collectIdentifierCharsStartingWith c (cs ++ rest)).bind _ = _
  rw [collectName hchars hends.1]
  by_cases hroom : (c :: cs).length ≤ 64
  · rw [if_pos hroom, if_pos hroom]
    simp only [Option.bind_some]
    split
    · cases (show true = false from halone)
    · rfl
  · rw [if_neg hroom, if_neg hroom]
    rfl

theorem next_keyword {name : List Char} (hname : IsName name)
    (hends : (Lexeme.keyword name).Ends rest)
    (h : skipWhitespaceAndComments self.stream = name ++ ':' :: rest) :
    ReadsIf self (name.length ≤ 64) (keywordTokenFor name) rest := by
  obtain ⟨⟨c, cs, rfl, hc⟩, hchars⟩ := hname
  have hcolon : startsWith isIdentifierChar (':' :: rest) = false := rfl
  rw [ReadsIf, nextTokenFromStream_name hc h, readIdentifierOrKeywordStartingWith]
  show (collectIdentifierCharsStartingWith c (cs ++ ':' :: rest)).bind _ = _
  rw [collectName hchars hcolon]
  by_cases hroom : (c :: cs).length ≤ 64
  · rw [if_pos hroom, if_pos hroom]
    show some ({ self with stream := rest }.checkKeywordOrAssignment (c :: cs)) = _
    rw [checkKeywordOrAssignment]
    split
    · rename_i hequal
      have hrest : rest = _ := hequal
      rw [hrest] at hends
      cases (show true = false from hends)
    · rfl
  · rw [if_neg hroom, if_neg hroom]
    rfl

theorem next_integer {digits : List Char} (hne : digits ≠ [])
    (hdigits : ∀ c ∈ digits, c.isDigit = true) (hends : startsWith Char.isDigit rest = false)
    (h : skipWhitespaceAndComments self.stream = digits ++ rest) :
    ReadsIf self (digits.length ≤ 32 ∧ digitsValue 0 digits < 2 ^ 61)
      (integer digits (digitsValue 0 digits)) rest := by
  obtain ⟨c, cs, rfl⟩ := List.exists_cons_of_ne_nil hne
  have hdigit := hdigits c (List.mem_cons_self ..)
  obtain ⟨htake, hdrop⟩ := takeWhile_append_stop hdigits hends
  have hread := readIntegerStartingWith_eq hdigit (cs ++ rest)
  rw [← List.cons_append, htake, hdrop] at hread
  rw [ReadsIf, nextTokenFromStream_start h, if_pos hdigit]
  exact reading_if hread

theorem next_character {value : Char}
    (h : skipWhitespaceAndComments self.stream = '$' :: value :: rest) :
    ReadsIf self True (Lexeme.character value).token rest := by
  rw [ReadsIf, nextTokenFromStream_start h]
  rfl

theorem next_string {text : List Char} (hends : startsWith (· == '\'') rest = false)
    (h : skipWhitespaceAndComments self.stream = '\'' :: (quoted text ++ '\'' :: rest)) :
    ReadsIf self (text.length ≤ 128) (string text) rest := by
  have hread := readStringLiteral_eq (quoted text ++ '\'' :: rest)
  rw [readString_quoted text hends] at hread
  rw [ReadsIf, nextTokenFromStream_start h]
  exact reading_if hread

/-- After a `#`, `readSymbolOrLiteralArray` decides. -/
theorem nextTokenFromStream_hash {stream : List Char}
    (h : skipWhitespaceAndComments self.stream = '#' :: stream) :
    self.nextTokenFromStream = self.reading (readSymbolOrLiteralArray stream) := by
  rw [nextTokenFromStream_start h]
  rfl

theorem next_symbol {text : List Char} (htext : IsSymbolText text)
    (hends : (Lexeme.symbol text).Ends rest) (halone : (Lexeme.symbol text).Alone rest)
    (h : skipWhitespaceAndComments self.stream = '#' :: (text ++ rest)) :
    ReadsIf self (text.length ≤ 64) (symbol text) rest := by
  have hread := readSymbolIdentifier_eq (text ++ rest)
  rw [symbolText_lexeme htext halone hends] at hread
  obtain ⟨c, cs, rfl, hc⟩ := htext.first
  have hne : ∀ {d : Char}, (d.isAlpha || d == '_') = false → ¬ (c == d) = true := fun hd =>
    Bool.eq_false_iff.mp (@beq_of_kind (fun c => c.isAlpha || c == '_') c _ hc hd)
  rw [ReadsIf, nextTokenFromStream_hash h, List.cons_append, readSymbolOrLiteralArray,
    if_neg (hne (by decide)), if_neg (hne (by decide)), if_pos hc]
  exact reading_if hread

theorem next_quotedSymbol {text : List Char} (hends : startsWith (· == '\'') rest = false)
    (h : skipWhitespaceAndComments self.stream = '#' :: '\'' :: (quoted text ++ '\'' :: rest)) :
    ReadsIf self (text.length ≤ 128) (symbol text) rest := by
  have hread := readStringLiteral_eq (quoted text ++ '\'' :: rest)
  rw [readString_quoted text hends] at hread
  rw [ReadsIf, nextTokenFromStream_hash h, readSymbolOrLiteralArray, if_neg (by decide),
    if_pos (by decide)]
  refine reading_if ?_
  rw [readSymbolString, hread]
  split <;> rfl

theorem next_binarySymbol {text : List Char} (htext : IsBinaryText text)
    (hends : startsWith isBinarySelectorChar rest = false)
    (h : skipWhitespaceAndComments self.stream = '#' :: (text ++ rest)) :
    ReadsIf self True (symbol text) rest := by
  obtain ⟨c, cs, rfl, hc⟩ := IsBinaryText.first htext
  obtain ⟨-, -, -, hquote, -, hletter, -, hparen⟩ := binary_start hc
  rw [ReadsIf, nextTokenFromStream_hash h, List.cons_append, readSymbolOrLiteralArray, hparen,
    hquote, hletter, hc]
  show self.reading (some (readBinarySymbol c (cs ++ rest))) = _
  rw [readBinarySymbol, binaryText_lexeme htext fun _ => hends]
  rfl

theorem next_binary {text : List Char} (htext : IsBinaryText text)
    (hends : (Lexeme.binary text).Ends rest)
    (h : skipWhitespaceAndComments self.stream = text ++ rest) :
    ReadsIf self True (Lexeme.binary text).token rest := by
  obtain ⟨c, cs, rfl, hc⟩ := IsBinaryText.first htext
  obtain ⟨-, hdigit, hdollar, hquote, hhash, hletter, hcolon, -⟩ := binary_start hc
  rw [ReadsIf, nextTokenFromStream_classify h hdigit hdollar hquote hhash,
    classifyIdentifierOrSpecial, hletter, hcolon, hc]
  show self.reading (some (readBinarySelectorStartingWith c (cs ++ rest))) = _
  rw [readBinarySelectorStartingWith, binaryText_lexeme htext hends]
  rfl

theorem next_colon (hends : startsWith (· == '=') rest = false)
    (h : skipWhitespaceAndComments self.stream = ':' :: rest) :
    ReadsIf self True (special [':']) rest := by
  rw [ReadsIf, nextTokenFromStream_start h]
  show self.reading (some (readColonToken rest)) = _
  rw [readColonToken]
  · rfl
  · intro stream heq
    rw [heq] at hends
    exact nomatch (show true = false from hends)

theorem next_special {value : Char} (hvalue : isPunctuation value = true)
    (h : skipWhitespaceAndComments self.stream = value :: rest) :
    ReadsIf self True (special [value]) rest := by
  obtain ⟨-, hdigit, hdollar, hquote, hhash, hletter, hcolon, hbinary⟩ := punctuation_start hvalue
  rw [ReadsIf, nextTokenFromStream_classify h hdigit hdollar hquote hhash,
    classifyIdentifierOrSpecial, hletter, hcolon, hbinary]
  rfl

/-- No lexeme begins with a blank or a comment. -/
theorem skip_lexeme {lexeme : Lexeme} (h : lexeme.Valid) (rest : List Char) :
    skipWhitespaceAndComments (lexeme.text ++ rest) = lexeme.text ++ rest := by
  have hname : ∀ {name : List Char}, IsName name → ∀ more,
      skipWhitespaceAndComments (name ++ more) = name ++ more := by
    intro name hname more
    obtain ⟨c, cs, rfl, hc⟩ := hname.first
    exact skip_start (isStart_of_kind (p := fun c => c.isAlpha || c == '_') hc (by simp)) _
  have hbinary : ∀ {text : List Char}, IsBinaryText text →
      skipWhitespaceAndComments (text ++ rest) = text ++ rest := by
    intro text htext
    obtain ⟨c, cs, rfl, hc⟩ := IsBinaryText.first htext
    exact skip_start (binary_start hc).1 _
  cases lexeme with
  | identifier name => exact hname h rest
  | keyword name =>
    show skipWhitespaceAndComments (name ++ [':'] ++ rest) = name ++ [':'] ++ rest
    rw [List.append_assoc]
    exact hname h _
  | integer digits =>
    obtain ⟨c, cs, rfl⟩ := List.exists_cons_of_ne_nil h.1
    exact skip_start (isStart_of_kind (h.2 c (List.mem_cons_self ..)) (by simp)) _
  | binary text => exact hbinary h
  | special value => exact skip_start (punctuation_start h).1 _
  | character | string | symbol | quotedSymbol | binarySymbol | assignment | colon | literalArray =>
    rfl

/-- **The Smalltalk tokenizer on a lexeme**: the lexeme's token and the text after it, or a trap
where a buffer has no room. -/
theorem next_lexeme {lexeme : Lexeme} {gap : List Char} (hgap : IsGap gap) (hvalid : lexeme.Valid)
    (hends : lexeme.Ends rest) (halone : lexeme.Alone rest)
    (h : self.stream = gap ++ (lexeme.text ++ rest)) :
    ReadsIf self lexeme.Fits lexeme.token rest := by
  have hskip : skipWhitespaceAndComments self.stream = lexeme.text ++ rest := by
    rw [h, skip_gap hgap, skip_lexeme hvalid]
  cases lexeme with
  | identifier name => exact next_identifier hvalid hends halone hskip
  | keyword name =>
    refine next_keyword hvalid hends (hskip.trans ?_)
    exact List.append_assoc name [':'] rest
  | integer digits => exact next_integer hvalid.1 hvalid.2 hends hskip
  | character value => exact next_character hskip
  | string text =>
    refine next_string hends (hskip.trans ?_)
    exact congrArg _ (List.append_assoc (quoted text) ['\''] rest)
  | symbol text => exact next_symbol hvalid hends halone hskip
  | quotedSymbol text =>
    refine next_quotedSymbol hends (hskip.trans ?_)
    exact congrArg ('#' :: '\'' :: ·) (List.append_assoc (quoted text) ['\''] rest)
  | binarySymbol text => exact next_binarySymbol hvalid hends hskip
  | binary text => exact next_binary hvalid hends hskip
  | assignment => exact nextTokenFromStream_start hskip
  | colon => exact next_colon hends hskip
  | special value => exact next_special hvalid hskip
  | literalArray => exact nextTokenFromStream_hash hskip

end Tokenizer

end LivingObjects.Smalltalk
