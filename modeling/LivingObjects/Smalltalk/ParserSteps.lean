/-
  LivingObjects.Smalltalk.ParserSteps — the methods of the parser, one at a time.

  A tokenizer in front of printed lexemes is known by the lexemes and by whether it has
  peeked at the first (`bare`, `peeked`).  For every method of `Parser.st` and every way
  through it, one lemma says what it answers there and where it leaves the tokenizer.
-/
import LivingObjects.Smalltalk.Printing

namespace LivingObjects.Smalltalk

open Node

/-! ## §1. A tokenizer on a printed text. -/

/-- The text of lexemes with a blank before each. -/
def textOf (lexemes : List Lexeme) : List Char := lexemes.flatMap fun lexeme => ' ' :: lexeme.text

def AllPlain (lexemes : List Lexeme) : Prop := ∀ lexeme ∈ lexemes, lexeme.Plain

/-- The token that comes next. -/
def headToken : List Lexeme → Token
  | [] => Token.eof
  | lexeme :: _ => lexeme.token

variable {source : List Char}

/-- A tokenizer in front of some lexemes, with nothing in its buffer. -/
def bare (source : List Char) (lexemes : List Lexeme) : Tokenizer :=
  { source := source, stream := textOf lexemes, buffered := none }

/-- A tokenizer that has peeked at the first of some lexemes. -/
def peeked (source : List Char) (lexemes : List Lexeme) : Tokenizer :=
  { source := source, stream := textOf lexemes.tail, buffered := some (headToken lexemes) }

/-- A tokenizer in front of some lexemes. -/
inductive Stands (source : List Char) : List Lexeme → Tokenizer → Prop
  | first {lexemes : List Lexeme} (hplain : AllPlain lexemes) :
      Stands source lexemes { source := source, stream := spacedText lexemes, buffered := none }
  | bare {lexemes : List Lexeme} (hplain : AllPlain lexemes) :
      Stands source lexemes (bare source lexemes)
  | peeked {lexemes : List Lexeme} (hplain : AllPlain lexemes) :
      Stands source lexemes (peeked source lexemes)

theorem Stands.plain {lexemes : List Lexeme} {tokenizer : Tokenizer}
    (h : Stands source lexemes tokenizer) : AllPlain lexemes := by
  cases h with
  | first hplain => exact hplain
  | bare hplain => exact hplain
  | peeked hplain => exact hplain

theorem startsWith_textOf {p : Char → Bool} (h : p ' ' = false) (lexemes : List Lexeme) :
    startsWith p (textOf lexemes) = false := by
  cases lexemes with
  | nil => rfl
  | cons lexeme lexemes => exact h

/-- A blank ends every lexeme. -/
theorem Lexeme.Plain.apart {lexeme : Lexeme} (h : lexeme.Plain) (lexemes : List Lexeme) :
    lexeme.Ends (textOf lexemes) ∧ lexeme.Alone (textOf lexemes) := by
  have hstarts : ∀ p : Char → Bool, p ' ' = false → startsWith p (textOf lexemes) = false :=
    fun p hp => startsWith_textOf hp lexemes
  cases lexeme with
  | identifier name =>
    refine ⟨⟨hstarts _ (by decide), ?_⟩, hstarts _ (by decide)⟩
    intro hcolon
    rw [hstarts _ (by decide)] at hcolon
    exact nomatch hcolon
  | symbol text => exact ⟨hstarts _ (by decide), h.alone text rfl⟩
  | binary text => exact ⟨fun _ => hstarts _ (by decide), trivial⟩
  | keyword | integer | string | quotedSymbol | binarySymbol | colon =>
    exact ⟨hstarts _ (by decide), trivial⟩
  | character | assignment | special | literalArray => exact ⟨trivial, trivial⟩

/-- Scanning the first of some plain lexemes. -/
theorem scan_plain {lexeme : Lexeme} (h : lexeme.Plain) {gap : List Char} (hgap : IsGap gap)
    (lexemes : List Lexeme) (buffered : Option Token) :
    Tokenizer.nextTokenFromStream
        { source := source, stream := gap ++ (lexeme.text ++ textOf lexemes),
          buffered := buffered } =
      some (lexeme.token,
        { source := source, stream := textOf lexemes, buffered := buffered }) := by
  obtain ⟨hends, halone⟩ := h.apart lexemes
  have hread : Tokenizer.ReadsIf
      { source := source, stream := gap ++ (lexeme.text ++ textOf lexemes), buffered := buffered }
      lexeme.Fits lexeme.token (textOf lexemes) :=
    Tokenizer.next_lexeme hgap h.valid hends halone rfl
  rw [Tokenizer.ReadsIf, if_pos h.fits] at hread
  exact hread

/-- Scanning from any place before some lexemes. -/
theorem scan_stands {lexemes : List Lexeme} {stream : List Char} (hplain : AllPlain lexemes)
    (h : stream = textOf lexemes ∨ stream = spacedText lexemes) (buffered : Option Token) :
    Tokenizer.nextTokenFromStream { source := source, stream := stream, buffered := buffered } =
      some (headToken lexemes,
        { source := source, stream := textOf lexemes.tail, buffered := buffered }) := by
  cases lexemes with
  | nil =>
    have hstream : stream = [] := by
      rcases h with h | h
      · exact h
      · exact h
    rw [hstream]
    rfl
  | cons lexeme lexemes =>
    have hlexeme := hplain lexeme (List.mem_cons_self ..)
    rcases h with rfl | rfl
    · exact scan_plain hlexeme (.separator (c := ' ') rfl .nil) lexemes buffered
    · exact scan_plain hlexeme .nil lexemes buffered

theorem Stands.next {lexemes : List Lexeme} {tokenizer : Tokenizer}
    (h : Stands source lexemes tokenizer) :
    tokenizer.next = some (headToken lexemes, Smalltalk.bare source lexemes.tail) := by
  cases h with
  | first hplain => exact scan_stands hplain (.inr rfl) none
  | bare hplain => exact scan_stands hplain (.inl rfl) none
  | peeked hplain => rfl

theorem Stands.peek {lexemes : List Lexeme} {tokenizer : Tokenizer}
    (h : Stands source lexemes tokenizer) :
    tokenizer.peek = some (headToken lexemes, Smalltalk.peeked source lexemes) := by
  have hscan : ∀ tokenizer : Tokenizer, tokenizer.buffered = none →
      tokenizer.nextTokenFromStream = some (headToken lexemes, Smalltalk.bare source lexemes.tail) →
      tokenizer.peek = some (headToken lexemes, Smalltalk.peeked source lexemes) := by
    intro tokenizer hbuffered hnext
    rw [Tokenizer.peek, hbuffered]
    show tokenizer.nextTokenFromStream.bind _ = _
    rw [hnext]
    rfl
  cases h with
  | first hplain => exact hscan _ rfl (scan_stands hplain (.inr rfl) none)
  | bare hplain => exact hscan _ rfl (scan_stands hplain (.inl rfl) none)
  | peeked hplain => rfl

theorem AllPlain.tail {lexemes : List Lexeme} (h : AllPlain lexemes) : AllPlain lexemes.tail :=
  fun lexeme hlexeme => h lexeme (List.mem_of_mem_tail hlexeme)

theorem Stands.tail {lexemes : List Lexeme} {tokenizer : Tokenizer}
    (h : Stands source lexemes tokenizer) :
    Stands source lexemes.tail (Smalltalk.bare source lexemes.tail) := .bare h.plain.tail

theorem Stands.looked {lexemes : List Lexeme} {tokenizer : Tokenizer}
    (h : Stands source lexemes tokenizer) :
    Stands source lexemes (Smalltalk.peeked source lexemes) := .peeked h.plain

/-! ## §2. Parsing with enough fuel. -/

/-- A parse that ends alike with every fuel from some on. -/
def Ends {β : Type} (p : Nat → Option β) (result : β) : Prop :=
  ∃ n, ∀ fuel, n ≤ fuel → p fuel = some result

namespace Ends

variable {β : Type}

theorem shift {p : Nat → Option β} {result : β} (n k : Nat)
    (h : ∀ fuel, n ≤ fuel → p (fuel + k) = some result) : Ends p result := by
  refine ⟨n + k, ?_⟩
  intro fuel hfuel
  obtain ⟨later, rfl⟩ : ∃ later, fuel = later + k := ⟨fuel - k, by omega⟩
  exact h later (by omega)

end Ends

/-! ## §3. One method of the parser at a time. -/

open LivingObjects.Smalltalk.Parser

variable {lexemes rest : List Lexeme} {tokenizer after : Tokenizer} {node : Node}

/-- The outcome of a parse. -/
abbrev Outcome := Node × Tokenizer

theorem primary_literal {lexeme : Lexeme} (h : Stands source (lexeme :: rest) tokenizer)
    (hliteral : lexeme.isLiteral = true) :
    Ends (parsePrimary · tokenizer)
      (literalNode lexeme.literalValue lexeme.token, bare source rest) := by
  refine .shift 0 1 ?_
  intro fuel _
  rw [parsePrimary]
  show tokenizer.peek.bind _ = _
  rw [h.peek]
  cases lexeme with
  | integer | character | string | symbol | quotedSymbol | binarySymbol => rfl
  | _ => exact nomatch hliteral

theorem primary_variable {name : List Char}
    (h : Stands source (.identifier name :: rest) tokenizer) :
    Ends (parsePrimary · tokenizer) (variableNode name, bare source rest) := by
  refine .shift 0 1 ?_
  intro fuel _
  rw [parsePrimary]
  show tokenizer.peek.bind _ = _
  rw [h.peek]
  rfl

theorem primary_literalArray (h : Stands source (.literalArray :: rest) tokenizer)
    {result : Outcome}
    (hlater : Ends (collectLiteralArrayElements · [] (bare source rest)) result) :
    Ends (parsePrimary · tokenizer) result := by
  obtain ⟨n, hn⟩ := hlater
  refine .shift n 1 ?_
  intro fuel hfuel
  rw [parsePrimary]
  show tokenizer.peek.bind _ = _
  rw [h.peek]
  exact hn fuel hfuel

theorem primary_parenthesized (h : Stands source (.special '(' :: rest) tokenizer)
    {later : List Lexeme}
    (hlater : Ends (parseKeywordExpression · (bare source rest))
      (node, peeked source (.special ')' :: later))) :
    Ends (parsePrimary · tokenizer) (node, bare source later) := by
  obtain ⟨n, hn⟩ := hlater
  refine .shift n 2 ?_
  intro fuel hfuel
  rw [parsePrimary]
  show tokenizer.peek.bind _ = _
  rw [h.peek]
  show parseParenthesized (fuel + 1) (peeked source (.special '(' :: rest)) = _
  rw [parseParenthesized]
  show (parseKeywordExpression fuel (bare source rest)).bind _ = _
  rw [show parseKeywordExpression fuel (bare source rest) = _ from hn fuel hfuel]
  rfl

theorem unary_expression (hnode : node.isNil = false) {result : Outcome}
    (hprimary : Ends (parsePrimary · tokenizer) (node, after))
    (hlater : Ends (parseUnaryContinuation · node after) result) :
    Ends (parseUnaryExpression · tokenizer) result := by
  obtain ⟨n, hn⟩ := hprimary
  obtain ⟨k, hk⟩ := hlater
  refine .shift (max n k) 1 ?_
  intro fuel hfuel
  rw [parseUnaryExpression]
  show (parsePrimary fuel tokenizer).bind _ = _
  rw [show parsePrimary fuel tokenizer = _ from hn fuel (by omega)]
  show (if node.isNil = true then pure .nil else parseUnaryContinuation fuel node :
    Parsing Node) after = _
  rw [hnode]
  exact hk fuel (by omega)

/-- No identifier: the receiver stands. -/
theorem unary_end (h : Stands source rest tokenizer)
    (hend : (headToken rest).isIdentifier = false) :
    Ends (parseUnaryContinuation · node tokenizer) (node, peeked source rest) := by
  refine .shift 0 1 ?_
  intro fuel _
  rw [parseUnaryContinuation]
  show tokenizer.peek.bind _ = _
  rw [h.peek]
  show (if (headToken rest).isIdentifier = true then _ else pure node : Parsing Node)
    (peeked source rest) = _
  rw [hend]
  rfl

/-- A unary message. -/
theorem unary_message {selector : List Char}
    (h : Stands source (.identifier selector :: rest) tokenizer)
    (hassign : (headToken rest).isSpecialText ":=" = false) {result : Outcome}
    (hlater : Ends (parseUnaryContinuation · (messageNode node selector []) (peeked source rest))
      result) :
    Ends (parseUnaryContinuation · node tokenizer) result := by
  obtain ⟨n, hn⟩ := hlater
  refine .shift n 1 ?_
  intro fuel hfuel
  rw [parseUnaryContinuation]
  show tokenizer.peek.bind _ = _
  rw [h.peek]
  show (bare source rest).peek.bind _ = _
  have hrest : Stands source rest (bare source rest) := h.tail
  rw [hrest.peek]
  show (if (headToken rest).isSpecialText ":=" = true then _ else _ : Parsing Node)
    (peeked source rest) = _
  rw [hassign]
  exact hn fuel hfuel

theorem binary_expression (hnode : node.isNil = false) {result : Outcome}
    (hunary : Ends (parseUnaryExpression · tokenizer) (node, after))
    (hlater : Ends (parseBinaryContinuation · node after) result) :
    Ends (parseBinaryExpression · tokenizer) result := by
  obtain ⟨n, hn⟩ := hunary
  obtain ⟨k, hk⟩ := hlater
  refine .shift (max n k) 1 ?_
  intro fuel hfuel
  rw [parseBinaryExpression]
  show (parseUnaryExpression fuel tokenizer).bind _ = _
  rw [show parseUnaryExpression fuel tokenizer = _ from hn fuel (by omega)]
  show (if node.isNil = true then _ else parseBinaryContinuation fuel node : Parsing Node) after = _
  rw [hnode]
  exact hk fuel (by omega)

/-- No binary selector: the receiver stands. -/
theorem binary_end (h : Stands source rest tokenizer)
    (hend : (headToken rest).isBinarySelector = false) :
    Ends (parseBinaryContinuation · node tokenizer) (node, peeked source rest) := by
  refine .shift 0 1 ?_
  intro fuel _
  rw [parseBinaryContinuation]
  show tokenizer.peek.bind _ = _
  rw [h.peek]
  show (if (headToken rest).isBinarySelector = true then _ else pure node : Parsing Node)
    (peeked source rest) = _
  rw [hend]
  rfl

/-- A binary message. -/
theorem binary_message {selector : List Char} {argument : Node} {result : Outcome}
    (h : Stands source (.binary selector :: rest) tokenizer) (hargument : argument.isNil = false)
    (hunary : Ends (parseUnaryExpression · (bare source rest)) (argument, after))
    (hlater : Ends (parseBinaryContinuation · (messageNode node selector [argument]) after)
      result) :
    Ends (parseBinaryContinuation · node tokenizer) result := by
  obtain ⟨n, hn⟩ := hunary
  obtain ⟨k, hk⟩ := hlater
  refine .shift (max n k) 1 ?_
  intro fuel hfuel
  rw [parseBinaryContinuation]
  show tokenizer.peek.bind _ = _
  rw [h.peek]
  show (parseUnaryExpression fuel (bare source rest)).bind _ = _
  rw [show parseUnaryExpression fuel (bare source rest) = _ from hn fuel (by omega)]
  show (if argument.isNil = true then _ else parseBinaryContinuation fuel _ : Parsing Node)
    after = _
  rw [hargument]
  exact hk fuel (by omega)

/-- No keyword: the receiver stands. -/
theorem keyword_none (hnode : node.isNil = false)
    (hbinary : Ends (parseBinaryExpression · tokenizer) (node, peeked source rest))
    (hend : (headToken rest).isKeyword = false) :
    Ends (parseKeywordExpression · tokenizer) (node, peeked source rest) := by
  obtain ⟨n, hn⟩ := hbinary
  refine .shift n 1 ?_
  intro fuel hfuel
  rw [parseKeywordExpression]
  show (parseBinaryExpression fuel tokenizer).bind _ = _
  rw [show parseBinaryExpression fuel tokenizer = _ from hn fuel hfuel]
  show (if node.isNil = true then _ else _ : Parsing Node) (peeked source rest) = _
  rw [hnode]
  show (if (!(headToken rest).isKeyword) = true then pure node else _ : Parsing Node)
    (peeked source rest) = _
  rw [hend]
  rfl

/-- A keyword message to what is no block. -/
theorem keyword_message {name : List Char} (hnode : node.isNil = false)
    (hblock : node.isBlock = false) {result : Outcome}
    (hbinary : Ends (parseBinaryExpression · tokenizer)
      (node, peeked source (.keyword name :: rest)))
    (hlater : Ends (parseKeywordContinuation · node [] []
      (peeked source (.keyword name :: rest))) result) :
    Ends (parseKeywordExpression · tokenizer) result := by
  obtain ⟨n, hn⟩ := hbinary
  obtain ⟨k, hk⟩ := hlater
  refine .shift (max n k) 1 ?_
  intro fuel hfuel
  rw [parseKeywordExpression]
  show (parseBinaryExpression fuel tokenizer).bind _ = _
  rw [show parseBinaryExpression fuel tokenizer = _ from hn fuel (by omega)]
  show (if node.isNil = true then _ else _ : Parsing Node) (peeked source _) = _
  rw [hnode]
  show (if (!node.isBlock) = true then parseKeywordContinuation fuel node [] [] else _ :
    Parsing Node) (peeked source _) = _
  rw [hblock]
  exact hk fuel (by omega)

/-- One keyword and its argument to a block. -/
theorem keyword_block {name : List Char} {argument : Node} (hnode : node.isNil = false)
    (hblock : node.isBlock = true)
    (hbinary : Ends (parseBinaryExpression · tokenizer)
      (node, peeked source (.keyword name :: rest)))
    (hargument : Ends (parseBinaryExpression · (bare source rest)) (argument, after)) :
    Ends (parseKeywordExpression · tokenizer)
      (messageNode node (name ++ [':']) [argument], after) := by
  obtain ⟨n, hn⟩ := hbinary
  obtain ⟨k, hk⟩ := hargument
  refine .shift (max n k) 1 ?_
  intro fuel hfuel
  rw [parseKeywordExpression]
  show (parseBinaryExpression fuel tokenizer).bind _ = _
  rw [show parseBinaryExpression fuel tokenizer = _ from hn fuel (by omega)]
  show (if node.isNil = true then _ else _ : Parsing Node) (peeked source _) = _
  rw [hnode]
  show (if (!node.isBlock) = true then _ else _ : Parsing Node) (peeked source _) = _
  rw [hblock]
  show (parseBinaryExpression fuel (bare source rest)).bind _ = _
  rw [show parseBinaryExpression fuel (bare source rest) = _ from hk fuel (by omega)]
  rfl

theorem arguments_end {selBuf : List Char} {argsBuf : List Node}
    (h : Stands source rest tokenizer) (hend : (headToken rest).isKeyword = false) :
    Ends (parseKeywordContinuation · node selBuf argsBuf tokenizer)
      (messageNode node selBuf argsBuf, peeked source rest) := by
  refine .shift 0 1 ?_
  intro fuel _
  rw [parseKeywordContinuation]
  show tokenizer.peek.bind _ = _
  rw [h.peek]
  show (if (headToken rest).isKeyword = true then _ else pure _ : Parsing Node)
    (peeked source rest) = _
  rw [hend]
  rfl

theorem appendString_eq {text buffer : List Char} (h : (buffer ++ text).length ≤ 64)
    (tokenizer : Tokenizer) :
    appendString text buffer tokenizer = some (buffer ++ text, tokenizer) := by
  have hfold : text.foldlM (put 64) buffer = some (buffer ++ text) := by
    induction text generalizing buffer with
    | nil => rw [List.append_nil, List.foldlM_nil]; rfl
    | cons c cs ih =>
      rw [List.length_append, List.length_cons] at h
      have hroom : (buffer ++ [c] ++ cs).length ≤ 64 := by
        rw [List.append_assoc, List.length_append, List.singleton_append, List.length_cons]
        exact h
      rw [List.foldlM_cons, put_of_lt (by omega)]
      show cs.foldlM (put 64) (buffer ++ [c]) = _
      rw [ih hroom, List.append_assoc, List.singleton_append]
  rw [appendString, hfold]
  rfl

theorem store_eq {α : Type} {room : Nat} {buffer : List α} {element : α}
    (h : buffer.length < room) (tokenizer : Tokenizer) :
    store room buffer element tokenizer = some (buffer ++ [element], tokenizer) := by
  rw [store, if_pos h]
  rfl

theorem arguments_next {name selBuf : List Char} {argument : Node} {argsBuf : List Node}
    {result : Outcome} (h : Stands source (.keyword name :: rest) tokenizer)
    (hroom : (selBuf ++ (name ++ [':'])).length ≤ 64) (hargument : argument.isNil = false)
    (hargs : argsBuf.length < 8)
    (hbinary : Ends (parseBinaryExpression · (bare source rest)) (argument, after))
    (hlater : Ends (parseKeywordContinuation · node (selBuf ++ (name ++ [':']))
      (argsBuf ++ [argument]) after) result) :
    Ends (parseKeywordContinuation · node selBuf argsBuf tokenizer) result := by
  obtain ⟨n, hn⟩ := hbinary
  obtain ⟨k, hk⟩ := hlater
  refine .shift (max n k) 1 ?_
  intro fuel hfuel
  rw [parseKeywordContinuation]
  show tokenizer.peek.bind _ = _
  rw [h.peek]
  show (appendString (name ++ [':']) selBuf (bare source rest)).bind _ = _
  rw [appendString_eq hroom]
  show (parseBinaryExpression fuel (bare source rest)).bind _ = _
  rw [show parseBinaryExpression fuel (bare source rest) = _ from hn fuel (by omega)]
  show (if argument.isNil = true then _ else _ : Parsing Node) after = _
  rw [hargument]
  show (store 8 argsBuf argument after).bind _ = _
  rw [store_eq hargs]
  exact hk fuel (by omega)

/-! ## §4. Names and literal arrays. -/

theorem temporaries_collected (names : List (List Char)) {buffer : List (List Char)}
    (h : Stands source (names.map .identifier ++ .binary ['|'] :: rest) tokenizer)
    (hroom : (buffer ++ names).length ≤ 16) :
    Ends (collectTemporaries · buffer tokenizer) (buffer ++ names, bare source rest) := by
  induction names generalizing buffer tokenizer with
  | nil =>
    refine .shift 0 1 ?_
    intro fuel _
    rw [collectTemporaries, List.append_nil]
    show tokenizer.next.bind _ = _
    rw [h.next]
    rfl
  | cons name names ih =>
    have hstore : buffer.length < 16 := by
      rw [List.length_append, List.length_cons] at hroom
      omega
    have hlater : (buffer ++ [name] ++ names).length ≤ 16 := by
      rw [List.append_assoc, List.singleton_append]
      exact hroom
    have hrest : Stands source (names.map .identifier ++ .binary ['|'] :: rest)
        (bare source (names.map .identifier ++ .binary ['|'] :: rest)) := h.tail
    obtain ⟨n, hn⟩ := ih hrest hlater
    refine .shift n 1 ?_
    intro fuel hfuel
    rw [collectTemporaries]
    show tokenizer.next.bind _ = _
    rw [h.next]
    show (store 16 buffer name (bare source _)).bind _ = _
    rw [store_eq hstore]
    refine (hn fuel hfuel).trans ?_
    rw [List.append_assoc, List.singleton_append]

/-- Printed temporaries are read back; without any, no bar may come next. -/
theorem temporaries_read {names : List (List Char)} (hnames : Names 16 names)
    (h : Stands source (temporaryLexemes names ++ rest) tokenizer)
    (hbar : names = [] → (headToken rest).text ≠ ['|']) :
    Ends (parseTemporaries · tokenizer) (names, if names = [] then peeked source rest
      else bare source rest) := by
  cases names with
  | nil =>
    have hstands : Stands source rest tokenizer := h
    refine .shift 0 0 ?_
    intro fuel _
    rw [parseTemporaries]
    show tokenizer.next.bind _ = _
    rw [hstands.next]
    show (if (headToken rest).text = ['|'] then _ else _ : Parsing (List (List Char)))
      (bare source rest.tail) = _
    rw [if_neg (hbar rfl)]
    rfl
  | cons name names =>
    have hlexemes : temporaryLexemes (name :: names) ++ rest = .binary ['|'] ::
        ((name :: names).map .identifier ++ .binary ['|'] :: rest) := by
      show .binary ['|'] :: (((name :: names).map .identifier ++ [.binary ['|']]) ++ rest) = _
      rw [List.append_assoc]
      rfl
    rw [hlexemes] at h
    obtain ⟨n, hn⟩ : Ends (collectTemporaries · [] (bare source _))
        (name :: names, bare source rest) :=
      temporaries_collected (name :: names) h.tail hnames.room
    refine .shift n 0 ?_
    intro fuel hfuel
    show parseTemporaries fuel tokenizer = _
    rw [parseTemporaries]
    show tokenizer.next.bind _ = _
    rw [h.next]
    exact hn fuel hfuel

theorem arguments_collected (names : List (List Char)) {buffer : List (List Char)}
    (h : Stands source (names.flatMap (fun name => [.colon, .identifier name]) ++
      .binary ['|'] :: rest) tokenizer)
    (hroom : (buffer ++ names).length ≤ 8) :
    Ends (collectBlockArguments · buffer tokenizer) (buffer ++ names, bare source rest) := by
  induction names generalizing buffer tokenizer with
  | nil =>
    refine .shift 0 1 ?_
    intro fuel _
    rw [collectBlockArguments, List.append_nil]
    show tokenizer.peek.bind _ = _
    rw [h.peek]
    rfl
  | cons name names ih =>
    have hstore : buffer.length < 8 := by
      rw [List.length_append, List.length_cons] at hroom
      omega
    have hlater : (buffer ++ [name] ++ names).length ≤ 8 := by
      rw [List.append_assoc, List.singleton_append]
      exact hroom
    replace h : Stands source (.colon :: .identifier name :: (names.flatMap
        (fun name => [.colon, .identifier name]) ++ .binary ['|'] :: rest)) tokenizer := h
    generalize names.flatMap (fun name => [Lexeme.colon, .identifier name]) ++
      .binary ['|'] :: rest = later at ih h
    have hname : Stands source (.identifier name :: later)
        (bare source (.identifier name :: later)) := h.tail
    have hnames : Stands source later (bare source later) := hname.tail
    obtain ⟨n, hn⟩ := ih hnames hlater
    refine .shift n 1 ?_
    intro fuel hfuel
    rw [collectBlockArguments]
    show tokenizer.peek.bind _ = _
    rw [h.peek]
    show (bare source (.identifier name :: later)).next.bind _ = _
    rw [hname.next]
    show (store 8 buffer name (bare source _)).bind _ = _
    rw [store_eq hstore]
    refine (hn fuel hfuel).trans ?_
    rw [List.append_assoc, List.singleton_append]

theorem blockArguments_read {names : List (List Char)} (hnames : Names 8 names)
    (h : Stands source (argumentLexemes names ++ rest) tokenizer)
    (hcolon : (headToken rest).isSpecialText ":" = false) :
    Ends (parseBlockArguments · tokenizer) (names, if names = [] then peeked source rest
      else bare source rest) := by
  cases names with
  | nil =>
    have hstands : Stands source rest tokenizer := h
    refine .shift 0 0 ?_
    intro fuel _
    rw [parseBlockArguments]
    show tokenizer.peek.bind _ = _
    rw [hstands.peek]
    show (if (headToken rest).isSpecialText ":" = true then _ else _ :
      Parsing (List (List Char))) (peeked source rest) = _
    rw [hcolon]
    rfl
  | cons name names =>
    have hlexemes : argumentLexemes (name :: names) ++ rest =
        (name :: names).flatMap (fun name => [.colon, .identifier name]) ++
          .binary ['|'] :: rest := by
      show (_ ++ [.binary ['|']]) ++ rest = _
      rw [List.append_assoc]
      rfl
    rw [hlexemes] at h
    obtain ⟨n, hn⟩ : Ends (collectBlockArguments · [] (peeked source _))
        (name :: names, bare source rest) :=
      arguments_collected (name :: names) h.looked hnames.room
    refine .shift n 0 ?_
    intro fuel hfuel
    show parseBlockArguments fuel tokenizer = _
    rw [parseBlockArguments]
    show tokenizer.peek.bind _ = _
    rw [h.peek]
    exact hn fuel hfuel

theorem elements_end {buffer : List Node} (h : Stands source (.special ')' :: rest) tokenizer) :
    Ends (collectLiteralArrayElements · buffer tokenizer)
      (literalArrayNode buffer, bare source rest) := by
  refine .shift 0 1 ?_
  intro fuel _
  rw [collectLiteralArrayElements]
  show tokenizer.peek.bind _ = _
  rw [h.peek]
  rfl

theorem elements_literal {lexeme : Lexeme} {buffer : List Node} {result : Outcome}
    (h : Stands source (lexeme :: rest) tokenizer) (helement : lexeme.isElement = true)
    (hroom : buffer.length < 32)
    (hlater : Ends (collectLiteralArrayElements ·
      (buffer ++ [literalNode lexeme.literalValue lexeme.token]) (bare source rest)) result) :
    Ends (collectLiteralArrayElements · buffer tokenizer) result := by
  obtain ⟨n, hn⟩ := hlater
  refine .shift n 1 ?_
  intro fuel hfuel
  rw [collectLiteralArrayElements]
  show tokenizer.peek.bind _ = _
  rw [h.peek]
  have hstore : (store 32 buffer (literalNode lexeme.literalValue lexeme.token)
      (bare source rest)).bind (fun stored =>
        collectLiteralArrayElements fuel stored.1 stored.2) = some result := by
    rw [store_eq hroom]
    exact hn fuel hfuel
  cases lexeme with
  | identifier | keyword | integer | character | string | symbol | quotedSymbol | binarySymbol
  | binary => exact hstore
  | _ => exact nomatch helement

theorem elements_array {lexemes : List Lexeme} {buffer inner : List Node} {result : Outcome}
    (h : Stands source (.literalArray :: lexemes) tokenizer) (hroom : buffer.length < 32)
    (hinner : Ends (collectLiteralArrayElements · [] (bare source lexemes))
      (literalArrayNode inner, bare source rest))
    (hlater : Ends (collectLiteralArrayElements · (buffer ++ [literalArrayNode inner])
      (bare source rest)) result) :
    Ends (collectLiteralArrayElements · buffer tokenizer) result := by
  obtain ⟨n, hn⟩ := hinner
  obtain ⟨k, hk⟩ := hlater
  refine .shift (max n k) 1 ?_
  intro fuel hfuel
  rw [collectLiteralArrayElements]
  show tokenizer.peek.bind _ = _
  rw [h.peek]
  show (collectLiteralArrayElements fuel [] (bare source lexemes)).bind _ = _
  rw [show collectLiteralArrayElements fuel [] (bare source lexemes) = _ from
    hn fuel (by omega)]
  show (store 32 buffer (literalArrayNode inner) (bare source rest)).bind _ = _
  rw [store_eq hroom]
  exact hk fuel (by omega)

/-! ## §5. Statements and blocks. -/

theorem statement_return {expression : Node}
    (h : Stands source (.special '^' :: rest) tokenizer)
    (hexpression : Ends (parseKeywordExpression · (bare source rest)) (expression, after)) :
    Ends (parseStatement · tokenizer) (returnNode expression, after) := by
  obtain ⟨n, hn⟩ := hexpression
  refine .shift n 1 ?_
  intro fuel hfuel
  rw [parseStatement]
  show tokenizer.peek.bind _ = _
  rw [h.peek]
  show (parseKeywordExpression fuel (bare source rest)).bind _ = _
  rw [show parseKeywordExpression fuel (bare source rest) = _ from hn fuel hfuel]
  rfl

theorem statement_other (h : Stands source lexemes tokenizer)
    (hcaret : (headToken lexemes).isSpecialText "^" = false) {result : Outcome}
    (hlater : Ends (parseExpressionOrAssignment · (peeked source lexemes)) result) :
    Ends (parseStatement · tokenizer) result := by
  obtain ⟨n, hn⟩ := hlater
  refine .shift n 1 ?_
  intro fuel hfuel
  rw [parseStatement]
  show tokenizer.peek.bind _ = _
  rw [h.peek]
  show (if (headToken lexemes).isSpecialText "^" = true then _
    else parseExpressionOrAssignment fuel : Parsing Node) (peeked source lexemes) = _
  rw [hcaret]
  exact hn fuel hfuel

theorem statement_expression (hnode : node.isNil = false)
    (hexpression : Ends (parseKeywordExpression · tokenizer) (node, peeked source rest))
    (hassign : (headToken rest).isSpecialText ":=" = false) :
    Ends (parseExpressionOrAssignment · tokenizer) (node, peeked source rest) := by
  obtain ⟨n, hn⟩ := hexpression
  refine .shift n 1 ?_
  intro fuel hfuel
  rw [parseExpressionOrAssignment]
  show (parseKeywordExpression fuel tokenizer).bind _ = _
  rw [show parseKeywordExpression fuel tokenizer = _ from hn fuel hfuel]
  show (if node.isNil = true then _ else _ : Parsing Node) (peeked source rest) = _
  rw [hnode]
  show (if (!node.isVariable) = true then pure node else _ : Parsing Node)
    (peeked source rest) = _
  cases node.isVariable with
  | false => rfl
  | true =>
    show (if (!(headToken rest).isSpecialText ":=") = true then pure node else _ : Parsing Node)
      (peeked source rest) = _
    rw [hassign]
    rfl

theorem statement_assignment {name : List Char} {value : Node}
    (hvariable : Ends (parseKeywordExpression · tokenizer)
      (variableNode name, peeked source (.assignment :: rest)))
    (hvalue : Ends (parseKeywordExpression · (bare source rest)) (value, after)) :
    Ends (parseExpressionOrAssignment · tokenizer)
      (assignmentNode (variableNode name) value, after) := by
  obtain ⟨n, hn⟩ := hvariable
  obtain ⟨k, hk⟩ := hvalue
  refine .shift (max n k) 1 ?_
  intro fuel hfuel
  rw [parseExpressionOrAssignment]
  show (parseKeywordExpression fuel tokenizer).bind _ = _
  rw [show parseKeywordExpression fuel tokenizer = _ from hn fuel (by omega)]
  show (parseKeywordExpression fuel (bare source rest)).bind _ = _
  rw [show parseKeywordExpression fuel (bare source rest) = _ from hk fuel (by omega)]
  rfl

/-- The end of the text, or the bracket of a block. -/
def closes (token : Token) : Bool := token.isEof || token.isSpecialText "]"

theorem statements_end {buffer : List Node} (h : Stands source rest tokenizer)
    (hend : closes (headToken rest) = true) :
    Ends (collectStatements · buffer tokenizer) (buffer, peeked source rest) := by
  refine .shift 0 1 ?_
  intro fuel _
  rw [collectStatements]
  show tokenizer.peek.bind _ = _
  rw [h.peek]
  show (if closes (headToken rest) = true then pure buffer else _ : Parsing (List Node))
    (peeked source rest) = _
  rw [hend]
  rfl

theorem statements_last {statement : Node} {buffer : List Node}
    (h : Stands source lexemes tokenizer) (hbegin : closes (headToken lexemes) = false)
    (hstatement : Ends (parseStatement · (peeked source lexemes)) (statement, peeked source rest))
    (hnil : statement.isNil = false) (hroom : buffer.length < 32)
    (hend : (headToken rest).isSpecialText "." = false) :
    Ends (collectStatements · buffer tokenizer) (buffer ++ [statement], peeked source rest) := by
  obtain ⟨n, hn⟩ := hstatement
  refine .shift n 1 ?_
  intro fuel hfuel
  rw [collectStatements]
  show tokenizer.peek.bind _ = _
  rw [h.peek]
  show (if closes (headToken lexemes) = true then _ else _ : Parsing (List Node))
    (peeked source lexemes) = _
  rw [hbegin]
  show (parseStatement fuel (peeked source lexemes)).bind _ = _
  rw [show parseStatement fuel (peeked source lexemes) = _ from hn fuel hfuel]
  show (if statement.isNil = true then _ else _ : Parsing (List Node)) (peeked source rest) = _
  rw [hnil]
  show (store 32 buffer statement (peeked source rest)).bind _ = _
  rw [store_eq hroom]
  show (if (headToken rest).isSpecialText "." = true then _ else _ : Parsing (List Node))
    (peeked source rest) = _
  rw [hend]
  rfl

theorem statements_next {statement : Node} {buffer : List Node} {result : List Node × Tokenizer}
    (h : Stands source lexemes tokenizer) (hbegin : closes (headToken lexemes) = false)
    (hstatement : Ends (parseStatement · (peeked source lexemes))
      (statement, peeked source (.special '.' :: rest)))
    (hnil : statement.isNil = false) (hroom : buffer.length < 32)
    (hlater : Ends (collectStatements · (buffer ++ [statement]) (bare source rest)) result) :
    Ends (collectStatements · buffer tokenizer) result := by
  obtain ⟨n, hn⟩ := hstatement
  obtain ⟨k, hk⟩ := hlater
  refine .shift (max n k) 1 ?_
  intro fuel hfuel
  rw [collectStatements]
  show tokenizer.peek.bind _ = _
  rw [h.peek]
  show (if closes (headToken lexemes) = true then _ else _ : Parsing (List Node))
    (peeked source lexemes) = _
  rw [hbegin]
  show (parseStatement fuel (peeked source lexemes)).bind _ = _
  rw [show parseStatement fuel (peeked source lexemes) = _ from hn fuel (by omega)]
  show (if statement.isNil = true then _ else _ : Parsing (List Node)) (peeked source _) = _
  rw [hnil]
  show (store 32 buffer statement (peeked source _)).bind _ = _
  rw [store_eq hroom]
  exact hk fuel (by omega)

theorem primary_block {arguments temporaries : List (List Char)} {statements : List Node}
    {first second : Tokenizer} (h : Stands source (.special '[' :: lexemes) tokenizer)
    (harguments : Ends (parseBlockArguments · (bare source lexemes)) (arguments, first))
    (htemporaries : Ends (parseTemporaries · first) (temporaries, second))
    (hstatements : Ends (collectStatements · [] second)
      (statements, peeked source (.special ']' :: rest))) :
    Ends (parsePrimary · tokenizer)
      (blockNode arguments temporaries statements, bare source rest) := by
  obtain ⟨n, hn⟩ := harguments
  obtain ⟨k, hk⟩ := htemporaries
  obtain ⟨m, hm⟩ := hstatements
  refine .shift (max n (max k m)) 2 ?_
  intro fuel hfuel
  rw [parsePrimary]
  show tokenizer.peek.bind _ = _
  rw [h.peek]
  show parseBlock (fuel + 1) (peeked source (.special '[' :: lexemes)) = _
  rw [parseBlock]
  show (parseBlockArguments fuel (bare source lexemes)).bind _ = _
  rw [show parseBlockArguments fuel (bare source lexemes) = _ from hn fuel (by omega)]
  show (parseTemporaries fuel first).bind _ = _
  rw [show parseTemporaries fuel first = _ from hk fuel (by omega)]
  show (collectStatements fuel [] second).bind _ = _
  rw [show collectStatements fuel [] second = _ from hm fuel (by omega)]
  rfl

end LivingObjects.Smalltalk
