/-
  LivingObjects.Smalltalk.ParserReads — the parser on the texts that good nodes are printed as.

  Reading at a level says that an expression is read whatever stands behind it: a message
  goes on with the receiver that was just read.  Every good node is read at the level it
  is printed at, one case for each rule of the printed grammar.
-/
import LivingObjects.Smalltalk.ParserSteps

namespace LivingObjects.Smalltalk

open Node LivingObjects.Smalltalk.Parser

variable {source : List Char}

/-! ## §1. How printed text begins. -/

/-- The lexemes that an expression can begin with. -/
def Lexeme.begins : Lexeme → Bool
  | .identifier _ | .literalArray | .special '[' | .special '(' => true
  | lexeme => lexeme.isLiteral

/-- What the first lexeme of an expression tells: a literal there is the first literal. -/
structure BeginsAt (level : Level) (node : Node) (lexemes : List Lexeme) : Prop where
  nonempty : ∃ lexeme rest, lexemes = lexeme :: rest ∧ lexeme.begins = true ∧
    (lexeme.token.text = ['|'] → node.firstLiteral level = some lexeme.token)

theorem Lexeme.Plain.name_ne_bar {name : List Char} (h : (Lexeme.identifier name).Plain) :
    name ≠ ['|'] := by
  intro heq
  have hrest : ∀ c ∈ name, isIdentifierChar c = true := h.valid.rest
  rw [heq] at hrest
  exact nomatch hrest '|' (List.mem_singleton_self _)

theorem BeginsAt.append {level : Level} {node : Node} {lexemes : List Lexeme}
    (h : BeginsAt level node lexemes) (later : List Lexeme) :
    BeginsAt level node (lexemes ++ later) := by
  obtain ⟨lexeme, rest, rfl, hbegins, hbar⟩ := h.nonempty
  exact ⟨lexeme, rest ++ later, rfl, hbegins, hbar⟩

/-- A message begins as its receiver does. -/
theorem BeginsAt.message {level inner : Level} {receiver : Node} {selector : List Char}
    {arguments : List Node} {lexemes : List Lexeme} (h : BeginsAt inner receiver lexemes)
    (hinner : (messageLevel selector arguments).receiver = inner)
    (hlevel : ¬ level.rank < (messageLevel selector arguments).rank) (later : List Lexeme) :
    BeginsAt level (messageNode receiver selector arguments) (lexemes ++ later) := by
  obtain ⟨lexeme, rest, rfl, hbegins, hbar⟩ := h.nonempty
  refine ⟨lexeme, rest ++ later, rfl, hbegins, ?_⟩
  intro htext
  rw [Node.firstLiteral, if_neg hlevel, hinner]
  exact hbar htext

theorem binary_level {selector : List Char} (h : (Lexeme.binary selector).Plain)
    (argument : Node) : messageLevel selector [argument] = .binary := by
  have hstarts : startsWith isBinarySelectorChar selector = true := by
    obtain ⟨a, rfl, ha⟩ | ⟨a, b, rfl, ha, _⟩ := h.valid
    · exact ha
    · exact ha
  rw [messageLevel, if_neg (by exact nofun), if_pos hstarts]

theorem isBinarySelectorChar_of_first {c : Char} (h : (c.isAlpha || c == '_') = true) :
    isBinarySelectorChar c = false := by
  by_contra hbinary
  obtain ⟨_, _, _, _, _, hletter, _⟩ := binary_start (Bool.not_eq_false _ ▸ hbinary)
  exact nomatch h.symm.trans hletter

theorem keyword_level {name : List Char} (h : (Lexeme.keyword name).Plain)
    (names : List (List Char)) (argument : Node) (arguments : List Node) :
    messageLevel (selectorOf (name :: names)) (argument :: arguments) = .keyword := by
  obtain ⟨⟨c, cs, rfl, hc⟩, _⟩ : IsName name := h.valid
  have hstarts : startsWith isBinarySelectorChar (selectorOf ((c :: cs) :: names)) = false :=
    isBinarySelectorChar_of_first hc
  rw [messageLevel, if_neg (by exact nofun), hstarts]
  rfl

/-- **What a printed expression begins with.** -/
theorem Prints.beginsAt {level : Level} {node : Node} {lexemes : List Lexeme} :
    Prints level node lexemes → BeginsAt level node lexemes
  | @Prints.literal _ lexeme hliteral _ => by
    refine ⟨lexeme, [], rfl, ?_, fun _ => rfl⟩
    cases lexeme with
    | integer | character | string | symbol | quotedSymbol | binarySymbol => rfl
    | _ => exact nomatch hliteral
  | .variable hplain => ⟨_, [], rfl, rfl, fun htext => absurd htext hplain.name_ne_bar⟩
  | .literalArray _ _ | .block _ _ _ _ | .parenthesized _ _ => ⟨_, _, rfl, rfl, nofun⟩
  | .unary hlevel h _ => by
    refine h.beginsAt.message rfl ?_ _
    exact Nat.not_lt.mpr hlevel
  | .binary hlevel h hplain _ => by
    refine h.beginsAt.message ?_ ?_ _
    · rw [binary_level hplain]
      rfl
    · rw [binary_level hplain]
      exact Nat.not_lt.mpr hlevel
  | .keyword h hne harguments _ _ => by
    cases harguments with
    | nil => exact absurd rfl hne
    | cons hplain _ _ =>
      refine h.beginsAt.message ?_ ?_ _
      · rw [keyword_level hplain]
        rfl
      · rw [keyword_level hplain]
        exact Nat.lt_irrefl _

/-! ## §2. Reading at a level. -/

/-- An expression is read at a level, with any lexemes behind it that end the level: what a
reader of messages makes of the rest is the outcome. -/
def ReadsAt (source : List Char) (node : Node) (lexemes : List Lexeme) : Level → Prop
  | .primary => ∀ rest tokenizer, Stands source (lexemes ++ rest) tokenizer →
      Ends (parsePrimary · tokenizer) (node, bare source rest)
  | .unary => ∀ rest tokenizer result, Stands source (lexemes ++ rest) tokenizer →
      (node.isVariable = false → (headToken rest).isSpecialText ":=" = false) →
      (∀ later, Stands source rest later →
        Ends (parseUnaryContinuation · node later) result) →
      Ends (parseUnaryExpression · tokenizer) result
  | .binary => ∀ rest tokenizer result, Stands source (lexemes ++ rest) tokenizer →
      (node.isVariable = false → (headToken rest).isSpecialText ":=" = false) →
      (headToken rest).isIdentifier = false →
      (∀ later, Stands source rest later →
        Ends (parseBinaryContinuation · node later) result) →
      Ends (parseBinaryExpression · tokenizer) result
  | .keyword => ∀ rest tokenizer, Stands source (lexemes ++ rest) tokenizer →
      (node.isVariable = false → (headToken rest).isSpecialText ":=" = false) →
      (headToken rest).isIdentifier = false → (headToken rest).isBinarySelector = false →
      (headToken rest).isKeyword = false →
      Ends (parseKeywordExpression · tokenizer) (node, peeked source rest)

variable {node : Node} {lexemes : List Lexeme}

theorem AllPlain.append_right {lexemes rest : List Lexeme} (h : AllPlain (lexemes ++ rest)) :
    AllPlain rest :=
  fun lexeme hlexeme => h lexeme (List.mem_append_right _ hlexeme)

theorem ReadsAt.unary_of_primary (hnil : node.isNil = false)
    (h : ReadsAt source node lexemes .primary) : ReadsAt source node lexemes .unary := by
  intro rest tokenizer result hstands _ hlater
  have hbare : Stands source rest (bare source rest) := .bare hstands.plain.append_right
  exact unary_expression hnil (h rest tokenizer hstands) (hlater _ hbare)

theorem ReadsAt.binary_of_unary (hnil : node.isNil = false)
    (h : ReadsAt source node lexemes .unary) : ReadsAt source node lexemes .binary := by
  intro rest tokenizer result hstands hassign hend hlater
  have hlooked : Stands source rest (peeked source rest) := .peeked hstands.plain.append_right
  have hunary := h rest tokenizer (node, peeked source rest) hstands hassign
    fun later hstands => unary_end hstands hend
  exact binary_expression hnil hunary (hlater _ hlooked)

theorem ReadsAt.keyword_of_binary (hnil : node.isNil = false)
    (h : ReadsAt source node lexemes .binary) : ReadsAt source node lexemes .keyword := by
  intro rest tokenizer hstands hassign hend hbinary hkeyword
  have hread := h rest tokenizer (node, peeked source rest) hstands hassign hend
    fun later hstands => binary_end hstands hbinary
  exact keyword_none hnil hread hkeyword

/-- An expression that is read at a level is read at every higher one. -/
theorem ReadsAt.mono {level higher : Level} (hnil : node.isNil = false)
    (h : ReadsAt source node lexemes level) (hle : level.rank ≤ higher.rank) :
    ReadsAt source node lexemes higher := by
  have hunary : level.rank ≤ Level.unary.rank → ReadsAt source node lexemes .unary := by
    intro hrank
    cases level with
    | primary => exact h.unary_of_primary hnil
    | unary => exact h
    | binary | keyword => exact absurd hrank (by decide)
  have hbinary : level.rank ≤ Level.binary.rank → ReadsAt source node lexemes .binary := by
    intro hrank
    cases level with
    | primary | unary => exact (hunary (by decide)).binary_of_unary hnil
    | binary => exact h
    | keyword => exact absurd hrank (by decide)
  cases higher with
  | primary =>
    cases level with
    | primary => exact h
    | unary | binary | keyword => exact absurd hle (by decide)
  | unary => exact hunary hle
  | binary => exact hbinary hle
  | keyword =>
    cases level with
    | primary | unary | binary => exact (hbinary (by decide)).keyword_of_binary hnil
    | keyword => exact h

theorem Prints.not_nil {level : Level} {node : Node} {lexemes : List Lexeme} :
    Prints level node lexemes → node.isNil = false
  | .literal _ _ | .variable _ | .literalArray _ _ | .block _ _ _ _ => rfl
  | .unary _ _ _ | .binary _ _ _ _ | .keyword _ _ _ _ _ => rfl
  | .parenthesized _ h => h.not_nil

/-! ## §3. One lemma for each rule of the grammar. -/

theorem reads_unary {receiver : Node} {selector : List Char}
    (h : ReadsAt source receiver lexemes .unary) :
    ReadsAt source (messageNode receiver selector []) (lexemes ++ [.identifier selector])
      .unary := by
  intro rest tokenizer result hstands hassign hlater
  rw [List.append_assoc] at hstands
  refine h (.identifier selector :: rest) tokenizer result hstands (fun _ => rfl) ?_
  intro later hmessage
  have hrest : Stands source rest (peeked source rest) := .peeked hmessage.plain.tail
  exact unary_message hmessage (hassign rfl) (hlater _ hrest)

theorem reads_binary (selector : List Char) {receiver argument : Node} {later : List Lexeme}
    (h : ReadsAt source receiver lexemes .binary) (hnil : argument.isNil = false)
    (hargument : ReadsAt source argument later .unary) :
    ReadsAt source (messageNode receiver selector [argument])
      (lexemes ++ .binary selector :: later) .binary := by
  intro rest tokenizer result hstands hassign hend hlater
  rw [List.append_assoc] at hstands
  refine h (.binary selector :: (later ++ rest)) tokenizer result hstands (fun _ => rfl) rfl ?_
  intro after hmessage
  have hread := hargument rest _ (argument, peeked source rest) hmessage.tail
    (fun _ => hassign rfl) fun after hstands => unary_end hstands hend
  have hrest : Stands source rest (peeked source rest) :=
    .peeked hmessage.plain.tail.append_right
  exact binary_message hmessage hnil hread (hlater _ hrest)

/-- A token that ends an expression. -/
structure EndsExpression (token : Token) : Prop where
  identifier : token.isIdentifier = false
  binary : token.isBinarySelector = false
  keyword : token.isKeyword = false

/-- The keywords and the arguments of a message are read with any receiver. -/
def ReadsArguments (source : List Char) (names : List (List Char)) (arguments : List Node)
    (lexemes : List Lexeme) : Prop :=
  ∀ rest tokenizer receiver selBuf argsBuf, Stands source (lexemes ++ rest) tokenizer →
    (selBuf ++ selectorOf names).length ≤ 64 → (argsBuf ++ arguments).length ≤ 8 →
    (headToken rest).isSpecialText ":=" = false → EndsExpression (headToken rest) →
    Ends (parseKeywordContinuation · receiver selBuf argsBuf tokenizer)
      (messageNode receiver (selBuf ++ selectorOf names) (argsBuf ++ arguments),
        peeked source rest)

theorem reads_arguments_nil : ReadsArguments source [] [] [] := by
  intro rest tokenizer receiver selBuf argsBuf hstands _ _ _ hend
  rw [show selectorOf [] = [] from rfl, List.append_nil, List.append_nil]
  exact arguments_end hstands hend.keyword

/-- What comes behind an argument: the next keyword, or the end. -/
theorem PrintsArguments.headToken {names : List (List Char)} {arguments : List Node}
    (h : PrintsArguments names arguments lexemes) {rest : List Lexeme}
    (hassign : (Smalltalk.headToken rest).isSpecialText ":=" = false)
    (hend : EndsExpression (Smalltalk.headToken rest)) :
    (Smalltalk.headToken (lexemes ++ rest)).isSpecialText ":=" = false ∧
      (Smalltalk.headToken (lexemes ++ rest)).isIdentifier = false ∧
      (Smalltalk.headToken (lexemes ++ rest)).isBinarySelector = false := by
  cases h with
  | nil => exact ⟨hassign, hend.identifier, hend.binary⟩
  | cons hplain h hlater => exact ⟨rfl, rfl, rfl⟩

theorem reads_arguments_cons (name : List Char) {names : List (List Char)} {argument : Node}
    {arguments : List Node} {later : List Lexeme} (hnil : argument.isNil = false)
    (h : ReadsAt source argument lexemes .binary)
    (hprints : PrintsArguments names arguments later)
    (hlater : ReadsArguments source names arguments later) :
    ReadsArguments source (name :: names) (argument :: arguments)
      (.keyword name :: (lexemes ++ later)) := by
  intro rest tokenizer receiver selBuf argsBuf hstands hselector hroom hassign hend
  obtain ⟨hassign', hidentifier, hbinary⟩ := hprints.headToken hassign hend
  have hkeyword : Stands source (.keyword name :: (lexemes ++ (later ++ rest))) tokenizer := by
    rw [← List.append_assoc]
    exact hstands
  have hread := h (later ++ rest) _ (argument, peeked source (later ++ rest)) hkeyword.tail
    (fun _ => hassign') hidentifier fun after hstands => binary_end hstands hbinary
  have hrest : Stands source (later ++ rest) (peeked source (later ++ rest)) :=
    .peeked hkeyword.plain.tail.append_right
  have hparts : selBuf ++ selectorOf (name :: names) =
      selBuf ++ (name ++ [':']) ++ selectorOf names := by
    rw [List.append_assoc]
    rfl
  have hargs : argsBuf ++ argument :: arguments = argsBuf ++ [argument] ++ arguments := by
    rw [List.append_assoc, List.singleton_append]
  rw [hparts] at hselector ⊢
  rw [hargs] at hroom ⊢
  have hnext := hlater rest _ receiver _ _ hrest hselector hroom hassign hend
  have hfirst : (selBuf ++ (name ++ [':'])).length ≤ 64 := by
    rw [List.length_append] at hselector
    omega
  have hstore : argsBuf.length < 8 := by
    rw [List.length_append, List.length_append, List.length_singleton] at hroom
    omega
  exact arguments_next hkeyword hfirst hnil hstore hread hnext

/-- A keyword message to what is no block. -/
theorem reads_keyword {receiver argument : Node} {name : List Char} {names : List (List Char)}
    {arguments : List Node} {first later : List Lexeme}
    (h : ReadsAt source receiver lexemes .binary) (hnil : receiver.isNil = false)
    (hblock : receiver.isBlock = false)
    (harguments : ReadsArguments source (name :: names) (argument :: arguments)
      (.keyword name :: (first ++ later)))
    (hroom : (argument :: arguments).length ≤ 8)
    (hselector : (selectorOf (name :: names)).length ≤ 64) :
    ReadsAt source (messageNode receiver (selectorOf (name :: names)) (argument :: arguments))
      (lexemes ++ .keyword name :: (first ++ later)) .keyword := by
  intro rest tokenizer hstands hassign hidentifier hbinary hkeyword
  rw [List.append_assoc] at hstands
  have hreceiver := h _ tokenizer (receiver, peeked source _) hstands (fun _ => rfl) rfl
    fun after hstands => binary_end hstands rfl
  have hlooked : Stands source (.keyword name :: (first ++ later) ++ rest) (peeked source _) :=
    .peeked hstands.plain.append_right
  have hmessage := harguments rest _ receiver [] [] hlooked hselector hroom (hassign rfl)
    ⟨hidentifier, hbinary, hkeyword⟩
  exact keyword_message hnil hblock hreceiver hmessage

/-- A message of one keyword to a block. -/
theorem reads_keyword_block {receiver argument : Node} {name : List Char}
    {later : List Lexeme} (h : ReadsAt source receiver lexemes .binary)
    (hnil : receiver.isNil = false) (hblock : receiver.isBlock = true)
    (hargument : ReadsAt source argument later .binary) :
    ReadsAt source (messageNode receiver (selectorOf [name]) [argument])
      (lexemes ++ .keyword name :: later) .keyword := by
  have hselector : selectorOf [name] = name ++ [':'] := List.append_nil _
  rw [hselector]
  intro rest tokenizer hstands hassign hidentifier hbinary hkeyword
  rw [List.append_assoc] at hstands
  have hreceiver := h _ tokenizer (receiver, peeked source _) hstands (fun _ => rfl) rfl
    fun after hstands => binary_end hstands rfl
  have hbare : Stands source (later ++ rest) (bare source (later ++ rest)) :=
    .bare hstands.plain.append_right.tail
  have hread := hargument rest _ (argument, peeked source rest) hbare (fun _ => hassign rfl)
    hidentifier fun after hstands => binary_end hstands hbinary
  exact keyword_block hnil hblock hreceiver hread

theorem reads_parenthesized (h : ReadsAt source node lexemes .keyword) :
    ReadsAt source node (.special '(' :: (lexemes ++ [.special ')'])) .primary := by
  intro rest tokenizer hstands
  have hopen : Stands source (.special '(' :: (lexemes ++ .special ')' :: rest)) tokenizer := by
    have hlexemes : .special '(' :: (lexemes ++ [.special ')']) ++ rest =
        .special '(' :: (lexemes ++ .special ')' :: rest) := by
      rw [List.cons_append, List.append_assoc, List.singleton_append]
    rw [← hlexemes]
    exact hstands
  have hread := h (.special ')' :: rest) _ hopen.tail (fun _ => rfl) rfl rfl rfl
  exact primary_parenthesized hopen hread

/-- The elements of a literal array and the parenthesis that closes it. -/
def ReadsElements (source : List Char) (elements : List Node) (lexemes : List Lexeme) : Prop :=
  ∀ rest tokenizer buffer, Stands source (lexemes ++ .special ')' :: rest) tokenizer →
    (buffer ++ elements).length ≤ 32 →
    Ends (collectLiteralArrayElements · buffer tokenizer)
      (literalArrayNode (buffer ++ elements), bare source rest)

theorem reads_elements_nil : ReadsElements source [] [] := by
  intro rest tokenizer buffer hstands _
  rw [List.append_nil]
  exact elements_end hstands

theorem room_of_cons {α : Type} {buffer elements : List α} {element : α} {room : Nat}
    (h : (buffer ++ element :: elements).length ≤ room) :
    buffer.length < room ∧ (buffer ++ [element] ++ elements).length ≤ room := by
  rw [List.append_assoc, List.singleton_append]
  rw [List.length_append, List.length_cons] at h
  exact ⟨by omega, by rw [List.length_append, List.length_cons]; exact h⟩

theorem reads_elements_literal {lexeme : Lexeme} {elements : List Node}
    (helement : lexeme.isElement = true) (h : ReadsElements source elements lexemes) :
    ReadsElements source (literalNode lexeme.literalValue lexeme.token :: elements)
      (lexeme :: lexemes) := by
  intro rest tokenizer buffer hstands hroom
  obtain ⟨hstore, hlater⟩ := room_of_cons hroom
  have hread := h rest _ _ hstands.tail hlater
  rw [List.append_assoc, List.singleton_append] at hread
  exact elements_literal hstands helement hstore hread

theorem reads_elements_array {inner elements : List Node} {later : List Lexeme}
    (hinner : ReadsElements source inner lexemes) (hinnerRoom : inner.length ≤ 32)
    (h : ReadsElements source elements later) :
    ReadsElements source (literalArrayNode inner :: elements)
      (.literalArray :: (lexemes ++ .special ')' :: later)) := by
  intro rest tokenizer buffer hstands hroom
  obtain ⟨hstore, hlater⟩ := room_of_cons hroom
  have harray : Stands source (.literalArray :: (lexemes ++ .special ')' ::
      (later ++ .special ')' :: rest))) tokenizer := by
    have hlexemes : .literalArray :: (lexemes ++ .special ')' :: later) ++ .special ')' :: rest =
        .literalArray :: (lexemes ++ .special ')' :: (later ++ .special ')' :: rest)) := by
      rw [List.cons_append, List.append_assoc, List.cons_append]
    rw [← hlexemes]
    exact hstands
  have hfirst := hinner _ _ [] harray.tail hinnerRoom
  have hbare : Stands source (later ++ .special ')' :: rest) (bare source _) :=
    .bare harray.plain.tail.append_right.tail
  have hread := h rest _ _ hbare hlater
  rw [List.append_assoc, List.singleton_append] at hread
  exact elements_array harray hstore hfirst hread

theorem reads_literalArray {elements : List Node} (h : ReadsElements source elements lexemes)
    (hroom : elements.length ≤ 32) :
    ReadsAt source (literalArrayNode elements)
      (.literalArray :: (lexemes ++ [.special ')'])) .primary := by
  intro rest tokenizer hstands
  have hopen : Stands source (.literalArray :: (lexemes ++ .special ')' :: rest)) tokenizer := by
    have hlexemes : .literalArray :: (lexemes ++ [.special ')']) ++ rest =
        .literalArray :: (lexemes ++ .special ')' :: rest) := by
      rw [List.cons_append, List.append_assoc, List.singleton_append]
    rw [← hlexemes]
    exact hstands
  exact primary_literalArray hopen (h rest _ [] hopen.tail hroom)

/-! ## §4. Statements. -/

/-- What a token that an expression begins with is not. -/
theorem Lexeme.begins_token {lexeme : Lexeme} (h : lexeme.begins = true) :
    closes lexeme.token = false ∧ lexeme.token.isSpecialText "^" = false ∧
      lexeme.token.isSpecialText ":" = false ∧ isAngle ['<'] lexeme.token = false := by
  cases lexeme with
  | special value =>
    rw [Lexeme.begins.eq_def] at h
    split at h <;> rename_i heq
    · exact nomatch heq
    · exact nomatch heq
    · injection heq with hvalue
      subst hvalue
      exact ⟨by decide, by decide, by decide, by decide⟩
    · injection heq with hvalue
      subst hvalue
      exact ⟨by decide, by decide, by decide, by decide⟩
    · exact nomatch h
  | identifier | integer | character | string | symbol | quotedSymbol | binarySymbol =>
    exact ⟨rfl, rfl, rfl, rfl⟩
  | literalArray => exact ⟨by decide, by decide, by decide, by decide⟩
  | keyword | binary | assignment | colon => exact nomatch h

theorem lexeme_not_eof (lexeme : Lexeme) : lexeme.token.isEof = false := by
  cases lexeme <;> rfl

theorem Lexeme.token_special {lexeme : Lexeme} {text : String}
    (h : lexeme.token.isSpecialText text = true) :
    lexeme.token = Smalltalk.special text.toList := by
  rw [Token.isSpecialText, Bool.and_eq_true, beq_iff_eq, beq_iff_eq] at h
  obtain ⟨htype, htext⟩ := h
  cases lexeme with
  | assignment | colon | special | literalArray =>
    rw [← htext]
    rfl
  | _ => exact nomatch htype

/-- Statements are closed by the end of the text or by the bracket of their block. -/
theorem closes_cases {rest : List Lexeme} (h : closes (headToken rest) = true) :
    headToken rest = Token.eof ∨ headToken rest = Smalltalk.special [']'] := by
  cases rest with
  | nil => exact .inl rfl
  | cons lexeme rest =>
    rw [closes, Bool.or_eq_true] at h
    rcases h with heof | hbracket
    · exact nomatch (lexeme_not_eof lexeme).symm.trans heof
    · exact .inr (Lexeme.token_special hbracket)

/-- A statement ends before a period and where the statements end. -/
def endsStatement (token : Token) : Bool := closes token || token.isSpecialText "."

theorem endsStatement_ends {rest : List Lexeme} (h : endsStatement (headToken rest) = true) :
    (headToken rest).isSpecialText ":=" = false ∧ EndsExpression (headToken rest) := by
  rw [endsStatement, Bool.or_eq_true] at h
  rcases h with hcloses | hperiod
  · rcases closes_cases hcloses with hrest | hrest
    · rw [hrest]
      exact ⟨by decide, by decide, by decide, by decide⟩
    · rw [hrest]
      exact ⟨by decide, by decide, by decide, by decide⟩
  · cases rest with
    | nil => exact nomatch hperiod
    | cons lexeme rest =>
      rw [headToken, Lexeme.token_special hperiod]
      exact ⟨by decide, by decide, by decide, by decide⟩

def ReadsStatement (source : List Char) (node : Node) (lexemes : List Lexeme) : Prop :=
  ∀ rest tokenizer, Stands source (lexemes ++ rest) tokenizer →
    endsStatement (headToken rest) = true →
    Ends (parseStatement · tokenizer) (node, peeked source rest)

theorem reads_statement_expression {level : Level} (hnil : node.isNil = false)
    (hbegins : BeginsAt level node lexemes) (h : ReadsAt source node lexemes .keyword) :
    ReadsStatement source node lexemes := by
  intro rest tokenizer hstands hends
  obtain ⟨hassign, hend⟩ := endsStatement_ends hends
  obtain ⟨lexeme, more, rfl, hfirst, _⟩ := hbegins.nonempty
  obtain ⟨_, hcaret, _⟩ := Lexeme.begins_token hfirst
  have hread := h rest _ hstands.looked (fun _ => hassign) hend.identifier hend.binary
    hend.keyword
  exact statement_other hstands hcaret (statement_expression hnil hread hassign)

theorem reads_statement_return (h : ReadsAt source node lexemes .keyword) :
    ReadsStatement source (returnNode node) (.special '^' :: lexemes) := by
  intro rest tokenizer hstands hends
  obtain ⟨hassign, hend⟩ := endsStatement_ends hends
  have hread := h rest _ hstands.tail (fun _ => hassign) hend.identifier hend.binary hend.keyword
  exact statement_return hstands hread

theorem reads_statement_assignment {name : List Char}
    (h : ReadsAt source node lexemes .keyword) :
    ReadsStatement source (assignmentNode (variableNode name) node)
      (.identifier name :: .assignment :: lexemes) := by
  intro rest tokenizer hstands hends
  obtain ⟨hassign, hend⟩ := endsStatement_ends hends
  have hstands : Stands source (.identifier name :: .assignment :: (lexemes ++ rest)) tokenizer :=
    hstands
  have hvariable : ReadsAt source (variableNode name) [.identifier name] .keyword := by
    have hprimary : ReadsAt source (variableNode name) [.identifier name] .primary :=
      fun rest tokenizer hstands => primary_variable hstands
    exact hprimary.mono rfl (by decide)
  have hbare : Stands source (lexemes ++ rest) (bare source _) := .bare hstands.plain.tail.tail
  have htarget := hvariable (.assignment :: (lexemes ++ rest)) _ hstands.looked nofun rfl rfl rfl
  have hread := h rest _ hbare (fun _ => hassign) hend.identifier hend.binary hend.keyword
  exact statement_other hstands rfl (statement_assignment htarget hread)

theorem PrintsStatement.not_nil (h : PrintsStatement node lexemes) : node.isNil = false := by
  cases h with
  | expression h => exact h.not_nil
  | assignment | «return» => rfl

/-- Statements up to what closes them. -/
def ReadsStatements (source : List Char) (statements : List Node) (lexemes : List Lexeme) :
    Prop :=
  ∀ rest tokenizer buffer, Stands source (lexemes ++ rest) tokenizer →
    closes (headToken rest) = true → (buffer ++ statements).length ≤ 32 →
    Ends (collectStatements · buffer tokenizer) (buffer ++ statements, peeked source rest)

theorem reads_statements_nil : ReadsStatements source [] [] := by
  intro rest tokenizer buffer hstands hcloses _
  rw [List.append_nil]
  exact statements_end hstands hcloses

/-- What a token at the beginning of a statement is not. -/
structure BeginsStatement (node : Node) (token : Token) : Prop where
  closes : closes token = false
  colon : token.isSpecialText ":" = false
  angle : isAngle ['<'] token = false
  bar : token.text = ['|'] → node.firstLiteral .keyword = some token

def Begun (node : Node) (lexemes : List Lexeme) : Prop :=
  ∃ lexeme rest, lexemes = lexeme :: rest ∧ BeginsStatement node lexeme.token

theorem PrintsStatement.begun (h : PrintsStatement node lexemes) : Begun node lexemes := by
  cases h with
  | expression h =>
    obtain ⟨lexeme, rest, rfl, hbegins, hbar⟩ := h.beginsAt.nonempty
    obtain ⟨hcloses, _, hcolon, hangle⟩ := Lexeme.begins_token hbegins
    exact ⟨lexeme, rest, rfl, hcloses, hcolon, hangle, hbar⟩
  | assignment hplain _ =>
    exact ⟨_, _, rfl, rfl, rfl, rfl, fun htext => absurd htext hplain.name_ne_bar⟩
  | «return» _ => exact ⟨_, _, rfl, by decide, by decide, by decide, nofun⟩

theorem reads_statements_one (hnil : node.isNil = false) (hbegun : Begun node lexemes)
    (h : ReadsStatement source node lexemes) : ReadsStatements source [node] lexemes := by
  intro rest tokenizer buffer hstands hcloses hroom
  obtain ⟨lexeme, more, rfl, hfirst⟩ := hbegun
  have hends : endsStatement (headToken rest) = true := by
    rw [endsStatement, hcloses]
    rfl
  have hperiod : (headToken rest).isSpecialText "." = false := by
    rcases closes_cases hcloses with hrest | hrest
    · rw [hrest]
      rfl
    · rw [hrest]
      decide
  have hread := h rest _ hstands.looked hends
  exact statements_last hstands hfirst.closes hread hnil (room_of_cons hroom).1
    hperiod

theorem reads_statements_cons {statements : List Node} {later : List Lexeme}
    (hnil : node.isNil = false) (hbegun : Begun node lexemes)
    (h : ReadsStatement source node lexemes) (hlater : ReadsStatements source statements later) :
    ReadsStatements source (node :: statements) (lexemes ++ .special '.' :: later) := by
  intro rest tokenizer buffer hstands hcloses hroom
  obtain ⟨hstore, hroom⟩ := room_of_cons hroom
  rw [List.append_assoc, List.cons_append] at hstands
  have hbare : Stands source (later ++ rest) (bare source _) :=
    .bare hstands.plain.append_right.tail
  obtain ⟨lexeme, more, rfl, hfirst⟩ := hbegun
  have hread := h (.special '.' :: (later ++ rest)) _ hstands.looked rfl
  have hnext := hlater rest _ _ hbare hcloses hroom
  rw [List.append_assoc, List.singleton_append] at hnext
  exact statements_next hstands hfirst.closes hread hnil hstore hnext

/-! ## §5. Every good node. -/

/-- What stands first where statements may: nothing that goes on with the names before, and
a bar only where it is a literal. -/
theorem PrintsStatements.first {statements : List Node} (h : PrintsStatements statements lexemes)
    {rest : List Lexeme} (hcloses : closes (headToken rest) = true) :
    (headToken (lexemes ++ rest)).isSpecialText ":" = false ∧
      isAngle ['<'] (headToken (lexemes ++ rest)) = false ∧
      ((headToken (lexemes ++ rest)).text = ['|'] → BeginsWithBar [] statements) := by
  have hfirst : ∀ {statement : Node} {lexemes later : List Lexeme},
      PrintsStatement statement lexemes →
      (headToken (lexemes ++ later)).isSpecialText ":" = false ∧
        isAngle ['<'] (headToken (lexemes ++ later)) = false ∧
        ((headToken (lexemes ++ later)).text = ['|'] →
          statement.firstLiteral .keyword = some (headToken (lexemes ++ later))) := by
    intro statement lexemes later h
    obtain ⟨lexeme, more, rfl, hbegins⟩ := h.begun
    exact ⟨hbegins.colon, hbegins.angle, hbegins.bar⟩
  cases h with
  | nil =>
    rw [List.nil_append]
    rcases closes_cases hcloses with hrest | hrest
    · rw [hrest]
      exact ⟨by decide, by decide, nofun⟩
    · rw [hrest]
      exact ⟨by decide, by decide, nofun⟩
  | one h =>
    obtain ⟨hcolon, hangle, hbar⟩ := hfirst h
    exact ⟨hcolon, hangle, fun htext => ⟨rfl, _, _, rfl, hbar htext, htext⟩⟩
  | cons h hlater =>
    rw [List.append_assoc]
    obtain ⟨hcolon, hangle, hbar⟩ := hfirst h
    exact ⟨hcolon, hangle, fun htext => ⟨rfl, _, _, rfl, hbar htext, htext⟩⟩

theorem stands_either (source : List Char) (names : List (List Char)) {lexemes : List Lexeme}
    (hplain : AllPlain lexemes) :
    Stands source lexemes (if names = [] then peeked source lexemes else bare source lexemes) := by
  split
  · exact .peeked hplain
  · exact .bare hplain

/-- The bar in front of temporaries is neither a colon nor the bracket of a primitive. -/
theorem temporaries_first {names : List (List Char)} {rest : List Lexeme} :
    ((headToken rest).isSpecialText ":" = false →
      (headToken (temporaryLexemes names ++ rest)).isSpecialText ":" = false) ∧
    (isAngle ['<'] (headToken rest) = false →
      isAngle ['<'] (headToken (temporaryLexemes names ++ rest)) = false) := by
  cases names with
  | nil => exact ⟨id, id⟩
  | cons name names =>
    have hbar : isAngle ['<'] (Lexeme.binary ['|']).token = false := by decide
    exact ⟨fun _ => rfl, fun _ => hbar⟩

theorem reads_block {arguments temporaries : List (List Char)} {statements : List Node}
    (harguments : Names 8 arguments) (htemporaries : Names 16 temporaries)
    (hprints : PrintsStatements statements lexemes) (hroom : statements.length ≤ 32)
    (h : ReadsStatements source statements lexemes)
    (hbar : ¬ BeginsWithBar temporaries statements) :
    ReadsAt source (blockNode arguments temporaries statements)
      (.special '[' :: (argumentLexemes arguments ++ (temporaryLexemes temporaries ++
        (lexemes ++ [.special ']'])))) .primary := by
  intro rest tokenizer hstands
  have hopen : Stands source (.special '[' :: (argumentLexemes arguments ++
      (temporaryLexemes temporaries ++ (lexemes ++ .special ']' :: rest)))) tokenizer := by
    have hlexemes : .special '[' :: (argumentLexemes arguments ++ (temporaryLexemes temporaries ++
        (lexemes ++ [.special ']']))) ++ rest = .special '[' :: (argumentLexemes arguments ++
        (temporaryLexemes temporaries ++ (lexemes ++ .special ']' :: rest))) := by
      rw [List.cons_append, List.append_assoc, List.append_assoc, List.append_assoc,
        List.singleton_append]
    rw [← hlexemes]
    exact hstands
  obtain ⟨hcolon, _, hbegins⟩ := @PrintsStatements.first _ _ hprints (.special ']' :: rest) rfl
  have hafter := hopen.plain.tail.append_right
  have hnames := blockArguments_read harguments hopen.tail (temporaries_first.1 hcolon)
  have hfirst := stands_either source arguments hafter
  have htemps := temporaries_read htemporaries hfirst fun htemps htext =>
    hbar (htemps ▸ hbegins htext)
  have hsecond := stands_either source temporaries hafter.append_right
  have hbody := h (.special ']' :: rest) _ [] hsecond rfl hroom
  exact primary_block hopen hnames htemps hbody

mutual

theorem Prints.readsAt {level : Level} {node : Node} {lexemes : List Lexeme} :
    Prints level node lexemes → node.Good → ReadsAt source node lexemes level
  | @Prints.literal level lexeme hliteral hplain, _ => by
    have hread : ReadsAt source (literalNode lexeme.literalValue lexeme.token) [lexeme]
        .primary := fun rest tokenizer hstands => primary_literal hstands hliteral
    exact hread.mono rfl (Nat.zero_le _)
  | @Prints.variable level name _, _ => by
    have hread : ReadsAt source (variableNode name) [.identifier name] .primary :=
      fun rest tokenizer hstands => primary_variable hstands
    exact hread.mono rfl (Nat.zero_le _)
  | .literalArray h hroom, _ => by
    have hread := reads_literalArray h.reads hroom
    exact hread.mono rfl (Nat.zero_le _)
  | .block harguments htemporaries h hroom, hgood => by
    have hread := reads_block harguments htemporaries h hroom (h.reads hgood.1) hgood.2
    exact hread.mono rfl (Nat.zero_le _)
  | .unary hlevel h hplain, hgood => (reads_unary (h.readsAt hgood.1)).mono rfl hlevel
  | @Prints.binary _ _ _ selector _ _ hlevel h hplain hargument, hgood => by
    have hread := reads_binary selector (h.readsAt hgood.1) hargument.not_nil
      (hargument.readsAt hgood.2.1.1)
    exact hread.mono rfl hlevel
  | .keyword _ hne .nil _ _, _ => absurd rfl hne
  | @Prints.keyword receiver _ _ _ _ h hne (.cons _ hargument hlater) hroom hselector, hgood => by
    obtain ⟨hreceiver, harguments, hone⟩ := hgood
    cases hblock : receiver.isBlock with
    | false =>
      have hfirst := hargument.readsAt harguments.1
      have hread := hlater.reads harguments.2
      exact reads_keyword (h.readsAt hreceiver) h.not_nil hblock
        (reads_arguments_cons _ hargument.not_nil hfirst hlater hread) hroom hselector
    | true =>
      -- a block takes one keyword only
      cases hlater with
      | nil =>
        rw [List.append_nil]
        exact reads_keyword_block (h.readsAt hreceiver) h.not_nil hblock
          (hargument.readsAt harguments.1)
      | cons _ _ _ => exact absurd (hone hblock) (by simp)
  | .parenthesized hlevel h, hgood => by
    have hread := reads_parenthesized (h.readsAt hgood)
    exact hread.mono h.not_nil (Nat.zero_le _)

theorem PrintsArguments.reads {names : List (List Char)} {arguments : List Node}
    {lexemes : List Lexeme} :
    PrintsArguments names arguments lexemes → AllGood arguments →
      ReadsArguments source names arguments lexemes
  | .nil, _ => reads_arguments_nil
  | .cons _ h hlater, hgood =>
    reads_arguments_cons _ h.not_nil (h.readsAt hgood.1) hlater (hlater.reads hgood.2)

theorem PrintsElements.reads {elements : List Node} {lexemes : List Lexeme} :
    PrintsElements elements lexemes → ReadsElements source elements lexemes
  | .nil => reads_elements_nil
  | .literal h _ hlater => reads_elements_literal h hlater.reads
  | .array h hroom hlater => reads_elements_array h.reads hroom hlater.reads

theorem PrintsStatement.reads {node : Node} {lexemes : List Lexeme} :
    PrintsStatement node lexemes → node.Good → ReadsStatement source node lexemes
  | .expression h, hgood =>
    reads_statement_expression h.not_nil h.beginsAt (h.readsAt hgood)
  | .assignment _ h, hgood => reads_statement_assignment (h.readsAt hgood.2)
  | .return h, hgood => reads_statement_return (h.readsAt hgood)

theorem PrintsStatements.reads {statements : List Node} {lexemes : List Lexeme} :
    PrintsStatements statements lexemes → AllGood statements →
      ReadsStatements source statements lexemes
  | .nil, _ => reads_statements_nil
  | .one h, hgood => reads_statements_one h.not_nil h.begun (h.reads hgood.1)
  | .cons h hlater, hgood =>
    reads_statements_cons h.not_nil h.begun (h.reads hgood.1) (hlater.reads hgood.2)

end

end LivingObjects.Smalltalk
