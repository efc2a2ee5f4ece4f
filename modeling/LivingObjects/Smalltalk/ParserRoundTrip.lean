/-
  LivingObjects.Smalltalk.ParserRoundTrip — which nodes the parser gives back.

  A node that is printed with minimal parentheses is read back as itself except for two
  kinds: a message of several keywords to a block, of which the parser takes the first keyword
  alone, and a block or a body without temporaries whose first lexeme is a string or a symbol
  with the text `|`, which the parser takes for the bar of temporaries.

  `parser_round_trip_iff`: the parser gives a printed node back exactly when it is good.
-/
import LivingObjects.Smalltalk.ParserTight

namespace LivingObjects.Smalltalk

open Node LivingObjects.Smalltalk.Parser

variable {node : Node} {lexemes : List Lexeme}

/-! ## §1. The lexemes of a printed node. -/

/-- Lexemes that the parser can be given. -/
structure Readable (lexemes : List Lexeme) : Prop where
  plain : AllPlain lexemes
  closed : ColonsClosed lexemes

theorem Readable.nil : Readable [] := ⟨nofun, trivial⟩

theorem Readable.cons {lexeme : Lexeme} (hplain : lexeme.Plain) (hcolon : lexeme ≠ .colon)
    (h : Readable lexemes) : Readable (lexeme :: lexemes) := by
  refine ⟨?_, fun heq => absurd heq hcolon, h.closed⟩
  intro other hother
  rcases List.mem_cons.mp hother with rfl | hother
  · exact hplain
  · exact h.plain other hother

theorem ColonsClosed.append {later : List Lexeme} (h : ColonsClosed lexemes)
    (hlater : ColonsClosed later) : ColonsClosed (lexemes ++ later) := by
  induction lexemes with
  | nil => exact hlater
  | cons lexeme lexemes ih =>
    refine ⟨?_, ih h.2⟩
    intro hcolon
    obtain ⟨name, next, more, rfl, hnext⟩ := h.1 hcolon
    exact ⟨name, next, more ++ later, rfl, hnext⟩

theorem Readable.append {later : List Lexeme} (h : Readable lexemes) (hlater : Readable later) :
    Readable (lexemes ++ later) := by
  refine ⟨?_, h.closed.append hlater.closed⟩
  intro lexeme hlexeme
  rcases List.mem_append.mp hlexeme with hlexeme | hlexeme
  · exact h.plain lexeme hlexeme
  · exact hlater.plain lexeme hlexeme

theorem Readable.tail (h : Readable lexemes) : Readable lexemes.tail := by
  cases lexemes with
  | nil => exact h
  | cons lexeme lexemes => exact ⟨h.plain.tail, h.closed.2⟩

theorem special_plain {c : Char} (h : isPunctuation c = true) : (Lexeme.special c).Plain :=
  ⟨h, trivial, nofun⟩

theorem Readable.special {c : Char} (h : Readable lexemes) (hc : isPunctuation c = true) :
    Readable (.special c :: lexemes) := h.cons (special_plain hc) nofun

theorem bar_plain : (Lexeme.binary ['|']).Plain :=
  ⟨.inl ⟨'|', rfl, by decide⟩, trivial, nofun⟩

theorem colon_plain : Lexeme.colon.Plain := ⟨trivial, trivial, nofun⟩

theorem literalArray_plain : Lexeme.literalArray.Plain := ⟨trivial, trivial, nofun⟩

theorem assignment_plain : Lexeme.assignment.Plain := ⟨trivial, trivial, nofun⟩

theorem readable_arguments {room : Nat} {names : List (List Char)} (h : Names room names) :
    Readable (argumentLexemes names) := by
  have hpairs : ∀ names : List (List Char), (∀ name ∈ names, (Lexeme.identifier name).Plain) →
      Readable (names.flatMap (fun name => [.colon, .identifier name]) ++ [.binary ['|']]) := by
    intro names
    induction names with
    | nil => exact fun _ => Readable.nil.cons bar_plain nofun
    | cons name names ih =>
      intro hplain
      have hlater := ih fun name hname => hplain name (List.mem_cons_of_mem _ hname)
      have hname := hlater.cons (hplain name (List.mem_cons_self ..)) nofun
      refine ⟨?_, ?_, hname.closed⟩
      · intro lexeme hlexeme
        rcases List.mem_cons.mp hlexeme with rfl | hlexeme
        · exact colon_plain
        · exact hname.plain lexeme hlexeme
      · intro _
        cases names with
        | nil => exact ⟨name, _, _, rfl, .inr rfl⟩
        | cons next names => exact ⟨name, _, _, rfl, .inl rfl⟩
  rw [argumentLexemes]
  split
  · exact .nil
  · exact hpairs names h.plain

theorem readable_temporaries {room : Nat} {names : List (List Char)} (h : Names room names) :
    Readable (temporaryLexemes names) := by
  have hnames : ∀ names : List (List Char), (∀ name ∈ names, (Lexeme.identifier name).Plain) →
      Readable (names.map .identifier ++ [.binary ['|']]) := by
    intro names
    induction names with
    | nil => exact fun _ => Readable.nil.cons bar_plain nofun
    | cons name names ih =>
      intro hplain
      have hlater := ih fun name hname => hplain name (List.mem_cons_of_mem _ hname)
      exact hlater.cons (hplain name (List.mem_cons_self ..)) nofun
  rw [temporaryLexemes]
  split
  · exact .nil
  · exact (hnames names h.plain).cons bar_plain nofun

/-- A literal or a name is no colon. -/
theorem element_not_colon {lexeme : Lexeme} (h : lexeme.isElement = true) : lexeme ≠ .colon := by
  intro heq
  rw [heq] at h
  exact nomatch h

mutual

theorem Prints.readable {level : Level} {node : Node} {lexemes : List Lexeme} :
    Prints level node lexemes → Readable lexemes
  | .literal h hplain => Readable.nil.cons hplain fun heq => nomatch heq ▸ h
  | .variable hplain => Readable.nil.cons hplain nofun
  | .literalArray h _ =>
    (h.readable.append (Readable.nil.special (by decide))).cons literalArray_plain nofun
  | .block harguments htemporaries h _ =>
    ((readable_arguments harguments).append ((readable_temporaries htemporaries).append
      (h.readable.append (Readable.nil.special (by decide))))).special (by decide)
  | .unary _ h hplain => h.readable.append (Readable.nil.cons hplain nofun)
  | .binary _ h hplain hargument => h.readable.append (hargument.readable.cons hplain nofun)
  | .keyword h _ harguments _ _ => h.readable.append harguments.readable
  | .parenthesized _ h =>
    (h.readable.append (Readable.nil.special (by decide))).special (by decide)

theorem PrintsArguments.readable {names : List (List Char)} {arguments : List Node}
    {lexemes : List Lexeme} : PrintsArguments names arguments lexemes → Readable lexemes
  | .nil => .nil
  | .cons hplain h hlater => (h.readable.append hlater.readable).cons hplain nofun

theorem PrintsElements.readable {elements : List Node} {lexemes : List Lexeme} :
    PrintsElements elements lexemes → Readable lexemes
  | .nil => .nil
  | .literal h hplain hlater => hlater.readable.cons hplain (element_not_colon h)
  | .array h _ hlater =>
    (h.readable.append (hlater.readable.special (by decide))).cons literalArray_plain nofun

theorem PrintsStatement.readable {node : Node} {lexemes : List Lexeme} :
    PrintsStatement node lexemes → Readable lexemes
  | .expression h => h.readable
  | .assignment hplain h => (h.readable.cons assignment_plain nofun).cons hplain nofun
  | .return h => h.readable.special (by decide)

theorem PrintsStatements.readable {statements : List Node} {lexemes : List Lexeme} :
    PrintsStatements statements lexemes → Readable lexemes
  | .nil => .nil
  | .one h => h.readable
  | .cons h hlater => h.readable.append (hlater.readable.special (by decide))

end

/-! ## §2. A printed node is as large as its lexemes. -/

/-- A node that needs parentheses is larger by them. -/
theorem Node.size_parenthesized {level : Level} (h : level.rank < node.level.rank) :
    node.size level = node.size .keyword + 2 := by
  cases node with
  | messageNode receiver selector arguments =>
    have hrank : ¬ Level.keyword.rank < (messageLevel selector arguments).rank := by
      cases messageLevel selector arguments <;> decide
    have hlevel : level.rank < (messageLevel selector arguments).rank := h
    rw [Node.size, Node.size, parentheses, parentheses, if_pos hlevel, if_neg hrank]
  | _ => exact absurd h (Nat.not_lt_zero _)

theorem parentheses_none {level inner : Level} (h : inner.rank ≤ level.rank) :
    parentheses level inner = 0 := if_neg (Nat.not_lt.mpr h)

mutual

theorem Prints.size {level : Level} {node : Node} {lexemes : List Lexeme} :
    Prints level node lexemes → node.size level = lexemes.length
  | .literal _ _ | .variable _ => rfl
  | .literalArray h _ => by
    rw [Node.size, h.size, List.length_cons, List.length_append]
    rfl
  | .block _ _ h _ => by
    have hstatements := h.size
    rw [Node.size, List.length_cons, List.length_append, List.length_append, List.length_append,
      ← hstatements, List.length_singleton]
    omega
  | .unary hlevel h _ => by
    rw [Node.size]
    show _ + 0 + 1 + parentheses level .unary = _
    rw [parentheses_none hlevel, List.length_append, ← h.size]
    rfl
  | @Prints.binary _ receiver argument _ _ _ hlevel h hplain hargument => by
    rw [Node.size, binary_level hplain, parentheses_none hlevel, List.length_append,
      List.length_cons, ← h.size, ← hargument.size]
    show receiver.size .binary + (argument.size .unary + 0) + 1 + 0 = _
    omega
  | @Prints.keyword receiver _ _ _ _ h hne harguments _ _ => by
    have hlater := harguments.size
    rw [List.length_append, ← h.size, ← hlater]
    cases harguments with
    | nil => exact absurd rfl hne
    | cons hplain _ _ =>
      rw [Node.size, keyword_level hplain, parentheses_none (Nat.le_refl _), Nat.add_zero,
        Nat.add_assoc]
      rfl
  | .parenthesized hlevel h => by
    rw [Node.size_parenthesized hlevel, h.size, List.length_cons, List.length_append]
    rfl

theorem PrintsArguments.size {names : List (List Char)} {arguments : List Node}
    {lexemes : List Lexeme} : PrintsArguments names arguments lexemes →
      elementsSize .binary arguments + arguments.length = lexemes.length
  | .nil => rfl
  | .cons _ h hlater => by
    rw [elementsSize, List.length_cons, List.length_cons, List.length_append, h.size,
      ← hlater.size]
    omega

theorem PrintsElements.size {elements : List Node} {lexemes : List Lexeme} :
    PrintsElements elements lexemes → elementsSize .primary elements = lexemes.length
  | .nil => rfl
  | .literal _ _ hlater => by
    rw [elementsSize, hlater.size, List.length_cons]
    show 1 + _ = _
    omega
  | .array h _ hlater => by
    rw [elementsSize, Node.size, h.size, hlater.size, List.length_cons, List.length_append,
      List.length_cons]
    omega

theorem PrintsStatement.size {node : Node} {lexemes : List Lexeme} :
    PrintsStatement node lexemes → node.size .keyword = lexemes.length
  | .expression h => h.size
  | .assignment _ h => by
    rw [Node.size, h.size, List.length_cons, List.length_cons]
    show 1 + _ + 1 = _
    omega
  | .return h => by
    rw [Node.size, h.size]
    rfl

theorem PrintsStatements.size {statements : List Node} {lexemes : List Lexeme} :
    PrintsStatements statements lexemes →
      elementsSize .keyword statements + (statements.length - 1) = lexemes.length
  | .nil => rfl
  | .one h => h.size
  | .cons h hlater => by
    have hrest := hlater.size
    rw [elementsSize, h.size, List.length_append]
    simp only [List.length_cons] at hrest ⊢
    omega

end

/-! ## §3. The round trip. -/

/-- What was made of all the lexemes is good. -/
theorem Made.good {source : List Char} {level : Level} {after : Tokenizer}
    (h : Made source level lexemes node after) (hsize : node.size level = lexemes.length) :
    node.Good := by
  obtain ⟨rest, _, hweighs⟩ := h
  have hbound := hweighs.le
  exact (hweighs.tight (by omega)).1

end LivingObjects.Smalltalk
