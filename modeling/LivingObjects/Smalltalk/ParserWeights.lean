/-
  LivingObjects.Smalltalk.ParserWeights — no parse makes more of the lexemes than there are.

  The size of a node is the number of lexemes that it is printed with.  Whatever the parser
  makes of lexemes whose block arguments are closed is no larger than the lexemes it
  has read, and where it is as large, the node is good and begins with the lexeme that was
  first.
-/
import LivingObjects.Smalltalk.ParserReads

namespace LivingObjects.Smalltalk

open Node LivingObjects.Smalltalk.Parser

/-! ## §1. The size of a node. -/

/-- The level of the arguments of a message. -/
def Level.argument : Level → Level
  | .keyword => .binary
  | _ => .unary

/-- The two parentheses that a message needs at a level below its own. -/
def parentheses (level inner : Level) : Nat := if level.rank < inner.rank then 2 else 0

/-- The lexemes of a message but for those of its receiver and its arguments. -/
def selectorSize (arguments : List Node) : Nat :=
  if arguments.isEmpty then 1 else arguments.length

mutual

/-- How many lexemes a node is printed with. -/
def Node.size : Level → Node → Nat
  | _, nil => 0
  | _, literalNode _ _ => 1
  | _, literalArrayNode elements => elementsSize .primary elements + 2
  | _, variableNode _ => 1
  | level, messageNode receiver selector arguments =>
    receiver.size (messageLevel selector arguments).receiver +
      elementsSize (messageLevel selector arguments).argument arguments +
      selectorSize arguments + parentheses level (messageLevel selector arguments)
  | _, blockNode arguments temporaries statements =>
    (argumentLexemes arguments).length + (temporaryLexemes temporaries).length +
      elementsSize .keyword statements + (statements.length - 1) + 2
  | _, assignmentNode target value => target.size .keyword + value.size .keyword + 1
  | _, returnNode expression => expression.size .keyword + 1
  | _, sequenceNode temporaries statements =>
    (temporaryLexemes temporaries).length + elementsSize .keyword statements +
      (statements.length - 1)

def elementsSize : Level → List Node → Nat
  | _, [] => 0
  | level, node :: nodes => node.size level + elementsSize level nodes

end

theorem elementsSize_append (level : Level) (nodes later : List Node) :
    elementsSize level (nodes ++ later) = elementsSize level nodes + elementsSize level later := by
  induction nodes with
  | nil => rw [List.nil_append, elementsSize, Nat.zero_add]
  | cons node nodes ih => rw [List.cons_append, elementsSize, elementsSize, ih, Nat.add_assoc]

theorem allGood_append {nodes later : List Node} (h : AllGood nodes) (hlater : AllGood later) :
    AllGood (nodes ++ later) := by
  induction nodes with
  | nil => exact hlater
  | cons node nodes ih => exact ⟨h.1, ih h.2⟩

/-- A node is as large at a higher level, or smaller by parentheses. -/
theorem Node.size_mono (node : Node) {level higher : Level} (h : level.rank ≤ higher.rank) :
    node.size higher ≤ node.size level ∧ node.size level ≤ node.size higher + 2 ∧
      (node.size higher = node.size level → node.firstLiteral higher = node.firstLiteral level) ∧
      (node.size level = node.size higher + 2 → node.firstLiteral level = none) := by
  cases node with
  | messageNode receiver selector arguments =>
    rw [Node.size, Node.size, Node.firstLiteral, Node.firstLiteral]
    generalize messageLevel selector arguments = inner
    rw [parentheses, parentheses]
    by_cases hhigher : higher.rank < inner.rank
    · have hlevel : level.rank < inner.rank := by omega
      rw [if_pos hhigher, if_pos hlevel, if_pos hhigher, if_pos hlevel]
      exact ⟨Nat.le_refl _, Nat.le_add_right _ _, fun _ => rfl, fun _ => rfl⟩
    · rw [if_neg hhigher, if_neg hhigher]
      by_cases hlevel : level.rank < inner.rank
      · rw [if_pos hlevel, if_pos hlevel]
        exact ⟨by omega, by omega, fun h => by omega, fun _ => rfl⟩
      · rw [if_neg hlevel, if_neg hlevel]
        exact ⟨by omega, by omega, fun _ => rfl, fun h => by omega⟩
  | _ =>
    exact ⟨Nat.le_refl _, Nat.le_add_right _ _, fun _ => rfl,
      fun h => absurd h (Nat.ne_of_lt (Nat.lt_add_of_pos_right Nat.two_pos))⟩

/-! ## §2. What a parse makes of its lexemes. -/

/-- Every colon is followed by a name, and this by the next colon or by the bar. -/
def ColonsClosed : List Lexeme → Prop
  | [] => True
  | lexeme :: rest =>
    (lexeme = .colon → ∃ name next later, rest = .identifier name :: next :: later ∧
      (next = .colon ∨ next = .binary ['|'])) ∧ ColonsClosed rest

/-- A size against the lexemes from a start to a rest, and what holds where it is that
large. -/
structure Weighs (size : Nat) (good : Prop) (first : Option Token) (start rest : List Lexeme) :
    Prop where
  le : size + rest.length ≤ start.length
  tight : size + rest.length = start.length →
    good ∧ ∀ token, first = some token → headToken start = token

/-- A tokenizer in front of readable lexemes. -/
structure At (source : List Char) (lexemes : List Lexeme) (tokenizer : Tokenizer) : Prop where
  stands : Stands source lexemes tokenizer
  closed : ColonsClosed lexemes

/-- A node that the parser has read at a level from some start on. -/
def Made (source : List Char) (level : Level) (start : List Lexeme) (node : Node)
    (after : Tokenizer) : Prop :=
  ∃ rest, At source rest after ∧
    Weighs (node.size level) node.Good (node.firstLiteral level) start rest

theorem Weighs.nil {start rest : List Lexeme} (h : rest.length ≤ start.length) :
    Weighs 0 True none start rest :=
  ⟨by omega, fun _ => ⟨trivial, nofun⟩⟩

variable {source : List Char} {lexemes rest start : List Lexeme} {tokenizer after : Tokenizer}
  {node : Node} {level : Level}

section Runs

variable {α β : Type}

/-- The steps of a parse that ends. -/
theorem bind_some {p : Parsing α} {f : α → Parsing β} {result : β} 
    (h : (p >>= f) tokenizer = some (result, after)) :
    ∃ value later, p tokenizer = some (value, later) ∧ f value later = some (result, after) := by
  obtain ⟨⟨value, later⟩, hp, hf⟩ := Option.bind_eq_some_iff.mp h
  exact ⟨value, later, hp, hf⟩

theorem pure_some {value result : β}
    (h : (pure value : Parsing β) tokenizer = some (result, after)) :
    value = result ∧ tokenizer = after := by
  injection h with h
  injection h with hvalue htokenizer
  exact ⟨hvalue, htokenizer⟩

theorem next_bind (h : At source lexemes tokenizer) (f : Token → Parsing β) :
    (Parser.next >>= f) tokenizer = f (headToken lexemes) (bare source lexemes.tail) := by
  show tokenizer.next.bind _ = _
  rw [h.stands.next]
  rfl

end Runs

theorem At.peeked (h : At source lexemes tokenizer) :
    At source lexemes (Smalltalk.peeked source lexemes) := ⟨h.stands.looked, h.closed⟩

theorem ColonsClosed.tail (h : ColonsClosed lexemes) : ColonsClosed lexemes.tail := by
  cases lexemes with
  | nil => exact h
  | cons lexeme lexemes => exact h.2

theorem At.tail (h : At source lexemes tokenizer) :
    At source lexemes.tail (Smalltalk.bare source lexemes.tail) :=
  ⟨h.stands.tail, h.closed.tail⟩

/-- Nothing was made. -/
theorem Made.nil (hrest : At source rest after) (h : rest.length ≤ start.length) :
    Made source level start .nil after := ⟨rest, hrest, .nil h⟩

/-- What is no node has taken lexemes all the same. -/
theorem Made.none (h : Made source level start node after) :
    Made source level start .nil after := by
  obtain ⟨rest, hrest, hweighs⟩ := h
  have hbound := hweighs.le
  exact .nil hrest (by omega)

/-- The parser's answer at a higher level. -/
theorem Made.mono {higher : Level} (h : Made source level start node after)
    (hle : level.rank ≤ higher.rank) : Made source higher start node after := by
  obtain ⟨rest, hrest, hweighs⟩ := h
  obtain ⟨hsize, _, hfirst, _⟩ := node.size_mono hle
  have hbound := hweighs.le
  refine ⟨rest, hrest, by omega, ?_⟩
  intro htight
  have heq : node.size higher = node.size level := by omega
  rw [hfirst heq]
  exact hweighs.tight (by omega)

/-- A special token is one lexeme. -/
theorem of_special {text : String} (h : (headToken lexemes).isSpecialText text = true) :
    lexemes.tail.length + 1 = lexemes.length := by
  cases lexemes with
  | nil => exact nomatch h
  | cons lexeme rest => rfl

theorem store_some {α : Type} {room : Nat} {buffer result : List α} {element : α}
    (h : store room buffer element tokenizer = some (result, after)) :
    result = buffer ++ [element] ∧ tokenizer = after := by
  rw [store] at h
  split at h
  · obtain ⟨rfl, rfl⟩ := pure_some h
    exact ⟨rfl, rfl⟩
  · cases h

/-! ## §3. Literal arrays. -/

/-- An element that is one token. -/
theorem element_some {token : Token} {element : Parsing Node}
    (h : literalArrayToken token = some element ∨ nestedLiteralToken token = some element)
    (hrun : element tokenizer = some (node, after)) :
    tokenizer = after ∧ ∃ value, node = .literalNode value token := by
  have hcharacter : characterLiteral token tokenizer = some (node, after) →
      tokenizer = after ∧ ∃ value, node = .literalNode value token := by
    intro hrun
    obtain ⟨type, text, value⟩ := token
    cases value with
    | none => exact nomatch hrun
    | some value =>
      cases value with
      | integer value =>
        obtain ⟨hnode, hafter⟩ := pure_some hrun
        exact ⟨hafter, _, hnode.symm⟩
      | symbol => exact nomatch hrun
  have hpure : ∀ value, some (pure (.literalNode value token) : Parsing Node) = some element →
      tokenizer = after ∧ ∃ value, node = .literalNode value token := by
    intro value heq
    injection heq with heq
    rw [← heq] at hrun
    obtain ⟨rfl, rfl⟩ := pure_some hrun
    exact ⟨rfl, _, rfl⟩
  obtain ⟨type, text, value⟩ := token
  rcases h with h | h
  · cases type with
    | integer | symbol | identifier | keyword | binary | string => exact hpure _ h
    | character =>
      injection h with h
      exact hcharacter (h ▸ hrun)
    | _ => exact nomatch h
  · cases type with
    | integer | symbol | identifier | string => exact hpure _ h
    | _ => exact nomatch h

/-- The elements of a literal array up to some lexeme, with the lexeme that opens it. -/
abbrev Collected (start : List Lexeme) (buffer : List Node) (lexemes : List Lexeme) : Prop :=
  Weighs (elementsSize .primary buffer + 1) (AllGood buffer) none start lexemes

theorem Collected.next {buffer : List Node} {element : Node} {lexemes rest : List Lexeme}
    (h : Collected start buffer lexemes) {first : Option Token}
    (helement : Weighs (element.size .primary) element.Good first lexemes rest) :
    Collected start (buffer ++ [element]) rest := by
  have hbound := h.le
  have hbound' := helement.le
  have hsize : elementsSize .primary (buffer ++ [element]) =
      elementsSize .primary buffer + element.size .primary := by
    rw [elementsSize_append]
    rfl
  refine ⟨by omega, ?_⟩
  intro htight
  exact ⟨allGood_append (h.tight (by omega)).1 ⟨(helement.tight (by omega)).1, trivial⟩, nofun⟩

theorem Collected.made {buffer : List Node} {lexemes : List Lexeme}
    (h : Collected start buffer lexemes) (hclose : lexemes.tail.length + 1 = lexemes.length)
    (hrest : At source lexemes.tail after) :
    Made source .primary start (literalArrayNode buffer) after := by
  have hsize : (literalArrayNode buffer).size .primary = elementsSize .primary buffer + 2 := rfl
  have hbound := h.le
  refine ⟨lexemes.tail, hrest, by omega, ?_⟩
  intro htight
  exact ⟨(h.tight (by omega)).1, nofun⟩

/-- A literal takes its lexeme. -/
theorem literal_weighs {value : LiteralValue} {lexeme : Lexeme} (level : Level) :
    Weighs ((literalNode value lexeme.token).size level)
      (literalNode value lexeme.token).Good ((literalNode value lexeme.token).firstLiteral level)
      (lexeme :: rest) rest := by
  refine ⟨?_, ?_⟩
  · show 1 + rest.length ≤ rest.length + 1
    omega
  · exact fun _ => ⟨trivial, fun _ hfirst => Option.some.inj hfirst⟩

/-- One element is stored, and the next are collected. -/
theorem Collected.element {buffer : List Node} {element : Parsing Node} {fuel : Nat}
    {collect : Nat → List Node → Parsing Node}
    (hat : At source lexemes tokenizer) (h : Collected start buffer lexemes)
    (helement : literalArrayToken (headToken lexemes) = some element ∨
      nestedLiteralToken (headToken lexemes) = some element)
    (hrun : (do
      let _ ← Parser.next
      let elem ← element
      let buffer ← store 32 buffer elem
      collect fuel buffer : Parsing Node) (Smalltalk.peeked source lexemes) = some (node, after)) :
    ∃ element rest later, At source rest later ∧ Collected start (buffer ++ [element]) rest ∧
      collect fuel (buffer ++ [element]) later = some (node, after) := by
  cases lexemes with
  | nil => rcases helement with helement | helement <;> exact nomatch helement
  | cons lexeme rest =>
    rw [next_bind hat.peeked] at hrun
    obtain ⟨elem, later, helem, hrun⟩ := bind_some hrun
    obtain ⟨rfl, value, rfl⟩ := element_some helement helem
    obtain ⟨stored, last, hstore, hrun⟩ := bind_some hrun
    obtain ⟨rfl, rfl⟩ := store_some hstore
    exact ⟨_, rest, _, hat.tail, h.next (literal_weighs .primary), hrun⟩

/-- An array within is stored, and the next elements are collected. -/
theorem Collected.array {buffer : List Node} {fuel : Nat}
    {collect inner : Nat → List Node → Parsing Node} {text : String}
    (hat : At source lexemes tokenizer) (h : Collected start buffer lexemes)
    (hopen : (headToken lexemes).isSpecialText text = true)
    (hinner : ∀ {node after}, Collected lexemes [] lexemes.tail →
      inner fuel [] (bare source lexemes.tail) = some (node, after) →
      Made source .primary lexemes node after)
    (hrun : (do
      let _ ← Parser.next
      let elem ← inner fuel []
      let buffer ← store 32 buffer elem
      collect fuel buffer : Parsing Node) (Smalltalk.peeked source lexemes) = some (node, after)) :
    ∃ element rest later, At source rest later ∧ Collected start (buffer ++ [element]) rest ∧
      collect fuel (buffer ++ [element]) later = some (node, after) := by
  rw [next_bind hat.peeked] at hrun
  obtain ⟨elem, later, helem, hrun⟩ := bind_some hrun
  obtain ⟨stored, last, hstore, hrun⟩ := bind_some hrun
  obtain ⟨rfl, rfl⟩ := store_some hstore
  have hbegun : Collected lexemes [] lexemes.tail := by
    refine ⟨?_, fun _ => ⟨trivial, nofun⟩⟩
    have hfirst := of_special hopen
    show 0 + 1 + _ ≤ _
    omega
  obtain ⟨rest, hrest, hweighs⟩ := hinner hbegun helem
  exact ⟨elem, rest, later, hrest, h.next hweighs, hrun⟩

end LivingObjects.Smalltalk
