/-
  LivingObjects.Smalltalk.ParserTight — every method of the parser against the lexemes it takes.

  By induction on the fuel, for all the methods that call each other at once: what a method
  makes weighs no more than the lexemes it has taken, and is good where it weighs as much.
-/
import LivingObjects.Smalltalk.ParserWeights

namespace LivingObjects.Smalltalk

open Node LivingObjects.Smalltalk.Parser

variable {source : List Char} {lexemes rest start : List Lexeme} {tokenizer after : Tokenizer}
  {node : Node} {level : Level}

/-! ## §1. What is kept while a method runs. -/

/-- A receiver with the keywords and arguments of its message up to some lexeme. -/
structure Gathered (start : List Lexeme) (receiver : Node) (selBuf : List Char)
    (argsBuf : List Node) (lexemes : List Lexeme) : Prop where
  weighs : Weighs (receiver.size .binary + elementsSize .binary argsBuf + argsBuf.length)
    (receiver.Good ∧ AllGood argsBuf) (receiver.firstLiteral .binary) start lexemes
  selector : startsWith isBinarySelectorChar selBuf = false
  begun : argsBuf = [] → (headToken lexemes).isKeyword = true

variable {fuel : Nat}

/-- A unary message to a node that was read. -/
theorem Made.unaryMessage {receiver : Node} {selector : List Char}
    (h : Weighs (receiver.size .unary) receiver.Good (receiver.firstLiteral .unary) start
      (.identifier selector :: rest))
    (hrest : At source rest after) :
    Made source .unary start (messageNode receiver selector []) after := by
  have hsize : (messageNode receiver selector []).size .unary = receiver.size .unary + 1 := rfl
  have hbound := h.le
  rw [List.length_cons] at hbound
  refine ⟨rest, hrest, by omega, ?_⟩
  intro htight
  obtain ⟨hgood, hfirst⟩ := h.tight (by rw [List.length_cons]; omega)
  exact ⟨⟨hgood, trivial, fun _ => Nat.zero_le _⟩, hfirst⟩

/-- A binary message to a node that was read. -/
theorem Made.binaryMessage {receiver argument : Node} {selector : List Char} {later : List Lexeme}
    (hplain : (Lexeme.binary selector).Plain)
    (h : Weighs (receiver.size .binary) receiver.Good (receiver.firstLiteral .binary) start
      (.binary selector :: later))
    (hargument : Made source .unary later argument after) :
    Made source .binary start (messageNode receiver selector [argument]) after := by
  obtain ⟨rest, hrest, hweighs⟩ := hargument
  have hlevel := binary_level hplain argument
  have hsize : (messageNode receiver selector [argument]).size .binary =
      receiver.size .binary + argument.size .unary + 1 := by
    rw [Node.size, hlevel]
    rfl
  have hfirst : (messageNode receiver selector [argument]).firstLiteral .binary =
      receiver.firstLiteral .binary := by
    rw [Node.firstLiteral, hlevel]
    rfl
  have hbound := h.le
  have hbound' := hweighs.le
  rw [List.length_cons] at hbound
  refine ⟨rest, hrest, by omega, ?_⟩
  intro htight
  obtain ⟨hgood, hhead⟩ := h.tight (by rw [List.length_cons]; omega)
  obtain ⟨hargument, _⟩ := hweighs.tight (by omega)
  rw [hfirst]
  exact ⟨⟨hgood, ⟨hargument, trivial⟩, fun _ => Nat.le_refl _⟩, hhead⟩

/-- One keyword message with an argument that was read. -/
theorem Gathered.next {receiver argument : Node} {name selBuf : List Char}
    {argsBuf : List Node} {later rest : List Lexeme} (hplain : (Lexeme.keyword name).Plain)
    (h : Gathered start receiver selBuf argsBuf (.keyword name :: later))
    (hargument : Weighs (argument.size .binary) argument.Good (argument.firstLiteral .binary)
      later rest) :
    Gathered start receiver (selBuf ++ (name ++ [':'])) (argsBuf ++ [argument]) rest := by
  have hbound := h.weighs.le
  have hbound' := hargument.le
  rw [List.length_cons] at hbound
  refine ⟨⟨?_, ?_⟩, ?_, ?_⟩
  · rw [elementsSize_append, List.length_append, List.length_singleton]
    show _ + (_ + (argument.size .binary + 0)) + _ + _ ≤ _
    omega
  · rw [elementsSize_append, List.length_append, List.length_singleton]
    show _ + (_ + (argument.size .binary + 0)) + _ + _ = _ → _
    intro htight
    obtain ⟨hgood, hfirst⟩ := h.weighs.tight (by rw [List.length_cons]; omega)
    obtain ⟨hargument, _⟩ := hargument.tight (by omega)
    exact ⟨⟨hgood.1, allGood_append hgood.2 ⟨hargument, trivial⟩⟩, hfirst⟩
  · obtain ⟨⟨c, cs, rfl, hc⟩, _⟩ : IsName name := hplain.valid
    cases selBuf with
    | nil => exact isBinarySelectorChar_of_first hc
    | cons first selBuf => exact h.selector
  · intro hargs
    exact absurd hargs (by simp)

/-- The message that was gathered. -/
theorem Gathered.made {receiver : Node} {selBuf : List Char} {argsBuf : List Node}
    (h : Gathered start receiver selBuf argsBuf rest) (hargs : argsBuf ≠ [])
    (hblock : receiver.isBlock = true → argsBuf.length ≤ 1) (hrest : At source rest after) :
    Made source .keyword start (messageNode receiver selBuf argsBuf) after := by
  have hempty : argsBuf.isEmpty = false := by
    cases argsBuf with
    | nil => exact absurd rfl hargs
    | cons argument argsBuf => rfl
  have hlevel : messageLevel selBuf argsBuf = .keyword := by
    rw [messageLevel, hempty, h.selector]
    rfl
  have hsize : (messageNode receiver selBuf argsBuf).size .keyword =
      receiver.size .binary + elementsSize .binary argsBuf + argsBuf.length := by
    rw [Node.size, hlevel, selectorSize, hempty]
    rfl
  have hfirst : (messageNode receiver selBuf argsBuf).firstLiteral .keyword =
      receiver.firstLiteral .binary := by
    rw [Node.firstLiteral, hlevel]
    rfl
  refine ⟨rest, hrest, ?_, ?_⟩
  · rw [hsize]
    exact h.weighs.le
  · rw [hsize, hfirst]
    intro htight
    obtain ⟨⟨hgood, hargsGood⟩, hhead⟩ := h.weighs.tight htight
    exact ⟨⟨hgood, hargsGood, hblock⟩, hhead⟩

end LivingObjects.Smalltalk
