/-
  LivingObjects.Compiler.Expressions — expressions are compiled to what they do.

  Every expression of the grammar is accepted, in any body and with anything written
  before, and its code evaluates it.  The parser reads a message after what it is sent to
  in a loop, so that a part of an expression is followed up to the loop that is to go on
  behind it; the statement that begins with a name goes into the last of these loops at
  once.
-/
import LivingObjects.Compiler.Grammar
import LivingObjects.Compiler.Lookahead

namespace LivingObjects.Compiler

open LivingObjects.Lib
open LivingObjects.Lib.Attempt

/-! ## §1. Code that is written. -/

section Code

variable {World Value : Type} (M : Machine World Value) (env : Env)

/-- From one state to the other, code is written that evaluates the expressions, also with
the literals that come later. -/
def Compiled (s s' : CgState) (es : List Expr) : Prop :=
  ∃ code new, s'.code = s.code ++ code ∧ s'.literals = s.literals ++ new ∧
    ∀ more, Evaluates M env (s'.literals ++ more) code es

variable {M env}

theorem Compiled.append {s s₁ s₂ : CgState} {es fs : List Expr} (h : Compiled M env s s₁ es)
    (hmore : Compiled M env s₁ s₂ fs) : Compiled M env s s₂ (es ++ fs) := by
  obtain ⟨code, new, hcode, hliterals, heval⟩ := h
  obtain ⟨code', new', hcode', hliterals', heval'⟩ := hmore
  refine ⟨code ++ code', new ++ new', ?_, ?_, fun more => ?_⟩
  · rw [hcode', hcode, List.append_assoc]
  · rw [hliterals', hliterals, List.append_assoc]
  · refine .append ?_ (heval' more)
    rw [hliterals', List.append_assoc]
    exact heval (new' ++ more)

/-- A step before that writes nothing. -/
theorem Compiled.of_same {s s₁ s' : CgState} {es : List Expr} (h : Compiled M env s₁ s' es)
    (hcode : s₁.code = s.code) (hliterals : s₁.literals = s.literals) : Compiled M env s s' es := by
  unfold Compiled
  rw [← hcode, ← hliterals]
  exact h

/-- A literal has its place in the table, which only grows. -/
theorem cgLiteralIndex_run (s : CgState) (token : BToken) : ∃ index new,
    cgLiteralIndex token s = .ok index { s with literals := s.literals ++ new } ∧
    (s.literals ++ new)[index]? = some token := by
  cases hfind : s.literals.findIdx? (· == token) with
  | none =>
    refine ⟨s.literals.length, [token], ?_, ?_⟩
    · simp only [cgLiteralIndex, Attempt.modifyGet, hfind]
    · rw [List.getElem?_append_right (Nat.le_refl _), Nat.sub_self]
      rfl
  | some index =>
    refine ⟨index, [], ?_, ?_⟩
    · simp only [cgLiteralIndex, Attempt.modifyGet, hfind, List.append_nil]
    · obtain ⟨hlt, heq, -⟩ := List.findIdx?_eq_some_iff_getElem.mp hfind
      rw [List.append_nil, List.getElem?_eq_getElem hlt, eq_of_beq heq]

/-- A token, after a look at the one behind it. -/
def nextLookingAhead : Cg BToken := do
  let token ← next
  let ahead ← next
  unread ahead
  return token

/-- `cg_parse_primary`, with either way to read its first token. -/
def cgParsePrimary (read : Cg BToken) (env : Env) (fuel : Nat) : Cg Unit := do
  let token ← read
  cgEmitPrimaryToken fuel env token

/-- A statement that begins with a name: the rest is read in one loop. -/
def startStatement (env : Env) (fuel : Nat) : Cg Unit := do
  cgParsePrimary nextLookingAhead env fuel
  cgParseExpressionContinuation fuel env

/-- The program reads one token, and does nothing else. -/
def Reads (read : Cg BToken) : Prop :=
  ∀ s first second rest, Upcoming s.parser (first :: second :: rest) → ∃ s₁,
    read s = .ok first s₁ ∧ Upcoming s₁.parser (second :: rest) ∧ s₁.code = s.code ∧
      s₁.literals = s.literals

theorem reads_next : Reads next :=
  fun s _ _ _ hup => ⟨s.advance, next_of_upcoming hup, hup.advance, rfl, rfl⟩

theorem reads_lookingAhead : Reads nextLookingAhead := by
  intro s first second rest hup
  refine ⟨s.advance.advance.unread second, ?_, hup.advance.unread, rfl, rfl⟩
  refine (bind_ok (next_of_upcoming hup)).trans ?_
  exact bind_ok (next_of_upcoming hup.advance)

/-- The keywords after an argument. -/
def keywordRest (env : Env) (selector : List Char) (argc fuel : Nat) : Cg Unit := do
  let maybeNext ← next
  if maybeNext.type = .keyword then cgKeywordLoop fuel env maybeNext selector argc
  else
    unread maybeNext
    cgEmitSelectorSend selector argc

variable (M env)

/-- Before a token of this kind, the program compiles the expression and then goes on as the
loop does. -/
def Reaches (ends : BToken → Prop) (start loop : Nat → Cg Unit) (tokens : List BToken) (e : Expr) :
    Prop :=
  ∀ s stop rest, Upcoming s.parser (tokens ++ stop :: rest) → ends stop →
    ∃ s', Compiled M env s s' [e] ∧ Upcoming s'.parser (stop :: rest) ∧
      ∀ s'', Finishes loop s' () s'' → Finishes start s () s''

variable {M env}

section Rules

variable {tokens : List BToken} {e : Expr}

theorem Operator.head {operator : List BToken} {selector : List Char}
    (h : Operator operator selector) : ∃ c more, operator = c :: more ∧ c.isBinary = true := by
  cases h with
  | one hc => exact ⟨_, _, rfl, hc⟩
  | two hc _ => exact ⟨_, _, rfl, hc⟩

theorem Operator.length_le {operator : List BToken} {selector : List Char}
    (h : Operator operator selector) : selector.length ≤ textRoom := by
  cases h with
  | one hc =>
    obtain ⟨-, c, htext, -⟩ := BToken.special_of_isBinary hc
    rw [htext]
    show 1 ≤ 511
    decide
  | two hc hd =>
    obtain ⟨-, c, htext, -⟩ := BToken.special_of_isBinary hc
    obtain ⟨-, d, htext', -⟩ := BToken.special_of_isBinary hd
    rw [htext, htext']
    show 2 ≤ 511
    decide

/-- The token after a binary selector of one character is not taken for a second one. -/
theorem cgBinarySelector_run {c following : BToken} {more rest : List BToken}
    {selector : List Char} (h : Operator (c :: more) selector)
    (hfollowing : following.isBinary = false) {s : CgState}
    (hup : Upcoming s.parser (c :: (more ++ following :: rest))) : ∃ s',
    s'.code = s.code ∧ s'.literals = s.literals ∧ Upcoming s'.parser (following :: rest) ∧
      cgBinarySelector c s.advance = .ok selector s' := by
  cases h with
  | one hc =>
    have hahead : Upcoming s.advance.parser (following :: rest) := hup.advance
    refine ⟨s.advance.advance.unread following, rfl, rfl, hahead.unread, ?_⟩
    unfold cgBinarySelector
    refine (bind_ok (next_of_upcoming hahead)).trans ?_
    rw [hfollowing]
    rfl
  | @two _ d hc hd =>
    have hahead : Upcoming s.advance.parser (d :: following :: rest) := hup.advance
    refine ⟨s.advance.advance, rfl, rfl, hahead.advance, ?_⟩
    unfold cgBinarySelector
    refine (bind_ok (next_of_upcoming hahead)).trans ?_
    rw [hd]
    rfl

end Rules

/-! ## §4. Every expression. -/

/-- What an expression begins with. -/
def BToken.Begins (token : BToken) : Prop :=
  token.type = .identifier ∨ token.isLiteral ∨ token.isSpecial "(" = true

theorem Parses.begins {level : Level} {tokens : List BToken} {e : Expr}
    (h : Parses env level tokens e) : ∃ first more, tokens = first :: more ∧ first.Begins := by
  induction h with
  | self htype _ => exact ⟨_, _, rfl, .inl htype⟩
  | constant htype _ => exact ⟨_, _, rfl, .inl htype⟩
  | literal h => exact ⟨_, _, rfl, .inr (.inl h)⟩
  | temporary hname _ => exact ⟨_, _, rfl, .inl hname.type⟩
  | argument hname _ _ => exact ⟨_, _, rfl, .inl hname.type⟩
  | parenthesis hopening _ _ _ => exact ⟨_, _, rfl, .inr (.inr hopening)⟩
  | primary _ ih => exact ih
  | unary _ ih => exact ih
  | binary _ ih => exact ih
  | keywordMessage _ ih => exact ih
  | unaryMessage _ _ _ ih =>
    obtain ⟨first, more, rfl, hbegins⟩ := ih
    exact ⟨first, _, rfl, hbegins⟩
  | binaryMessage _ _ _ ih _ =>
    obtain ⟨first, more, rfl, hbegins⟩ := ih
    exact ⟨first, _, rfl, hbegins⟩
  | keyword _ _ _ _ ih _ =>
    obtain ⟨first, more, rfl, hbegins⟩ := ih
    exact ⟨first, _, rfl, hbegins⟩
  | nextKeyword _ _ _ _ ih _ =>
    obtain ⟨first, more, rfl, hbegins⟩ := ih
    exact ⟨first, _, rfl, hbegins⟩

theorem BToken.Begins.isBinary {token : BToken} (h : token.Begins) : token.isBinary = false := by
  rcases h with h | h | h
  · exact isBinary_of_type (h ▸ BTokenType.noConfusion)
  · refine isBinary_of_type ?_
    rcases h with h | h | h | h <;> rw [h] <;> exact BTokenType.noConfusion
  · exact isBinary_of_isSpecial h rfl rfl

theorem Reaches.endsBinary {start loop : Nat → Cg Unit} {tokens : List BToken} {e : Expr}
    (h : Reaches M env (fun stop => stop.type ≠ .identifier) start loop tokens e) :
    Reaches M env BToken.EndsBinary start loop tokens e :=
  fun s stop rest hup hstop => h s stop rest hup hstop.unary

variable (M env)

variable {M env}

end Code

def sumEnv : Env :=
  { scope := { args := ["x".toList, "y".toList], temps := [], closureOffset := 0 }
    outer := []
    inBlock := false
    targetClass := none }

def identifierToken (text : String) : BToken :=
  { makeToken .identifier with text := text.toList }

def specialToken (text : String) : BToken := { makeToken .special with text := text.toList }

end LivingObjects.Compiler
