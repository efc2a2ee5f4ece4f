/-
  LivingObjects.Compiler.Lookahead — the tokens a parser is about to read.

  The parser puts a token back that it has read too early, and what it reads next stays the
  same.  With the tokens ahead known, one turn of each loop over the messages of an
  expression is an equation.
-/
import LivingObjects.Compiler.Codegen

namespace LivingObjects.Compiler

open LivingObjects.Lib
open LivingObjects.Lib.Attempt

/-! ## §1. The tokens ahead. -/

/-- The parser is about to read these tokens. -/
def Upcoming (p : BParser) : List BToken → Prop
  | [] => True
  | token :: tokens => (bpNext p).1 = token ∧ Upcoming (bpNext p).2 tokens

instance Upcoming.decidable : (p : BParser) → (tokens : List BToken) → Decidable (Upcoming p tokens)
  | _, [] => inferInstanceAs (Decidable True)
  | p, token :: tokens =>
    have := Upcoming.decidable (bpNext p).2 tokens
    inferInstanceAs (Decidable ((bpNext p).1 = token ∧ Upcoming (bpNext p).2 tokens))

/-- The state after a token. -/
def CgState.advance (s : CgState) : CgState := { s with parser := (bpNext s.parser).2 }

/-- The state in which the token can be read again. -/
def CgState.unread (s : CgState) (token : BToken) : CgState :=
  { s with parser := bpUnread s.parser token }

theorem next_of_upcoming {s : CgState} {token : BToken} {tokens : List BToken}
    (h : Upcoming s.parser (token :: tokens)) : next s = .ok token s.advance := by
  rw [← h.1]
  rfl

theorem Upcoming.advance {s : CgState} {token : BToken} {tokens : List BToken}
    (h : Upcoming s.parser (token :: tokens)) : Upcoming s.advance.parser tokens := h.2

/-- After a token the buffer is empty. -/
theorem bpNext_buffered (p : BParser) : (bpNext p).2.buffered = none := by
  cases hp : p.buffered with
  | none => simp only [bpNext, hp]
  | some token => simp only [bpNext, hp]

/-- **A token that is put back is ahead again.** -/
theorem Upcoming.unread {s : CgState} {token : BToken} {tokens : List BToken}
    (h : Upcoming s.parser (token :: tokens)) :
    Upcoming (s.advance.unread token).parser (token :: tokens) := by
  have hbuffered := bpNext_buffered s.parser
  have hnext : (bpNext (bpUnread (bpNext s.parser).2 token)).2 = (bpNext s.parser).2 := by
    show { (bpNext s.parser).2 with buffered := none } = (bpNext s.parser).2
    rw [← hbuffered]
  refine ⟨rfl, ?_⟩
  show Upcoming (bpNext (bpUnread (bpNext s.parser).2 token)).2 tokens
  rw [hnext]
  exact h.2

/-! ## §2. Kinds of tokens. -/

theorem BToken.special_of_isSpecial {token : BToken} {text : String}
    (h : token.isSpecial text = true) : token.type = .special ∧ token.text = text.toList := by
  simp only [BToken.isSpecial, Bool.and_eq_true, beq_iff_eq] at h
  exact h

theorem BToken.special_of_isBinary {token : BToken} (h : token.isBinary = true) :
    token.type = .special ∧ ∃ c, token.text = [c] ∧ isBinarySelectorChar c = true := by
  simp only [BToken.isBinary, Bool.and_eq_true, beq_iff_eq] at h
  obtain ⟨htype, h⟩ := h
  split at h
  · rename_i c htext
    exact ⟨htype, c, htext, h⟩
  · cases h

theorem BToken.isSpecial_of_type {token : BToken} (h : token.type ≠ .special) (text : String) :
    token.isSpecial text = false := by
  rw [BToken.isSpecial, beq_eq_false_iff_ne.mpr h, Bool.false_and]

theorem BToken.isBinary_of_type {token : BToken} (h : token.type ≠ .special) :
    token.isBinary = false := by
  rw [BToken.isBinary, beq_eq_false_iff_ne.mpr h, Bool.false_and]

/-- A token is one special text only. -/
theorem BToken.isSpecial_of_text {token : BToken} {text other : String}
    (h : token.isSpecial text = true) (hne : text.toList ≠ other.toList) :
    token.isSpecial other = false := by
  have htext := (special_of_isSpecial h).2
  rw [BToken.isSpecial, htext, beq_eq_false_iff_ne.mpr hne, Bool.and_false]

/-- A binary character is none of the others. -/
theorem BToken.isSpecial_of_isBinary {token : BToken} {text : String} (h : token.isBinary = true)
    (hne : ∀ c, isBinarySelectorChar c = true → text.toList ≠ [c]) :
    token.isSpecial text = false := by
  obtain ⟨-, c, htext, hc⟩ := special_of_isBinary h
  rw [BToken.isSpecial, htext, beq_eq_false_iff_ne.mpr (hne c hc).symm, Bool.and_false]

/-- What an expression is followed by. -/
def BToken.IsStop (token : BToken) : Prop :=
  token.type = .eof ∨ token.isSpecial "." = true ∨ token.isSpecial ")" = true ∨
    token.isSpecial "]" = true

/-- What a binary expression is followed by. -/
structure BToken.EndsBinary (token : BToken) : Prop where
  unary : token.type ≠ .identifier
  binary : token.isBinary = false

theorem BToken.isBinary_of_isSpecial {token : BToken} {text : String} {c : Char}
    (h : token.isSpecial text = true) (htext : text.toList = [c])
    (hc : isBinarySelectorChar c = false) : token.isBinary = false := by
  obtain ⟨-, heq⟩ := special_of_isSpecial h
  rw [BToken.isBinary, heq, htext]
  show (_ && isBinarySelectorChar c) = false
  rw [hc, Bool.and_false]

theorem BToken.IsStop.endsBinary {token : BToken} (h : token.IsStop) : token.EndsBinary := by
  have hspecial : ∀ text : String, token.isSpecial text = true → token.type ≠ .identifier := by
    intro text h
    rw [(special_of_isSpecial h).1]
    exact BTokenType.noConfusion
  rcases h with h | h | h | h
  · have hne : token.type ≠ .special := h ▸ BTokenType.noConfusion
    exact ⟨h ▸ BTokenType.noConfusion, isBinary_of_type hne⟩
  · exact ⟨hspecial _ h, isBinary_of_isSpecial h rfl rfl⟩
  · exact ⟨hspecial _ h, isBinary_of_isSpecial h rfl rfl⟩
  · exact ⟨hspecial _ h, isBinary_of_isSpecial h rfl rfl⟩

theorem BToken.IsStop.type_ne_keyword {token : BToken} (h : token.IsStop) :
    token.type ≠ .keyword := by
  rcases h with h | h | h | h
  · rw [h]
    exact BTokenType.noConfusion
  all_goals
    rw [(special_of_isSpecial h).1]
    exact BTokenType.noConfusion

/-! ## §3. One turn of a loop. -/

section Loops

variable {env : Env} {s : CgState} {token : BToken} {tokens : List BToken}

theorem cgUnaryLoop_message (h : Upcoming s.parser (token :: tokens))
    (htype : token.type = .identifier) (fuel : Nat) : cgUnaryLoop (fuel + 1) s =
      (cgEmitSelectorSend token.text 0 >>= fun _ => cgUnaryLoop fuel) s.advance := by
  rw [cgUnaryLoop]
  refine (bind_ok (next_of_upcoming h)).trans ?_
  rw [if_pos htype]

theorem cgUnaryLoop_end (h : Upcoming s.parser (token :: tokens))
    (htype : token.type ≠ .identifier) (fuel : Nat) :
    cgUnaryLoop (fuel + 1) s = .ok () (s.advance.unread token) := by
  rw [cgUnaryLoop]
  refine (bind_ok (next_of_upcoming h)).trans ?_
  rw [if_neg htype]
  rfl

/-- What either loop does with a binary character. -/
def binaryMessage (env : Env) (loop : Nat → Cg Unit) (token : BToken) (fuel : Nat) : Cg Unit := do
  let selector ← cgBinarySelector token
  cgParseUnaryExpression fuel env
  cgEmitSelectorSend selector 1
  loop fuel

theorem cgBinaryLoop_message (h : Upcoming s.parser (token :: tokens))
    (hbinary : token.isBinary = true) (fuel : Nat) : cgBinaryLoop (fuel + 1) env s =
      binaryMessage env (fun fuel => cgBinaryLoop fuel env) token fuel s.advance := by
  rw [cgBinaryLoop]
  refine (bind_ok (next_of_upcoming h)).trans ?_
  rw [if_pos hbinary]
  rfl

theorem cgBinaryLoop_end (h : Upcoming s.parser (token :: tokens))
    (hbinary : token.isBinary = false) (fuel : Nat) :
    cgBinaryLoop (fuel + 1) env s = .ok () (s.advance.unread token) := by
  rw [cgBinaryLoop]
  refine (bind_ok (next_of_upcoming h)).trans ?_
  rw [hbinary]
  rfl

/-- An ordinary token is not one of those the continuation looks for first. -/
theorem continuation_stops (h : token.type ≠ .eof) (hspecial : ∀ text ∈ [".", ")", "]", ";"],
    token.isSpecial text = false) : token.type ≠ .eof ∧
      (token.isSpecial "." || token.isSpecial ")" || token.isSpecial "]") = false ∧
      token.isSpecial ";" = false := by
  refine ⟨h, ?_, hspecial _ (by simp)⟩
  rw [hspecial "." (by simp), hspecial ")" (by simp), hspecial "]" (by simp)]
  rfl

theorem continuation_message (h : Upcoming s.parser (token :: tokens))
    (htype : token.type = .identifier) (fuel : Nat) :
    cgParseExpressionContinuation (fuel + 1) env s =
      (cgEmitSelectorSend token.text 0 >>= fun _ => cgParseExpressionContinuation fuel env)
        s.advance := by
  have hne : token.type ≠ .special := htype ▸ BTokenType.noConfusion
  obtain ⟨heof, hstop, hcascade⟩ := continuation_stops
    (htype ▸ BTokenType.noConfusion : token.type ≠ .eof) fun text _ => token.isSpecial_of_type hne text
  rw [cgParseExpressionContinuation]
  refine (bind_ok (next_of_upcoming h)).trans ?_
  rw [if_neg heof, hstop, hcascade]
  simp only [Bool.false_eq_true, if_false]
  rw [if_pos htype]

theorem continuation_binary (h : Upcoming s.parser (token :: tokens))
    (hbinary : token.isBinary = true) (fuel : Nat) :
    cgParseExpressionContinuation (fuel + 1) env s =
      binaryMessage env (fun fuel => cgParseExpressionContinuation fuel env) token fuel
        s.advance := by
  have htype := (BToken.special_of_isBinary hbinary).1
  have hspecial : ∀ text ∈ [".", ")", "]", ";"], token.isSpecial text = false := by
    intro text htext
    refine token.isSpecial_of_isBinary hbinary fun c hc heq => ?_
    simp only [List.mem_cons, List.not_mem_nil, or_false] at htext
    rcases htext with rfl | rfl | rfl | rfl <;> cases heq <;> cases hc
  obtain ⟨heof, hstop, hcascade⟩ := continuation_stops
    (htype ▸ BTokenType.noConfusion : token.type ≠ .eof) hspecial
  rw [cgParseExpressionContinuation]
  refine (bind_ok (next_of_upcoming h)).trans ?_
  rw [if_neg heof, hstop, hcascade]
  simp only [Bool.false_eq_true, if_false]
  rw [if_neg (htype ▸ BTokenType.noConfusion : token.type ≠ .identifier), if_pos hbinary]
  rfl

theorem continuation_keyword (h : Upcoming s.parser (token :: tokens))
    (htype : token.type = .keyword) (fuel : Nat) :
    cgParseExpressionContinuation (fuel + 1) env s =
      (cgKeywordLoop fuel env token [] 0 >>= fun _ => cgParseExpressionContinuation fuel env)
        s.advance := by
  have hne : token.type ≠ .special := htype ▸ BTokenType.noConfusion
  obtain ⟨heof, hstop, hcascade⟩ := continuation_stops
    (htype ▸ BTokenType.noConfusion : token.type ≠ .eof) fun text _ => token.isSpecial_of_type hne text
  rw [cgParseExpressionContinuation]
  refine (bind_ok (next_of_upcoming h)).trans ?_
  rw [if_neg heof, hstop, hcascade]
  simp only [Bool.false_eq_true, if_false]
  rw [if_neg (htype ▸ BTokenType.noConfusion : token.type ≠ .identifier),
    token.isBinary_of_type hne]
  simp only [Bool.false_eq_true, if_false]
  rw [if_pos htype]

theorem continuation_end (h : Upcoming s.parser (token :: tokens)) (hstop : token.IsStop)
    (fuel : Nat) :
    cgParseExpressionContinuation (fuel + 1) env s = .ok () (s.advance.unread token) := by
  rw [cgParseExpressionContinuation]
  refine (bind_ok (next_of_upcoming h)).trans ?_
  by_cases heof : token.type = .eof
  · rw [if_pos heof]
    rfl
  · have hany : (token.isSpecial "." || token.isSpecial ")" || token.isSpecial "]") = true := by
      rcases hstop with h | h | h | h
      · exact absurd h heof
      all_goals simp only [h, Bool.true_or, Bool.or_true]
    rw [if_neg heof, if_pos hany]
    rfl

end Loops

end LivingObjects.Compiler
