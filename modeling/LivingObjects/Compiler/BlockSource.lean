/-
  LivingObjects.Compiler.BlockSource — the sources of blocks are cut out exactly.

  A block is compiled from a text of its own: `cg_skip_block_literal` runs over the tokens
  to the bracket that closes it, and what lies between the indices before and after, less
  one character, is read again from scratch.  A token that ends before the bracket is the
  same with and without it, for no scan of the tokenizer looks over a bracket that it does
  not take.
-/
import LivingObjects.Compiler.Lookahead

namespace LivingObjects.Compiler

open LivingObjects.Lib

/-! ## §1. A text with and without what follows a bracket. -/

section Cut

variable (after : List Char)

/-- A scan stops at the bracket, or goes on behind it. -/
theorem skipWhitespace_cut (comment : Bool) (text : List Char) :
    skipWhitespace comment (text ++ ']' :: after)
        = skipWhitespace comment text ++ ']' :: after
      ∨ skipWhitespace comment (text ++ ']' :: after) <:+ after := by
  induction text generalizing comment with
  | nil =>
    cases comment with
    | true => exact .inr (skipWhitespace_suffix after _)
    | false => exact .inl rfl
  | cons c cs ih =>
    cases comment with
    | true => exact ih _
    | false =>
      rw [List.cons_append, skipWhitespace, skipWhitespace]
      split_ifs
      · exact ih _
      · exact ih _
      · exact .inl rfl

theorem readString_cut (text : List Char) :
    readString (text ++ ']' :: after)
        = ((readString text).1, (readString text).2 ++ ']' :: after)
      ∨ (readString (text ++ ']' :: after)).2 <:+ after := by
  fun_induction readString text with
  | case1 => exact .inr (readString_suffix after)
  | case2 cs text rest hread ih =>
    rw [hread] at ih
    rcases ih with hsame | hbeyond
    · refine .inl ?_
      rw [List.cons_append, List.cons_append, readString, hsame]
    · refine .inr ?_
      rw [List.cons_append, List.cons_append, readString]
      exact hbeyond
  | case3 cs hsingle =>
    refine .inl ?_
    have hnext : ∀ cs', cs ++ ']' :: after = '\'' :: cs' → False := by
      intro cs' heq
      cases cs with
      | nil => cases heq
      | cons d ds => 
        obtain ⟨rfl, -⟩ := List.cons.inj heq
        exact hsingle ds rfl
    rw [List.cons_append, readString]
    · exact hnext
  | case4 c cs _ hquote text rest hread ih =>
    rw [hread] at ih
    have hstep : readString (c :: (cs ++ ']' :: after))
        = (c :: (readString (cs ++ ']' :: after)).1, (readString (cs ++ ']' :: after)).2) := by
      rw [readString]
      · intro cs' hc _
        exact hquote hc
      · exact hquote
    rw [List.cons_append, hstep]
    rcases ih with hsame | hbeyond
    · refine .inl ?_
      rw [hsame]
    · exact .inr hbeyond

theorem takeWhile_cut {p : Char → Bool} (h : p ']' = false) (text : List Char) :
    (text ++ ']' :: after).takeWhile p = text.takeWhile p := by
  induction text with
  | nil => exact List.takeWhile_cons_of_neg (by rw [h]; decide)
  | cons c cs ih =>
    rw [List.cons_append, List.takeWhile_cons, List.takeWhile_cons, ih]

theorem dropWhile_cut {p : Char → Bool} (h : p ']' = false) (text : List Char) :
    (text ++ ']' :: after).dropWhile p = text.dropWhile p ++ ']' :: after := by
  induction text with
  | nil => exact List.dropWhile_cons_of_neg (by rw [h]; decide)
  | cons c cs ih =>
    rw [List.cons_append, List.dropWhile_cons, List.dropWhile_cons, ih]
    split <;> rfl

theorem skipWhitespace_idem (text : List Char) (comment : Bool) :
    skipWhitespace false (skipWhitespace comment text) = skipWhitespace comment text := by
  induction text generalizing comment with
  | nil => cases comment <;> rfl
  | cons c cs ih =>
    cases comment with
    | true => exact ih _
    | false =>
      by_cases hblank : (c == ' ' || c == '\t' || c == '\n' || c == '\r') = true
      · rw [skipWhitespace, if_pos hblank]
        exact ih _
      by_cases hquote : (c == '"') = true
      · rw [skipWhitespace, if_neg hblank, if_pos hquote]
        exact ih _
      · rw [skipWhitespace, if_neg hblank, if_neg hquote, skipWhitespace, if_neg hblank,
          if_neg hquote]

theorem btNext_skip (text : List Char) : btNext (skipWhitespace false text) = btNext text := by
  rw [btNext, btNext, skipWhitespace_idem]

/-- **The next token** is the same with and without the bracket, unless it takes it. -/
theorem btNext_cut (text : List Char) :
    (btNext (text ++ ']' :: after) = ((btNext text).1, (btNext text).2 ++ ']' :: after)
        ∧ (btNext text).1.type ≠ .eof)
      ∨ (btNext (text ++ ']' :: after)).2 <:+ after := by
  rcases skipWhitespace_cut after false text with hskip | hskip
  · rw [btNext, btNext, hskip]
    cases htext : skipWhitespace false text with
    | nil => exact .inr (List.suffix_refl after)
    | cons c cs =>
      simp only [List.cons_append]
      by_cases hdigit : c.isDigit = true
      · rw [if_pos hdigit, if_pos hdigit]
        have hdrop := dropWhile_cut after (p := Char.isDigit) (by decide) (c :: cs)
        have htake := takeWhile_cut after (p := Char.isDigit) (by decide) (c :: cs)
        rw [List.cons_append] at hdrop htake
        rw [hdrop, htake]
        exact .inl ⟨rfl, fun h => by cases h⟩
      rw [if_neg hdigit, if_neg hdigit]
      by_cases hdollar : (c == '$') = true
      · rw [if_pos hdollar, if_pos hdollar]
        cases cs with
        | nil => exact .inr (List.suffix_refl after)
        | cons value rest => exact .inl ⟨rfl, fun h => by cases h⟩
      rw [if_neg hdollar, if_neg hdollar]
      by_cases hname : (c.isAlpha || c == '_') = true
      · rw [if_pos hname, if_pos hname]
        have hdrop := dropWhile_cut after (p := isNameChar) (by decide) (c :: cs)
        have htake := takeWhile_cut after (p := isNameChar) (by decide) (c :: cs)
        rw [List.cons_append] at hdrop htake
        rw [hdrop, htake]
        cases hrest : (c :: cs).dropWhile isNameChar with
        | nil => exact .inl ⟨rfl, fun h => by cases h⟩
        | cons d ds =>
          by_cases hcolon : d = ':'
          · subst hcolon
            exact .inl ⟨rfl, fun h => by cases h⟩
          · refine .inl ?_
            rw [List.cons_append]
            split
            next rest heq => exact absurd (List.cons.inj heq).1 hcolon
            split
            next rest heq => exact absurd (List.cons.inj heq).1 hcolon
            exact ⟨rfl, fun h => by cases h⟩
      rw [if_neg hname, if_neg hname]
      by_cases hquote : (c == '\'') = true
      · rw [if_pos hquote, if_pos hquote]
        rcases readString_cut after cs with hsame | hbeyond
        · rw [hsame]
          exact .inl ⟨rfl, fun h => by cases h⟩
        · exact .inr hbeyond
      rw [if_neg hquote, if_neg hquote]
      by_cases hsharp : (c == '#') = true
      · rw [if_pos hsharp, if_pos hsharp]
        cases cs with
        | nil => exact .inl ⟨rfl, fun h => by cases h⟩
        | cons d ds =>
          rw [List.cons_append]
          by_cases hopen : d = '('
          · subst hopen
            exact .inl ⟨rfl, fun h => by cases h⟩
          · refine .inl ?_
            have hhead : ∀ l : List Char,
                ((d :: l).head?.map fun d => isNameChar d || d == ':').getD false
                  = (isNameChar d || d == ':') := fun _ => rfl
            simp only [List.cons.injEq, hopen, false_and, imp_self, implies_true]
            rw [hhead, hhead]
            generalize (isNameChar d || d == ':') = named
            have hstop : (if named then fun d => isNameChar d || d == ':'
                else isBinarySelectorChar) ']' = false := by cases named <;> decide
            have hdrop := dropWhile_cut after hstop (d :: ds)
            have htake := takeWhile_cut after hstop (d :: ds)
            rw [List.cons_append] at hdrop htake
            rw [hdrop, htake]
            exact ⟨rfl, fun h => by cases h⟩
      rw [if_neg hsharp, if_neg hsharp]
      by_cases hcolon : c = ':'
      · subst hcolon
        cases cs with
        | nil => exact .inl ⟨rfl, fun h => by cases h⟩
        | cons d ds =>
          by_cases hassign : d = '='
          · subst hassign
            exact .inl ⟨rfl, fun h => by cases h⟩
          · refine .inl ?_
            simp [hassign, makeToken]
      · refine .inl ?_
        simp [hcolon, makeToken]
  · refine .inr ?_
    rw [← btNext_skip]
    exact (btNext_progress _).1.trans hskip

end Cut

/-! ## §2. The tokens of a text. -/

/-- The tokenizer produces these tokens on the way to the rest of a text. -/
inductive Scans : List Char → List BToken → List Char → Prop where
  | done {rest : List Char} : Scans rest [] rest
  | token {text : List Char} {tokens : List BToken} {rest : List Char}
      (htoken : (btNext text).1.type ≠ .eof) (hrest : Scans (btNext text).2 tokens rest) :
      Scans text ((btNext text).1 :: tokens) rest

/-- These are the tokens of a text, to its end. -/
def TokensOf (text : List Char) (tokens : List BToken) : Prop :=
  ∃ rest, Scans text tokens rest ∧ (btNext rest).1.type = .eof

theorem Scans.suffix {text rest : List Char} {tokens : List BToken} (h : Scans text tokens rest) :
    rest <:+ text := by
  induction h with
  | done => exact List.suffix_refl _
  | @token text tokens rest htoken hrest ih => exact ih.trans (btNext_progress text).1

/-- A special token of one character stands there alone. -/
theorem closing_at {text after : List Char} {closing : BToken}
    (h : btNext text = (closing, after)) (hclosing : closing.isSpecial "]" = true) :
    skipWhitespace false text = ']' :: after := by
  obtain ⟨htype, htext⟩ := BToken.special_of_isSpecial hclosing
  have hnot : ∀ {token : BToken} {rest : List Char}, (token, rest) = (closing, after) →
      token.type ≠ .special → False := by
    intro token rest heq hne
    obtain ⟨rfl, -⟩ := Prod.mk.inj heq
    exact hne htype
  rw [btNext] at h
  cases hskip : skipWhitespace false text with
  | nil =>
    rw [hskip] at h
    exact (hnot h fun h => by cases h).elim
  | cons c cs =>
    rw [hskip] at h
    dsimp only at h
    split at h
    · exact (hnot h fun h => by cases h).elim
    split at h
    · split at h
      · exact (hnot h fun h => by cases h).elim
      · exact (hnot h fun h => by cases h).elim
    split at h
    · split at h
      · exact (hnot h fun h => by cases h).elim
      · exact (hnot h fun h => by cases h).elim
    split at h
    · exact (hnot h fun h => by cases h).elim
    split at h
    · split at h
      · obtain ⟨rfl, -⟩ := Prod.mk.inj h
        exact absurd htext (by decide)
      · exact (hnot h fun h => by cases h).elim
    split at h
    · obtain ⟨rfl, -⟩ := Prod.mk.inj h
      exact absurd htext (by decide)
    · obtain ⟨rfl, rfl⟩ := Prod.mk.inj h
      have hc : c = ']' := (List.cons.inj htext).1
      rw [hc]

/-- **The tokens before a bracket** are read again from the text before it. -/
theorem Scans.cut {text rest after : List Char} {tokens : List BToken} (h : Scans text tokens rest)
    (hbracket : ']' :: after <:+ rest) : ∀ {slice : List Char}, text = slice ++ ']' :: after →
      ∃ tail, Scans slice tokens tail ∧ rest = tail ++ ']' :: after := by
  induction h with
  | done => exact fun {slice} htext => ⟨slice, .done, htext⟩
  | @token text tokens rest htoken hrest ih =>
    intro slice htext
    subst htext
    rcases btNext_cut after slice with ⟨hsame, htoken'⟩ | hbeyond
    · have hfirst : (btNext (slice ++ ']' :: after)).1 = (btNext slice).1 := by rw [hsame]
      have hsecond : (btNext (slice ++ ']' :: after)).2 = (btNext slice).2 ++ ']' :: after :=
        by rw [hsame]
      obtain ⟨tail, htail, hrest'⟩ := ih hbracket hsecond
      refine ⟨tail, ?_, hrest'⟩
      rw [hfirst]
      exact .token htoken' htail
    · -- the token would have taken the bracket
      have hlength := (hbracket.trans (hrest.suffix.trans hbeyond)).length_le
      rw [List.length_cons] at hlength
      omega

/-! ## §3. Matching brackets. -/

/-- Every bracket in the tokens has its partner there. -/
inductive Balanced : List BToken → Prop where
  | nil : Balanced []
  | plain {token : BToken} {tokens : List BToken} (hopen : token.isSpecial "[" = false)
      (hclose : token.isSpecial "]" = false) (hrest : Balanced tokens) :
      Balanced (token :: tokens)
  | block {opening closing : BToken} {inner tokens : List BToken}
      (hopen : opening.isSpecial "[" = true) (hclose : closing.isSpecial "]" = true)
      (hinner : Balanced inner) (hrest : Balanced tokens) :
      Balanced (opening :: (inner ++ closing :: tokens))

/-- **A block**: behind its opening bracket the text has balanced tokens, the closing
bracket, and what is after it. -/
structure BlockAt (text : List Char) (inner : List BToken) (after : List Char) : Prop where
  balanced : Balanced inner
  closed : ∃ rest closing, Scans text inner rest ∧ btNext rest = (closing, after)
    ∧ closing.isSpecial "]" = true

/-- So many blocks that are open are closed one after the other. -/
inductive Closing : Nat → List Char → List Char → Prop where
  | done {text : List Char} : Closing 0 text text
  | close {depth : Nat} {text after final : List Char} {inner : List BToken}
      (hblock : BlockAt text inner after) (hrest : Closing depth after final) :
      Closing (depth + 1) text final

theorem Scans.append {text rest : List Char} {tokens more : List BToken}
    (h : Scans text (tokens ++ more) rest) :
    ∃ mid, Scans text tokens mid ∧ Scans mid more rest := by
  induction tokens generalizing text with
  | nil => exact ⟨text, .done, h⟩
  | cons token tokens ih =>
    cases h with
    | token htoken hrest =>
      obtain ⟨mid, hmid, hmore⟩ := ih hrest
      exact ⟨mid, .token htoken hmid, hmore⟩

theorem Scans.trans {text mid rest : List Char} {tokens more : List BToken}
    (h : Scans text tokens mid) (hmore : Scans mid more rest) :
    Scans text (tokens ++ more) rest := by
  induction h with
  | done => exact hmore
  | token htoken hrest ih => exact .token htoken (ih hmore)

theorem not_eof_of_isSpecial {token : BToken} {text : String} (h : token.isSpecial text = true) :
    token.type ≠ .eof := by
  rw [(BToken.special_of_isSpecial h).1]
  decide

/-- What the next token does to the blocks that are open. -/
inductive ClosingStep (depth : Nat) (text final : List Char) : Prop where
  | opens (h : (btNext text).1.isSpecial "[" = true)
      (hrest : Closing (depth + 2) (btNext text).2 final) : ClosingStep depth text final
  | closes (h : (btNext text).1.isSpecial "]" = true)
      (hrest : Closing depth (btNext text).2 final) : ClosingStep depth text final
  | stays (heof : (btNext text).1.type ≠ .eof) (hopen : (btNext text).1.isSpecial "[" = false)
      (hclose : (btNext text).1.isSpecial "]" = false)
      (hrest : Closing (depth + 1) (btNext text).2 final) : ClosingStep depth text final

theorem Closing.step {depth : Nat} {text final : List Char} (h : Closing (depth + 1) text final) :
    ClosingStep depth text final := by
  cases h with
  | @close _ _ after _ inner hblock hrest =>
    obtain ⟨hbalanced, rest, closing, hreads, hnext, hclosing⟩ := hblock
    cases hbalanced with
    | nil =>
      cases hreads with
      | done =>
        refine .closes ?_ ?_
        · rw [hnext]
          exact hclosing
        · rw [hnext]
          exact hrest
    | plain hopen hclose hbalanced =>
      cases hreads with
      | token htoken hreads =>
        exact .stays htoken hopen hclose (.close ⟨hbalanced, _, _, hreads, hnext, hclosing⟩ hrest)
    | block hopen hclose hinner hbalanced =>
      cases hreads with
      | token htoken hreads =>
        obtain ⟨mid, hfirst, hsecond⟩ := hreads.append
        cases hsecond with
        | token htoken' hsecond =>
          refine .opens hopen (.close ⟨hinner, mid, _, hfirst, rfl, hclose⟩ ?_)
          exact .close ⟨hbalanced, _, _, hsecond, hnext, hclosing⟩ hrest

theorem ClosingStep.closing {depth : Nat} {text final : List Char}
    (h : ClosingStep depth text final) : Closing (depth + 1) text final := by
  cases h with
  | closes h hrest => exact .close ⟨.nil, text, _, .done, rfl, h⟩ hrest
  | stays heof hopen hclose hrest =>
    cases hrest with
    | close hblock hrest =>
      obtain ⟨hbalanced, rest, closing, hreads, hnext, hclosing⟩ := hblock
      exact .close ⟨.plain hopen hclose hbalanced, rest, closing, .token heof hreads, hnext,
        hclosing⟩ hrest
  | opens h hrest =>
    cases hrest with
    | close hfirst hrest =>
      cases hrest with
      | @close _ _ _ _ inner' hsecond hrest =>
        obtain ⟨hbalanced, rest, closing, hreads, hnext, hclosing⟩ := hfirst
        obtain ⟨hbalanced', rest', closing', hreads', hnext', hclosing'⟩ := hsecond
        have hmiddle : Scans rest ((btNext rest).1 :: inner') rest' := by
          refine .token ?_ ?_
          · rw [hnext]
            exact not_eof_of_isSpecial hclosing
          · rw [hnext]
            exact hreads'
        rw [hnext] at hmiddle
        exact .close ⟨.block h hclosing hbalanced hbalanced', rest', closing',
          .token (not_eof_of_isSpecial h) (hreads.trans hmiddle), hnext', hclosing'⟩ hrest

/-! ## §4. Running over a block. -/

/-- The state with its tokenizer somewhere else, and nothing in the buffer. -/
def CgState.reading (s : CgState) (rest : List Char) : CgState :=
  { s with parser := ⟨rest, none⟩ }

theorem next_reading (s : CgState) (text : List Char) :
    next (s.reading text) = .ok (btNext text).1 (s.reading (btNext text).2) := rfl

/-- How `cg_skip_block_literal` ends. -/
inductive SkipEnds (depth : Nat) (text : List Char) (s : CgState) : Tried CgState Unit → Prop where
  | found {final : List Char} (h : ∀ other, Closing depth text other ↔ other = final) :
      SkipEnds depth text s (.ok () (s.reading final))
  | missing {s' : CgState} (h : ¬∃ final, Closing depth text final) :
      SkipEnds depth text s (.rejected s')

/-- **`cg_skip_block_literal` ends** behind the brackets that are to be closed, or fails
when they are not. -/
theorem cgSkipBlockLiteral_ends (s : CgState) {fuel depth : Nat} {text : List Char}
    (hfuel : text.length < fuel) :
    SkipEnds depth text s (cgSkipBlockLiteral fuel depth (s.reading text)) := by
  induction fuel generalizing depth text with
  | zero => omega
  | succ fuel ih =>
    cases depth with
    | zero =>
      refine .found fun other => ⟨?_, ?_⟩
      · intro h
        cases h
        rfl
      · rintro rfl
        exact .done
    | succ depth =>
      have hnext := next_reading s text
      rw [cgSkipBlockLiteral]
      rw [Attempt.bind_ok hnext]
      obtain ⟨hsuffix, hprogress⟩ := btNext_progress text
      by_cases heof : (btNext text).1.type = .eof
      · rw [if_pos heof]
        refine .missing ?_
        rintro ⟨final, hclosing⟩
        cases hclosing.step with
        | opens h => exact not_eof_of_isSpecial h heof
        | closes h => exact not_eof_of_isSpecial h heof
        | stays h => exact h heof
      have hless : (btNext text).2.length < fuel := by
        have := hprogress.resolve_left heof
        omega
      rw [if_neg heof]
      -- a block is found behind the token exactly when one is found from it
      have hgo : ∀ depth' : Nat, (∀ final, Closing depth' (btNext text).2 final ↔
          Closing (depth + 1) text final) →
          SkipEnds (depth + 1) text s
            (cgSkipBlockLiteral fuel depth' (s.reading (btNext text).2)) := by
        intro depth' hiff
        have hend : SkipEnds depth' (btNext text).2 s
            (cgSkipBlockLiteral fuel depth' (s.reading (btNext text).2)) := ih hless
        generalize cgSkipBlockLiteral fuel depth' (s.reading (btNext text).2) = result at hend ⊢
        cases hend with
        | found h => exact .found fun other => (hiff other).symm.trans (h other)
        | missing h =>
          refine .missing ?_
          rintro ⟨final, hfinal⟩
          exact h ⟨final, (hiff final).mpr hfinal⟩
      cases hopen : (btNext text).1.isSpecial "[" with
      | true =>
        refine hgo (depth + 2) fun final => ⟨fun h => (ClosingStep.opens hopen h).closing, ?_⟩
        intro h
        cases h.step with
        | opens _ hrest => exact hrest
        | closes hclose =>
          rw [BToken.isSpecial_of_text hopen (by decide)] at hclose
          cases hclose
        | stays _ hnot =>
          rw [hopen] at hnot
          cases hnot
      | false =>
        cases hclose : (btNext text).1.isSpecial "]" with
        | true =>
          refine hgo depth fun final => ⟨fun h => (ClosingStep.closes hclose h).closing, ?_⟩
          intro h
          cases h.step with
          | opens hnot =>
            rw [hopen] at hnot
            cases hnot
          | closes _ hrest => exact hrest
          | stays _ _ hnot =>
            rw [hclose] at hnot
            cases hnot
        | false =>
          refine hgo (depth + 1) fun final =>
            ⟨fun h => (ClosingStep.stays heof hopen hclose h).closing, ?_⟩
          intro h
          cases h.step with
          | opens hnot =>
            rw [hopen] at hnot
            cases hnot
          | closes hnot =>
            rw [hclose] at hnot
            cases hnot
          | stays _ _ _ hrest => exact hrest

/-! ## §5. The source of a block. -/

/-- The text that is captured between two places of the tokenizer. -/
def capturedSource (start finish : List Char) : List Char := (textBetween start finish).dropLast

theorem capturedSource_eq (slice after : List Char) :
    capturedSource (slice ++ ']' :: after) after = slice := by
  have hlength : (slice ++ ']' :: after).length - after.length = (slice ++ [']']).length := by
    simp only [List.length_append, List.length_cons, List.length_nil]
    omega
  have hsplit : slice ++ ']' :: after = (slice ++ [']']) ++ after := by
    rw [List.append_assoc]
    rfl
  rw [capturedSource, textBetween, hlength, hsplit, List.take_left, List.dropLast_concat]

/-- **What is captured of a block** has its tokens, and no others. -/
theorem BlockAt.captured {text after : List Char} {inner : List BToken}
    (h : BlockAt text inner after) : TokensOf (capturedSource text after) inner := by
  obtain ⟨rest, closing, hreads, hnext, hclosing⟩ := h.closed
  have hbracket := closing_at hnext hclosing
  have hin : ']' :: after <:+ rest := by
    rw [← hbracket]
    exact skipWhitespace_suffix rest false
  obtain ⟨slice, hslice⟩ := hin.trans hreads.suffix
  obtain ⟨tail, htail, hrest⟩ := hreads.cut hin hslice.symm
  rw [← hslice, capturedSource_eq]
  refine ⟨tail, htail, ?_⟩
  -- before the bracket there was nothing but blanks
  have hblank : skipWhitespace false tail = [] := by
    rw [hrest] at hbracket
    rcases skipWhitespace_cut after false tail with hsame | hbeyond
    · rw [hsame] at hbracket
      exact List.append_left_eq_self.mp hbracket
    · rw [hbracket] at hbeyond
      have hlength := hbeyond.length_le
      rw [List.length_cons] at hlength
      omega
  rw [btNext, hblank]
  rfl

theorem Closing.block {text after : List Char} (h : Closing 1 text after) :
    ∃ inner, BlockAt text inner after := by
  cases h with
  | close hblock hrest =>
    cases hrest
    exact ⟨_, hblock⟩

/-- **The source of a block is captured exactly.**  Behind an opening bracket with its
partner in the tokens of the text, `cg_skip_block_literal` stops just after the partner,
what `cg_capture_block_source_from_open` and the block literals cut out between the two
has the tokens between them, and it is taken when it fits the buffer; without a partner
the run fails. -/
theorem blockSource_exact (s : CgState) (text : List Char) {fuel : Nat}
    (hfuel : text.length < fuel) :
    (∀ inner after, BlockAt text inner after →
      cgSkipBlockLiteral fuel 1 (s.reading text) = .ok () (s.reading after)
      ∧ TokensOf (capturedSource text after) inner
      ∧ cgCaptureBlockSource fuel (s.reading text)
        = if (capturedSource text after).length < 4096
          then .ok (capturedSource text after) (s.reading after) else .rejected (s.reading after))
    ∧ ((¬∃ inner after, BlockAt text inner after) →
      ∃ s', cgSkipBlockLiteral fuel 1 (s.reading text) = .rejected s') := by
  have hend : SkipEnds 1 text s (cgSkipBlockLiteral fuel 1 (s.reading text)) :=
    cgSkipBlockLiteral_ends s hfuel
  refine ⟨?_, ?_⟩
  · intro inner after hblock
    have hclosing : Closing 1 text after := .close hblock .done
    have hskip : cgSkipBlockLiteral fuel 1 (s.reading text) = .ok () (s.reading after) := by
      generalize cgSkipBlockLiteral fuel 1 (s.reading text) = result at hend ⊢
      cases hend with
      | found h => rw [(h after).mp hclosing]
      | missing h => exact absurd ⟨after, hclosing⟩ h
    refine ⟨hskip, hblock.captured, ?_⟩
    have hcapture : cgCaptureBlockSource fuel (s.reading text)
        = (do
          Attempt.require ((capturedSource text after).length < 4096)
          return capturedSource text after : Cg (List Char)) (s.reading after) := by
      rw [cgCaptureBlockSource]
      exact Attempt.bind_ok hskip
    rw [hcapture]
    by_cases hfits : (capturedSource text after).length < 4096
    · rw [if_pos hfits, decide_eq_true hfits]
      rfl
    · rw [if_neg hfits, decide_eq_false hfits]
      rfl
  · intro hnone
    generalize cgSkipBlockLiteral fuel 1 (s.reading text) = result at hend ⊢
    cases hend with
    | found h =>
      obtain ⟨inner, hblock⟩ := Closing.block ((h _).mpr rfl)
      exact absurd ⟨inner, _, hblock⟩ hnone
    | missing h => exact ⟨_, rfl⟩

/-- A bracket of a character literal does not close a block. -/
theorem blockSource_exact_character :
    cgSkipBlockLiteral 8 1 ((CgState.init [] []).reading "$]].".toList)
        = .ok () ((CgState.init [] []).reading ['.'])
      ∧ TokensOf (capturedSource "$]].".toList ['.']) [(btNext "$]].".toList).1] := by
  have hblock : BlockAt "$]].".toList [(btNext "$]].".toList).1] ['.'] :=
    ⟨.plain (by decide) (by decide) .nil,
      "].".toList, (btNext "].".toList).1, .token (by decide) .done, by decide, by decide⟩
  have hexact := (blockSource_exact (.init [] []) "$]].".toList (by decide : 4 < 8)).1 _ _ hblock
  exact ⟨hexact.1, hexact.2.1⟩

end LivingObjects.Compiler
