/-
  LivingObjects.Smalltalk.Peek — looking ahead with one buffered token.

  `peek` keeps its token in `buffered`, and so does a name that is followed at once by
  `:=`, which reads two tokens in one step.  Peeking at such a name stores it over the
  `:=`, and `tokens` never looks at the buffer: both lose the `:=`.

  `peek_transparent_iff`: the interleavings of `peek` and `next` give the tokens that
  `next` alone gives, and `tokens` gives them in full, exactly for the texts in which no
  name is followed at once by `:=`.
-/
import LivingObjects.Smalltalk.Tokenizer

namespace LivingObjects.Smalltalk

/-! ## §1. Interleavings of `peek` and `next`. -/

inductive Operation where
  | next
  | peek
deriving DecidableEq, Repr

namespace Tokenizer

def perform (self : Tokenizer) : Operation → Option (Token × Tokenizer)
  | .next => self.next
  | .peek => self.peek

/-- The tokens that some operations answer, and the tokenizer they leave. -/
def run (self : Tokenizer) : List Operation → Option (List Token × Tokenizer)
  | [] => some ([], self)
  | operation :: operations => do
    let (token, after) ← self.perform operation
    let (tokens, after) ← after.run operations
    some (token :: tokens, after)

/-- The token that `next` alone gives after `n` others. -/
def nthNext (self : Tokenizer) : Nat → Option Token
  | 0 => self.next.map Prod.fst
  | n + 1 => self.next.bind fun (_, after) => after.nthNext n

end Tokenizer

/-- The tokens gone after an operation. -/
def Operation.gone : Operation → Nat → Nat
  | .next, n => n + 1
  | .peek, n => n

/-- The answers to some operations when `n` tokens are gone: a token stands still under
`peek` and goes with `next`. -/
def expected (alone : Nat → Option Token) : Nat → List Operation → Option (List Token)
  | _, [] => some []
  | n, operation :: operations => do
    let token ← alone n
    let tokens ← expected alone (operation.gone n) operations
    some (token :: tokens)

/-- All the tokens before the end, or a trap where there is one before the end. -/
def InFull (alone : Nat → Option Token) (tokens : Option (List (Option Token))) : Prop :=
  ∃ n, (∀ i < n, ∃ token, alone i = some token ∧ token.isEof = false) ∧
    ((∃ token, alone n = some token ∧ token.isEof = true ∧
        tokens = some ((List.range n).map alone)) ∨
      (alone n = none ∧ tokens = none))

/-- Peeking changes nothing of what `next` and `tokens` give. -/
structure PeekTransparent (source : List Char) : Prop where
  interleaved : ∀ operations, ((Tokenizer.on source).run operations).map Prod.fst =
    expected (Tokenizer.on source).nthNext 0 operations
  tokens : ∀ operations answers after,
    (Tokenizer.on source).run operations = some (answers, after) →
      InFull (Tokenizer.on source).nthNext (after.tokens.map Prod.fst)

/-! ## §2. Where the tokens of a text begin. -/

/-- The text that begins with a token of a source text, or its end. -/
inductive TokenAt (source : List Char) : List Char → Prop
  | first : TokenAt source (skipWhitespaceAndComments source)
  | after {text rest : List Char} (h : TokenAt source text) (hafter : afterToken text = some rest) :
      TokenAt source (skipWhitespaceAndComments rest)

/-- No name of the text is followed at once by `:=`. -/
def Spaced (source : List Char) : Prop := ∀ text, TokenAt source text → ¬ NameAssigned text

theorem spaced_nil : Spaced [] := by
  have hnil : ∀ text, TokenAt [] text → text = [] := by
    intro text h
    induction h with
    | first => rfl
    | after h hafter ih =>
      rw [ih] at hafter
      exact nomatch hafter
  rintro text h ⟨ch, stream, -, htext, -⟩
  rw [hnil text h] at htext
  exact nomatch htext

theorem Spaced.after {source rest : List Char} (h : Spaced source)
    (hafter : afterToken (skipWhitespaceAndComments source) = some rest) : Spaced rest := by
  intro text htext
  refine h text ?_
  induction htext with
  | first => exact .after .first hafter
  | after _ hafter ih => exact .after ih hafter

/-! ## §3. A spaced text: peeking is transparent. -/

namespace Tokenizer

theorem run_cons {self after : Tokenizer} {token : Token} {operation : Operation}
    (h : self.perform operation = some (token, after)) (operations : List Operation) :
    self.run (operation :: operations) =
      (after.run operations).map fun ran => (token :: ran.1, ran.2) := by
  rw [run, h]
  show (after.run operations).bind _ = _
  cases after.run operations <;> rfl

theorem run_next {self after : Tokenizer} {token : Token} (h : self.next = some (token, after))
    (operations : List Operation) :
    self.run (.next :: operations) =
      (after.run operations).map fun ran => (token :: ran.1, ran.2) :=
  @run_cons self after token .next h operations

theorem run_peek {self after : Tokenizer} {token : Token} (h : self.peek = some (token, after))
    (operations : List Operation) :
    self.run (.peek :: operations) =
      (after.run operations).map fun ran => (token :: ran.1, ran.2) :=
  @run_cons self after token .peek h operations

theorem nthNext_zero {self after : Tokenizer} {token : Token}
    (h : self.next = some (token, after)) : self.nthNext 0 = some token := by
  rw [nthNext, h]
  rfl

theorem nthNext_succ {self after : Tokenizer} {token : Token} (h : self.next = some (token, after))
    (n : Nat) : self.nthNext (n + 1) = after.nthNext n := by
  rw [nthNext, h]
  rfl

theorem expected_cons {alone : Nat → Option Token} {n : Nat} {token : Token}
    (h : alone n = some token) (operation : Operation) (operations : List Operation) :
    expected alone n (operation :: operations) =
      (expected alone (operation.gone n) operations).map (token :: ·) := by
  rw [expected, h]
  show (expected alone (operation.gone n) operations).bind _ = _
  cases expected alone (operation.gone n) operations <;> rfl

theorem reading_fst (self : Tokenizer) (read : Option (Token × List Char)) :
    (self.reading read).map Prod.fst = read.map Prod.fst := by
  rw [reading, Option.map_map]
  rfl

theorem nextTokenFromStream_fst {self other : Tokenizer} (h : self.stream = other.stream) :
    self.nextTokenFromStream.map Prod.fst = other.nextTokenFromStream.map Prod.fst := by
  rw [nextTokenFromStream, nextTokenFromStream, h]
  cases skipWhitespaceAndComments other.stream with
  | nil => rfl
  | cons ch stream =>
    have hname : ({ self with stream := stream }.readIdentifierOrKeywordStartingWith ch).map
        Prod.fst = ({ other with stream := stream }.readIdentifierOrKeywordStartingWith ch).map
        Prod.fst := by
      rw [readIdentifierOrKeywordStartingWith, readIdentifierOrKeywordStartingWith]
      cases collectIdentifierCharsStartingWith ch stream with
      | none => rfl
      | some collected =>
        obtain ⟨text, rest⟩ := collected
        cases rest with
        | nil => rfl
        | cons c rest =>
          by_cases hcolon : c = ':'
          · subst hcolon
            cases rest with
            | nil => rfl
            | cons c rest =>
              by_cases hequal : c = '='
              · subst hequal
                rfl
              · simp [checkKeywordOrAssignment, hequal]
          · simp [hcolon]
    dsimp only
    split_ifs
    all_goals first
      | rw [reading_fst, reading_fst]
      | skip
    rw [classifyIdentifierOrSpecial, classifyIdentifierOrSpecial]
    split_ifs
    · exact hname
    · rw [reading_fst, reading_fst]
    · rw [reading_fst, reading_fst]
    · rfl

/-- Scanning a spaced text leaves the buffer alone, and never reads it. -/
theorem nextTokenFromStream_spaced {stream : List Char} (hspaced : Spaced stream) :
    ∃ read : Option (Token × List Char), (∀ token rest, read = some (token, rest) → Spaced rest) ∧
      ∀ self : Tokenizer, self.stream = stream → self.nextTokenFromStream = self.reading read := by
  have hscanned := (on stream).nextTokenFromStream_scanned
  have hself : ∀ self : Tokenizer, self.stream = stream → Scanned self
      (skipWhitespaceAndComments stream) self.nextTokenFromStream := by
    rintro self rfl
    exact self.nextTokenFromStream_scanned
  have hfst : ∀ self : Tokenizer, self.stream = stream →
      self.nextTokenFromStream.map Prod.fst = (on stream).nextTokenFromStream.map Prod.fst :=
    fun self h => nextTokenFromStream_fst h
  have hnames : ¬ NameAssigned (skipWhitespaceAndComments stream) := hspaced _ .first
  have hafter : ∀ rest, afterToken (skipWhitespaceAndComments stream) = some rest → Spaced rest :=
    fun rest => hspaced.after
  change Scanned _ (skipWhitespaceAndComments stream) _ at hscanned
  generalize (on stream).nextTokenFromStream = scanned at hscanned hfst
  generalize skipWhitespaceAndComments stream = text at hscanned hself hnames hafter
  cases hscanned with
  | ended =>
    refine ⟨some (Token.eof, []), ?_, ?_⟩
    · rintro token rest ⟨rfl, rfl⟩
      exact spaced_nil
    · intro self h
      have hown := hself self h
      generalize self.nextTokenFromStream = own at hown
      cases hown with
      | ended => rfl
      | trapped htext => exact absurd rfl htext
      | token _ htext => exact absurd rfl htext
      | assigned name hname => exact absurd hname hnames
  | trapped htext hnone =>
    refine ⟨none, nofun, ?_⟩
    intro self h
    have hown := hself self h
    generalize self.nextTokenFromStream = own at hown
    cases hown with
    | ended => exact absurd rfl htext
    | trapped => rfl
    | token _ _ hsome =>
      rw [hnone] at hsome
      exact nomatch hsome
    | assigned name hname => exact absurd hname hnames
  | @token text rest token htext hsome =>
    refine ⟨some (token, rest), ?_, ?_⟩
    · rintro token' rest' ⟨rfl, rfl⟩
      exact hafter _ hsome
    · intro self h
      have hown := hself self h
      have hsame := hfst self h
      generalize self.nextTokenFromStream = own at hown hsame
      cases hown with
      | ended => exact absurd rfl htext
      | trapped _ hnone =>
        rw [hnone] at hsome
        exact nomatch hsome
      | @token text rest' token' _ hsome' =>
        have hrest : rest' = rest := Option.some.inj (hsome'.symm.trans hsome)
        have htoken : token' = token := Option.some.inj hsame
        rw [hrest, htoken]
        rfl
      | assigned name hname => exact absurd hname hnames
  | assigned name hname => exact absurd hname hnames

/-- Peeking at a spaced text leaves the tokens of `next` as they are. -/
theorem peek_spaced {self : Tokenizer} (hspaced : Spaced self.stream) :
    self.peek = none ∧ self.next = none ∨
      ∃ token peeked, self.peek = some (token, peeked) ∧ self.next.map Prod.fst = some token ∧
        Spaced peeked.stream ∧ peeked.source = self.source ∧
        ∀ n, peeked.nthNext n = self.nthNext n := by
  cases hbuffered : self.buffered with
  | some token =>
    refine .inr ⟨token, self, ?_, ?_, hspaced, rfl, fun _ => rfl⟩
    · rw [peek, hbuffered]
    · rw [next, hbuffered]
      rfl
  | none =>
    obtain ⟨read, hrest, hread⟩ := nextTokenFromStream_spaced hspaced
    have hself := hread self rfl
    have hpeek : self.peek = (self.reading read).bind fun p =>
        some (p.1, { p.2 with buffered := some p.1 }) := by
      rw [peek, hbuffered, ← hself]
      rfl
    have hnext : self.next = self.reading read := by
      rw [next, hbuffered, ← hself]
    cases read with
    | none => exact .inl ⟨hpeek, hnext⟩
    | some taken =>
      obtain ⟨token, rest⟩ := taken
      refine .inr ⟨token, { self with stream := rest, buffered := some token }, hpeek, ?_,
        hrest token rest rfl, rfl, ?_⟩
      · rw [hnext]
        rfl
      · intro n
        cases n with
        | zero =>
          rw [nthNext, nthNext, hnext]
          rfl
        | succ n =>
          rw [nthNext, nthNext, hnext]
          show nthNext { self with stream := rest, buffered := none } n =
            nthNext { self with stream := rest } n
          rw [← hbuffered]

theorem next_spaced {self after : Tokenizer} {token : Token} (hspaced : Spaced self.stream)
    (h : self.next = some (token, after)) :
    Spaced after.stream ∧ after.source = self.source := by
  rw [next] at h
  cases hbuffered : self.buffered with
  | some buffered =>
    rw [hbuffered] at h
    obtain ⟨rfl, rfl⟩ := Prod.mk.inj (Option.some.inj h)
    exact ⟨hspaced, rfl⟩
  | none =>
    rw [hbuffered] at h
    obtain ⟨read, hrest, hread⟩ := nextTokenFromStream_spaced hspaced
    have hself : self.reading read = some (token, after) := (hread self rfl).symm.trans h
    cases read with
    | none => exact nomatch hself
    | some taken =>
      obtain ⟨rfl, rfl⟩ := Prod.mk.inj (Option.some.inj hself)
      exact ⟨hrest _ _ rfl, rfl⟩

/-- The answers from the token after `given` others are those of a tokenizer that has given
them. -/
theorem expected_shift {alone later : Nat → Option Token} {given : Nat}
    (h : ∀ i, later i = alone (i + given)) (operations : List Operation) (n : Nat) :
    expected later n operations = expected alone (n + given) operations := by
  induction operations generalizing n with
  | nil => rfl
  | cons operation operations ih =>
    have hgone : operation.gone (n + given) = operation.gone n + given := by
      cases operation with
      | next => exact Nat.add_right_comm n given 1
      | peek => rfl
    show ((later n).bind fun token => _) = (alone (n + given)).bind fun token => _
    rw [h, hgone, ih]

/-- **Every interleaving of `peek` and `next`** on a spaced text. -/
theorem run_spaced {self : Tokenizer} (hspaced : Spaced self.stream)
    (operations : List Operation) :
    (self.run operations).map Prod.fst = expected self.nthNext 0 operations ∧
      ∀ answers after, self.run operations = some (answers, after) →
        Spaced after.stream ∧ after.source = self.source := by
  induction operations generalizing self with
  | nil =>
    refine ⟨rfl, ?_⟩
    rintro answers after ⟨rfl, rfl⟩
    exact ⟨hspaced, rfl⟩
  | cons operation operations ih =>
    -- what one operation leaves is again a tokenizer on a spaced text
    have hstep : ∀ (token : Token) (after : Tokenizer),
        self.perform operation = some (token, after) →
        Spaced after.stream → after.source = self.source →
        (∀ n, after.nthNext n = self.nthNext (operation.gone n)) →
        self.nthNext 0 = some token →
        (self.run (operation :: operations)).map Prod.fst =
            expected self.nthNext 0 (operation :: operations) ∧
          ∀ answers last, self.run (operation :: operations) = some (answers, last) →
            Spaced last.stream ∧ last.source = self.source := by
      intro token after hperform hafter hsource hlater hfirst
      obtain ⟨hanswers, hlast⟩ := ih hafter
      have hrest : expected after.nthNext 0 operations =
          expected self.nthNext (operation.gone 0) operations := by
        cases operation with
        | next => exact expected_shift hlater operations 0
        | peek => exact congrArg (expected · 0 operations) (funext hlater)
      rw [run_cons hperform, expected_cons hfirst, ← hrest, ← hanswers]
      cases hrun : after.run operations with
      | none => exact ⟨rfl, nofun⟩
      | some ran =>
        obtain ⟨tokens, last⟩ := ran
        refine ⟨rfl, ?_⟩
        rintro answers last' ⟨rfl, rfl⟩
        obtain ⟨hspacedLast, hsourceLast⟩ := hlast tokens last hrun
        exact ⟨hspacedLast, hsourceLast.trans hsource⟩
    have htrapped : self.perform operation = none → self.nthNext 0 = none →
        (self.run (operation :: operations)).map Prod.fst =
            expected self.nthNext 0 (operation :: operations) ∧
          ∀ answers last, self.run (operation :: operations) = some (answers, last) →
            Spaced last.stream ∧ last.source = self.source := by
      intro hperform hfirst
      rw [run, expected, hperform, hfirst]
      exact ⟨rfl, nofun⟩
    cases operation with
    | next =>
      cases hnext : self.next with
      | none =>
        refine htrapped hnext ?_
        rw [nthNext, hnext]
        rfl
      | some taken =>
        obtain ⟨token, after⟩ := taken
        obtain ⟨hafter, hsource⟩ := next_spaced hspaced hnext
        refine hstep token after hnext hafter hsource ?_ ?_
        · intro n
          exact (nthNext_succ hnext n).symm
        · exact nthNext_zero hnext
    | peek =>
      rcases peek_spaced hspaced with ⟨hpeek, hnext⟩ |
        ⟨token, peeked, hpeek, hnext, hpeeked, hsource, hlater⟩
      · refine htrapped hpeek ?_
        rw [nthNext, hnext]
        rfl
      · exact hstep token peeked hpeek hpeeked hsource hlater hnext

/-! ## §4. A spaced text: `tokens` gives them all. -/

theorem tokenCountFrom_trapped {self : Tokenizer} (h : self.nextTokenFromStream = none) :
    self.tokenCountFrom = none := by
  rw [tokenCountFrom]
  split
  · rfl
  · rename_i heq
    rw [h] at heq
    cases heq

theorem tokenCountFrom_token {self after : Tokenizer} {token : Token}
    (h : self.nextTokenFromStream = some (token, after)) :
    self.tokenCountFrom = if token.isEof = true then some (0, after)
      else after.tokenCountFrom.map fun (count, after) => (1 + count, after) := by
  rw [tokenCountFrom]
  split
  · rename_i heq
    rw [h] at heq
    cases heq
  · rename_i heq
    obtain ⟨rfl, rfl⟩ := Prod.mk.inj (Option.some.inj (h.symm.trans heq))
    split_ifs <;> rfl

theorem fillTokens_token {self after : Tokenizer} {token : Token}
    (h : self.nextTokenFromStream = some (token, after)) (aCollection : List (Option Token))
    (index : Nat) :
    self.fillTokens aCollection index = if token.isEof = true then some (aCollection, after)
      else if index ≤ aCollection.length then
        after.fillTokens (aCollection.set (index - 1) (some token)) (index + 1)
      else none := by
  rw [fillTokens]
  split
  · rename_i heq
    rw [h] at heq
    cases heq
  · rename_i heq
    obtain ⟨rfl, rfl⟩ := Prod.mk.inj (Option.some.inj (h.symm.trans heq))
    split_ifs <;> rfl

/-- The first nil of an array is the place that the next token goes to. -/
theorem set_first_nil (done : List (Option Token)) (token : Token) (count : Nat) :
    (done ++ List.replicate (count + 1) none).set (done.length + 1 - 1) (some token) =
      done ++ [some token] ++ List.replicate count none := by
  rw [Nat.add_sub_cancel, List.set_append_right _ _ (le_refl _), Nat.sub_self, List.replicate_succ,
    List.set_cons_zero, List.append_assoc, List.singleton_append]

/-- The tokens of a spaced text, counted and put into an array of that size. -/
theorem tokens_of_spaced (size : Nat) (self : Tokenizer) (hsize : self.stream.length < size)
    (hspaced : Spaced self.stream) (hbuffered : self.buffered = none) :
    ∃ n, (∀ i < n, ∃ token, self.nthNext i = some token ∧ token.isEof = false) ∧
      ((∃ token, self.nthNext n = some token ∧ token.isEof = true ∧
          (∀ buffered, ∃ counted, { self with buffered := buffered }.tokenCountFrom =
            some (n, counted) ∧ counted.source = self.source) ∧
          ∀ buffered done, ({ self with buffered := buffered }.fillTokens
            (done ++ List.replicate n none) (done.length + 1)).map Prod.fst =
              some (done ++ (List.range n).map self.nthNext)) ∨
        (self.nthNext n = none ∧
          ∀ buffered, { self with buffered := buffered }.tokenCountFrom = none)) := by
  induction size generalizing self with
  | zero => exact absurd hsize (Nat.not_lt_zero _)
  | succ size ih =>
    obtain ⟨read, hrest, hread⟩ := nextTokenFromStream_spaced hspaced
    have hscan : ∀ buffered, { self with buffered := buffered }.nextTokenFromStream =
        { self with buffered := buffered }.reading read := fun buffered => hread _ rfl
    have hnext : self.next = self.reading read := by
      rw [next, hbuffered, ← hread self rfl]
    cases read with
    | none =>
      have hfirst : self.nthNext 0 = none := by
        rw [nthNext, hnext]
        rfl
      exact ⟨0, nofun, .inr ⟨hfirst, fun buffered => tokenCountFrom_trapped (hscan buffered)⟩⟩
    | some taken =>
      obtain ⟨token, rest⟩ := taken
      have hfirst : self.nthNext 0 = some token := nthNext_zero hnext
      by_cases heof : token.isEof = true
      · refine ⟨0, nofun, .inl ⟨token, hfirst, heof, ?_, ?_⟩⟩
        · intro buffered
          refine ⟨{ self with stream := rest, buffered := buffered }, ?_, rfl⟩
          rw [tokenCountFrom_token (hscan buffered), if_pos heof]
        · intro buffered done
          rw [fillTokens_token (hscan buffered), if_pos heof]
          rfl
      · have hlength := (nextTokenFromStream_progress (hscan none)).2.resolve_left heof
        have hshorter : rest.length < size := by
          replace hlength : rest.length < self.stream.length := hlength
          omega
        have hlater : ∀ i, self.nthNext (i + 1) = { self with stream := rest }.nthNext i :=
          nthNext_succ hnext
        obtain ⟨n, hbefore, hend⟩ := ih { self with stream := rest } hshorter
          (hrest token rest rfl) hbuffered
        refine ⟨n + 1, ?_, ?_⟩
        · intro i hi
          cases i with
          | zero => exact ⟨token, hfirst, Bool.eq_false_iff.mpr heof⟩
          | succ i =>
            rw [hlater]
            exact hbefore i (by omega)
        · rcases hend with ⟨last, hlast, hlastEof, hcount, hfill⟩ | ⟨hlast, hcount⟩
          · refine .inl ⟨last, (hlater n).trans hlast, hlastEof, ?_, ?_⟩
            · intro buffered
              obtain ⟨counted, hcounted, hsource⟩ := hcount buffered
              refine ⟨counted, ?_, hsource⟩
              rw [tokenCountFrom_token (hscan buffered), if_neg heof]
              show (tokenCountFrom { self with stream := rest, buffered := buffered }).map _ = _
              rw [hcounted, Nat.add_comm n 1]
              rfl
            · intro buffered done
              have hroom : done.length + 1 ≤
                  (done ++ List.replicate (n + 1) (none : Option Token)).length := by
                rw [List.length_append, List.length_replicate]
                omega
              have hplace : done.length + 1 + 1 = (done ++ [some token]).length + 1 := by
                rw [List.length_append, List.length_singleton]
              rw [fillTokens_token (hscan buffered), if_neg heof, if_pos hroom, set_first_nil,
                hplace, List.range_succ_eq_map, List.map_cons, List.map_map, hfirst]
              refine (hfill buffered (done ++ [some token])).trans ?_
              rw [List.append_assoc, List.singleton_append]
              have hmap : (List.range n).map { self with stream := rest }.nthNext =
                  (List.range n).map (self.nthNext ∘ Nat.succ) :=
                List.map_congr_left fun i _ => (hlater i).symm
              rw [hmap]
          · refine .inr ⟨(hlater n).trans hlast, ?_⟩
            intro buffered
            rw [tokenCountFrom_token (hscan buffered), if_neg heof]
            show (tokenCountFrom { self with stream := rest, buffered := buffered }).map _ = _
            rw [hcount buffered]
            rfl

end Tokenizer

theorem Spaced.transparent {source : List Char} (h : Spaced source) : PeekTransparent source where
  interleaved := fun operations =>
    (@Tokenizer.run_spaced (.on source) h operations).1
  tokens := by
    intro operations answers after hrun
    obtain ⟨n, hbefore, hend⟩ := Tokenizer.tokens_of_spaced (source.length + 1) (.on source)
      (Nat.lt_succ_self _) h rfl
    have hsource : after.source = source :=
      ((@Tokenizer.run_spaced (.on source) h operations).2 answers after hrun).2
    have hstart : { after with stream := after.source } =
        { Tokenizer.on source with buffered := after.buffered } := by
      rw [hsource]
      rfl
    refine ⟨n, hbefore, ?_⟩
    rcases hend with ⟨token, hlast, heof, hcount, hfill⟩ | ⟨hlast, hcount⟩
    · refine .inl ⟨token, hlast, heof, ?_⟩
      obtain ⟨counted, hcounted, hsame⟩ := hcount after.buffered
      have hsecond : { counted with stream := after.source } =
          { Tokenizer.on source with buffered := counted.buffered } := by
        rw [hsource]
        show Tokenizer.mk counted.source _ _ = _
        rw [hsame]
        rfl
      rw [Tokenizer.tokens, hstart, hcounted]
      show (Tokenizer.fillTokens { counted with stream := after.source } _ 1).map Prod.fst = _
      rw [hsecond]
      exact hfill counted.buffered []
    · refine .inr ⟨hlast, ?_⟩
      rw [Tokenizer.tokens, hstart, hcount]
      rfl

/-! ## §5. A name that is followed at once by `:=`. -/

namespace Tokenizer

theorem run_append (self : Tokenizer) (first later : List Operation) :
    self.run (first ++ later) = (self.run first).bind fun ran =>
      (ran.2.run later).map fun ended => (ran.1 ++ ended.1, ended.2) := by
  induction first generalizing self with
  | nil =>
    show self.run later = (self.run later).map fun ended => ([] ++ ended.1, ended.2)
    cases self.run later <;> rfl
  | cons operation operations ih =>
    rw [List.cons_append]
    cases hperform : self.perform operation with
    | none =>
      rw [run, run, hperform]
      rfl
    | some taken =>
      rw [run_cons hperform, run_cons hperform, ih]
      cases taken.2.run operations with
      | none => rfl
      | some ran =>
        show ((ran.2.run later).map _).map _ = (ran.2.run later).map _
        rw [Option.map_map]
        rfl

/-- `next` alone. -/
theorem run_nexts (self : Tokenizer) (n : Nat) :
    (self.run (List.replicate n .next)).map Prod.fst =
      expected self.nthNext 0 (List.replicate n .next) := by
  induction n generalizing self with
  | zero => rfl
  | succ n ih =>
    rw [List.replicate_succ]
    cases hnext : self.next with
    | none =>
      rw [run, expected, nthNext]
      show (self.next.bind _).map Prod.fst = (self.next.map Prod.fst).bind _
      rw [hnext]
      rfl
    | some taken =>
      have hlater : ∀ i, taken.2.nthNext i = self.nthNext (i + 1) := fun i =>
        (nthNext_succ hnext i).symm
      have hrest := (ih taken.2).trans (expected_shift hlater (List.replicate n .next) 0)
      rw [run_next hnext, expected_cons (nthNext_zero hnext), Option.map_map]
      show _ = (expected self.nthNext (0 + 1) (List.replicate n .next)).map _
      rw [← hrest, Option.map_map]
      rfl

/-- A run of `next` and its first token. -/
theorem run_nexts_succ {self after : Tokenizer} {n : Nat} {answers : List Token}
    (h : self.run (List.replicate (n + 1) .next) = some (answers, after)) :
    ∃ token later tokens, self.next = some (token, later) ∧
      later.run (List.replicate n .next) = some (tokens, after) ∧ answers = token :: tokens := by
  rw [List.replicate_succ] at h
  cases hnext : self.next with
  | none =>
    rw [run] at h
    change self.next.bind _ = _ at h
    rw [hnext] at h
    exact nomatch h
  | some taken =>
    obtain ⟨token, later⟩ := taken
    rw [run_next hnext] at h
    cases hlater : later.run (List.replicate n .next) with
    | none =>
      rw [hlater] at h
      exact nomatch h
    | some ran =>
      rw [hlater] at h
      obtain ⟨rfl, rfl⟩ := Prod.mk.inj (Option.some.inj h)
      exact ⟨token, later, ran.1, rfl, hlater, rfl⟩

theorem nthNext_after {self after : Tokenizer} {n : Nat} {answers : List Token}
    (h : self.run (List.replicate n .next) = some (answers, after)) (i : Nat) :
    after.nthNext i = self.nthNext (i + n) := by
  induction n generalizing self answers with
  | zero =>
    obtain ⟨-, rfl⟩ := Prod.mk.inj (Option.some.inj h)
    rfl
  | succ n ih =>
    obtain ⟨token, later, tokens, hnext, hrun, -⟩ := run_nexts_succ h
    exact (ih hrun).trans (nthNext_succ hnext (i + n)).symm

/-- What is left to scan or to give. -/
def left (self : Tokenizer) : Nat := 2 * self.stream.length + self.buffered.toList.length

/-- `next` gives the end after as many tokens as there is text. -/
theorem next_left {self after : Tokenizer} {token : Token} (h : self.next = some (token, after))
    (heof : token.isEof = false) : after.left < self.left := by
  rw [next] at h
  cases hbuffered : self.buffered with
  | some buffered =>
    rw [hbuffered] at h
    obtain ⟨-, rfl⟩ := Prod.mk.inj (Option.some.inj h)
    rw [left, left, hbuffered]
    exact Nat.lt_succ_self _
  | none =>
    rw [hbuffered] at h
    have hprogress := (nextTokenFromStream_progress h).2.resolve_left (Bool.eq_false_iff.mp heof)
    have hone : after.buffered.toList.length ≤ 1 := by cases after.buffered <;> simp
    rw [left, left, hbuffered]
    show 2 * after.stream.length + after.buffered.toList.length < 2 * self.stream.length + 0
    omega

theorem run_nexts_le {self after : Tokenizer} {n : Nat} {answers : List Token}
    (h : self.run (List.replicate n .next) = some (answers, after))
    (heof : ∀ token ∈ answers, token.isEof = false) : n ≤ self.left := by
  induction n generalizing self answers with
  | zero => exact Nat.zero_le _
  | succ n ih =>
    obtain ⟨token, later, tokens, hnext, hrun, rfl⟩ := run_nexts_succ h
    have hless := next_left hnext (heof token (List.mem_cons_self ..))
    have hrest := ih hrun fun other hother => heof other (List.mem_cons_of_mem _ hother)
    omega

/-- Where a token of the text begins, `next` alone gets to, unless a name with its `:=`
comes first. -/
theorem reaches_token {source text : List Char} (h : TokenAt source text) :
    ∃ n answers self, (on source).run (List.replicate n .next) = some (answers, self) ∧
      self.buffered = none ∧ (skipWhitespaceAndComments self.stream = text ∨
        NameAssigned (skipWhitespaceAndComments self.stream)) := by
  induction h with
  | first => exact ⟨0, [], on source, rfl, rfl, .inl rfl⟩
  | @after text rest h hafter ih =>
    obtain ⟨n, answers, self, hrun, hbuffered, htext⟩ := ih
    rcases htext with htext | hname
    · by_cases hname : NameAssigned text
      · exact ⟨n, answers, self, hrun, hbuffered, .inr (htext ▸ hname)⟩
      have hscanned := self.nextTokenFromStream_scanned
      rw [htext] at hscanned
      have hnext : self.next = self.nextTokenFromStream := by rw [next, hbuffered]
      rw [← hnext] at hscanned
      generalize hscan : self.next = scanned at hscanned
      cases hscanned with
      | ended => exact nomatch hafter
      | trapped _ hnone =>
        rw [hnone] at hafter
        exact nomatch hafter
      | @token text rest' token _ hsome =>
        have hrest : rest' = rest := Option.some.inj (hsome.symm.trans hafter)
        refine ⟨n + 1, answers ++ [token], { self with stream := rest' }, ?_, hbuffered, .inl ?_⟩
        · rw [List.replicate_succ', run_append, hrun]
          show ((self.run [.next]).map _) = _
          show (((self.next.bind _)).map _) = _
          rw [hscan]
          rfl
        · rw [hrest]
      | assigned name hassigned => exact absurd hassigned hname
    · exact ⟨n, answers, self, hrun, hbuffered, .inr hname⟩

theorem expected_nexts_append (alone : Nat → Option Token) (n k : Nat)
    (operations : List Operation) :
    expected alone n (List.replicate k .next ++ operations) =
      (expected alone n (List.replicate k .next)).bind fun tokens =>
        (expected alone (n + k) operations).map (tokens ++ ·) := by
  induction k generalizing n with
  | zero =>
    show expected alone n operations = (expected alone n operations).map fun tokens => tokens
    cases expected alone n operations <;> rfl
  | succ k ih =>
    rw [List.replicate_succ, List.cons_append]
    cases hfirst : alone n with
    | none =>
      rw [expected, expected, hfirst]
      rfl
    | some token =>
      rw [expected_cons hfirst, expected_cons hfirst]
      show (expected alone (n + 1) (List.replicate k .next ++ operations)).map _ =
        ((expected alone (n + 1) (List.replicate k .next)).map _).bind _
      rw [ih, Nat.add_right_comm, Nat.add_assoc n k 1]
      cases expected alone (n + 1) (List.replicate k .next) with
      | none => rfl
      | some tokens =>
        show ((expected alone (n + (k + 1)) operations).map _).map _ =
          (expected alone (n + (k + 1)) operations).map _
        rw [Option.map_map]
        rfl

/-- A name read together with its `:=`: the two tokens that `next` gives, and the one that is
left when the name was peeked at. -/
theorem assigned_next {self : Tokenizer} (hbuffered : self.buffered = none)
    (hname : NameAssigned (skipWhitespaceAndComments self.stream)) :
    ∃ (name : Token) (rest : List Char),
      self.next = some (name, { self with stream := rest, buffered := some assignment }) ∧
      self.peek = some (name, { self with stream := rest, buffered := some name }) := by
  have hscanned := self.nextTokenFromStream_scanned
  generalize skipWhitespaceAndComments self.stream = text at hscanned hname
  have hscan : ∃ (name : Token) (rest : List Char), self.nextTokenFromStream =
      some (name, { self with stream := rest, buffered := some assignment }) := by
    generalize self.nextTokenFromStream = scanned at hscanned
    cases hscanned with
    | ended =>
      obtain ⟨ch, stream, after, htext, -⟩ := hname
      exact nomatch htext
    | trapped _ _ hnone => exact absurd hname hnone
    | token _ _ _ hnone => exact absurd hname hnone
    | @assigned text rest name => exact ⟨identifier name, rest, rfl⟩
  obtain ⟨name, rest, hscan⟩ := hscan
  refine ⟨name, rest, ?_, ?_⟩
  · rw [next, hbuffered]
    exact hscan
  · rw [peek, hbuffered]
    show self.nextTokenFromStream.bind _ = _
    rw [hscan]
    rfl

end Tokenizer

/-- A name followed at once by `:=` is peeked at: the `:=` is lost, and `next` alone would have
to give `:=` for ever. -/
theorem PeekTransparent.spaced {source : List Char} (h : PeekTransparent source) :
    Spaced source := by
  intro text htext hassigned
  obtain ⟨n, answers, self, hrun, hbuffered, hreached⟩ := Tokenizer.reaches_token htext
  have hname : NameAssigned (skipWhitespaceAndComments self.stream) := by
    rcases hreached with heq | hname
    · rw [heq]
      exact hassigned
    · exact hname
  obtain ⟨name, rest, hnext, hpeek⟩ := Tokenizer.assigned_next hbuffered hname
  -- the tokenizer after the name and its `:=`, whichever way they were read
  have hlast : ∃ last : Tokenizer, last = { self with stream := rest, buffered := none } := ⟨_, rfl⟩
  obtain ⟨last, hlast⟩ := hlast
  have hafterName : { self with stream := rest, buffered := some name }.next =
      some (name, last) := by
    rw [hlast]
    rfl
  have hassignment : { self with stream := rest, buffered := some assignment }.next =
      some (assignment, last) := by
    rw [hlast]
    rfl
  generalize halone : (Tokenizer.on source).nthNext = alone
  have hfirst : alone n = some name := by
    have hsame := Tokenizer.nthNext_after hrun 0
    rw [halone, Nat.zero_add] at hsame
    rw [← hsame, Tokenizer.nthNext_zero hnext]
  have hsecond : alone (n + 1) = some assignment := by
    have hsame := Tokenizer.nthNext_after hrun 1
    rw [halone, Nat.add_comm 1 n] at hsame
    rw [← hsame, Tokenizer.nthNext_succ hnext, Tokenizer.nthNext_zero hassignment]
  have hlater : ∀ i, last.nthNext i = alone (i + (n + 2)) := by
    intro i
    have hsame := Tokenizer.nthNext_after hrun (i + 2)
    have hplace : i + 2 + n = i + (n + 2) := by omega
    rw [halone, hplace] at hsame
    rw [← hsame, Tokenizer.nthNext_succ hnext, Tokenizer.nthNext_succ hassignment]
  have hanswers : expected alone 0 (List.replicate n .next) = some answers := by
    have hnexts := Tokenizer.run_nexts (.on source) n
    rw [hrun, halone] at hnexts
    exact hnexts.symm
  -- peeking at the name, and going on with `next`, gives what `next` alone gives one token later
  have hskipped : ∀ m, (last.run (List.replicate m .next)).map Prod.fst =
      expected alone (n + 1) (List.replicate m .next) := by
    intro m
    have hwhole :=
      h.interleaved (List.replicate n .next ++ .peek :: .next :: List.replicate m .next)
    rw [halone, Tokenizer.run_append, hrun, Tokenizer.expected_nexts_append, hanswers] at hwhole
    change ((Tokenizer.run self (.peek :: .next :: List.replicate m .next)).map _).map Prod.fst =
      (expected alone (0 + n) (.peek :: .next :: List.replicate m .next)).map (answers ++ ·)
      at hwhole
    have hpeeked : Tokenizer.run self (.peek :: .next :: List.replicate m .next) =
        (last.run (List.replicate m .next)).map fun ran => (name :: name :: ran.1, ran.2) := by
      rw [Tokenizer.run_peek hpeek, Tokenizer.run_next hafterName, Option.map_map]
      rfl
    have hexpected : expected alone (0 + n) (.peek :: .next :: List.replicate m .next) =
        (expected alone (n + 1) (List.replicate m .next)).map fun tokens =>
          name :: name :: tokens := by
      rw [Nat.zero_add, Tokenizer.expected_cons hfirst]
      show (expected alone n (.next :: List.replicate m .next)).map _ = _
      rw [Tokenizer.expected_cons hfirst, Option.map_map]
      rfl
    rw [hpeeked, hexpected] at hwhole
    cases hran : last.run (List.replicate m .next) with
    | none =>
      rw [hran] at hwhole
      cases hgiven : expected alone (n + 1) (List.replicate m .next) with
      | none => rfl
      | some tokens =>
        rw [hgiven] at hwhole
        exact nomatch hwhole
    | some ran =>
      rw [hran] at hwhole
      cases hgiven : expected alone (n + 1) (List.replicate m .next) with
      | none =>
        rw [hgiven] at hwhole
        exact nomatch hwhole
      | some tokens =>
        rw [hgiven] at hwhole
        have hlists := List.append_cancel_left (Option.some.inj hwhole)
        have htokens : ran.1 = tokens := (List.cons.inj (List.cons.inj hlists).2).2
        show some ran.1 = some tokens
        rw [htokens]
  have hforever : ∀ m, expected last.nthNext 0 (List.replicate m .next) =
      some (List.replicate m assignment) := by
    intro m
    induction m with
    | zero => rfl
    | succ m ih =>
      rw [← Tokenizer.run_nexts, hskipped, List.replicate_succ, Tokenizer.expected_cons hsecond]
      show (expected alone (n + 2) (List.replicate m .next)).map _ = _
      have hshift := Tokenizer.expected_shift hlater (List.replicate m .next) 0
      rw [Nat.zero_add] at hshift
      rw [← hshift, ih]
      rfl
  have hmany := (Tokenizer.run_nexts last (last.left + 1)).trans (hforever _)
  cases hran : last.run (List.replicate (last.left + 1) .next) with
  | none =>
    rw [hran] at hmany
    exact nomatch hmany
  | some ran =>
    obtain ⟨tokens, after⟩ := ran
    rw [hran] at hmany
    have htokens : tokens = List.replicate (last.left + 1) assignment := Option.some.inj hmany
    have hbound := Tokenizer.run_nexts_le hran (by
      intro token htoken
      rw [htokens] at htoken
      rw [List.eq_of_mem_replicate htoken]
      rfl)
    omega

/-- **Peeking is transparent exactly where no name is followed at once by `:=`.** -/
theorem peek_transparent_iff (source : List Char) : PeekTransparent source ↔ Spaced source :=
  ⟨PeekTransparent.spaced, Spaced.transparent⟩

/-- Peeking at the name of `x:=3` loses its `:=`. -/
theorem unspaced_assignment_not_transparent : ¬ PeekTransparent "x:=3".toList := by
  intro h
  have hrun := h.interleaved [.peek, .next, .next]
  revert hrun
  decide +kernel

end LivingObjects.Smalltalk
