/-
  LivingObjects.Compiler.MethodBody — the parser of method bodies, and that it ends.

  `bc_parse_method_body` reads the statements of a body and counts what it sees.  Its
  functions call each other, read one token too many and put it back; a token in the hand
  or in the buffer therefore counts as text that is left.  No function leaves more than it
  found, every turn of a loop takes something away, and so a number of calls that grows
  with the length of the source is enough.
-/
import LivingObjects.Compiler.Lookahead

namespace LivingObjects.Compiler

open LivingObjects.Lib LivingObjects.Lib.Attempt

/-! ## §1. The parser. -/

/-- `BMethodBody`. -/
structure BMethodBody where
  tempNames : List Name
  assignmentCount : Nat
  returnCount : Nat
  literalIntegerCount : Nat
  literalCharacterCount : Nat
  literalStringCount : Nat
  literalSymbolCount : Nat
  messageSendCount : Nat
deriving DecidableEq, Repr

/-- A parser, and what it has counted. -/
structure ParseState where
  parser : BParser
  body : BMethodBody

def ParseState.init (source : List Char) : ParseState :=
  { parser := bpInit source, body := ⟨[], 0, 0, 0, 0, 0, 0, 0⟩ }

abbrev Parse := Attempt ParseState

def parseNext : Parse BToken := .modifyGet fun s =>
  ((bpNext s.parser).1, { s with parser := (bpNext s.parser).2 })

def parseUnread (token : BToken) : Parse Unit :=
  .modify fun s => { s with parser := bpUnread s.parser token }

/-- Change what has been counted. -/
def count (f : BMethodBody → BMethodBody) : Parse Unit :=
  .modify fun s => { s with body := f s.body }

def countSend : Parse Unit :=
  count fun body => { body with messageSendCount := body.messageSendCount + 1 }

def countReturn : Parse Unit := count fun body => { body with returnCount := body.returnCount + 1 }

def countAssignment : Parse Unit :=
  count fun body => { body with assignmentCount := body.assignmentCount + 1 }

/-- `count_literal`. -/
def countLiteral (token : BToken) : Parse Unit := count fun body =>
  match token.type with
  | .integer => { body with literalIntegerCount := body.literalIntegerCount + 1 }
  | .character => { body with literalCharacterCount := body.literalCharacterCount + 1 }
  | .string => { body with literalStringCount := body.literalStringCount + 1 }
  | .symbol => { body with literalSymbolCount := body.literalSymbolCount + 1 }
  | _ => body

/-- `parse_literal_array`, behind `#(`. -/
def parseLiteralArray : Nat → Parse Unit
  | 0 => .outOfFuel
  | fuel + 1 => do
    let token ← parseNext
    if token.type = .eof then .reject
    else if token.isSpecial ")" then pure ()
    else if token.isSpecial "#(" then do
      parseLiteralArray fuel
      parseLiteralArray fuel
    else if token.type = .integer ∨ token.type = .character ∨ token.type = .string
        ∨ token.type = .symbol then do
      countLiteral token
      parseLiteralArray fuel
    else .reject

/-- The arguments in `parse_block`, behind the first colon. -/
def parseBlockArguments : Nat → Parse Unit
  | 0 => .outOfFuel
  | fuel + 1 => do
    let arg ← parseNext
    if arg.type = .identifier then do
      let next ← parseNext
      if next.isSpecial ":" then parseBlockArguments fuel
      else if next.isSpecial "|" then pure ()
      else .reject
    else .reject

/-- A return counts, and its expression follows. -/
def parseReturn (token : BToken) : Parse BToken :=
  if token.isSpecial "^" then do
    countReturn
    let token ← parseNext
    if token.type = .eof then .reject else return token
  else return token

/-- A token at which an expression ends. -/
def BToken.isCloser (token : BToken) : Bool :=
  token.isSpecial "." || token.isSpecial ")" || token.isSpecial "]"

mutual

/-- `parse_statements_until`; a method has no terminator. -/
def parseStatementsUntil : Nat → Option String → Parse Unit
  | 0, _ => .outOfFuel
  | fuel + 1, terminator => do
    let token ← parseNext
    parseStatementsLoop fuel terminator token

def parseStatementsLoop : Nat → Option String → BToken → Parse Unit
  | 0, _, _ => .outOfFuel
  | fuel + 1, terminator, token => do
    match ← parseStatement fuel terminator token with
    | none => pure ()
    | some token => parseStatementsLoop fuel terminator token

/-- One turn of the loop, and the token of the next one unless the loop is over. -/
def parseStatement : Nat → Option String → BToken → Parse (Option BToken)
  | 0, _, _ => .outOfFuel
  | fuel + 1, terminator, token =>
    if token.type = .eof then
      if terminator = none then pure none else .reject
    else if terminator.any token.isSpecial then pure none
    else if token.isSpecial "." then do
      let token ← parseNext
      return some token
    else do
      let token ← parseReturn token
      parseAssigned fuel token
      let token ← parseNext
      return some token

/-- An expression, perhaps assigned to a variable. -/
def parseAssigned : Nat → BToken → Parse Unit
  | 0, _ => .outOfFuel
  | fuel + 1, token =>
    if token.type = .identifier then do
      let maybeAssign ← parseNext
      if maybeAssign.isSpecial ":=" then do
        countAssignment
        let assignedValueStart ← parseNext
        if assignedValueStart.type = .eof then .reject
        else parseExpressionFromFirst fuel assignedValueStart
      else do
        parseUnread maybeAssign
        parseExpressionFromFirst fuel token
    else parseExpressionFromFirst fuel token

/-- `parse_block`, behind the bracket. -/
def parseBlock : Nat → Parse Unit
  | 0 => .outOfFuel
  | fuel + 1 => do
    let token ← parseNext
    (if token.isSpecial ":" then parseBlockArguments fuel else parseUnread token)
    parseStatementsUntil fuel (some "]")

/-- `parse_primary`. -/
def parsePrimary : Nat → Parse Unit
  | 0 => .outOfFuel
  | fuel + 1 => do
    let token ← parseNext
    if token.type = .eof then .reject
    else if token.isCloser then do
      parseUnread token
      .reject
    else do
      countLiteral token
      if token.isSpecial "(" then do
        let first ← parseNext
        if first.type = .eof then .reject
        else do
          parseExpressionFromFirst fuel first
          let close ← parseNext
          if close.isSpecial ")" then pure () else .reject
      else if token.isSpecial "[" then parseBlock fuel
      else if token.isSpecial "#(" then parseLiteralArray fuel
      else pure ()

/-- `parse_expression_from_first`. -/
def parseExpressionFromFirst : Nat → BToken → Parse Unit
  | 0, _ => .outOfFuel
  | fuel + 1, first => do
    (if first.isSpecial "[" then parseBlock fuel
      else if first.isSpecial "#(" then parseLiteralArray fuel
      else if first.isSpecial "(" then do
        parseUnread first
        parsePrimary fuel
      else pure ())
    countLiteral first
    parseMessages fuel

/-- The loop of `parse_expression_from_first`. -/
def parseMessages : Nat → Parse Unit
  | 0 => .outOfFuel
  | fuel + 1 => do
    let token ← parseNext
    if token.type = .eof then pure ()
    else if token.isCloser then parseUnread token
    else if token.isSpecial ";" then parseMessages fuel
    else if token.type = .identifier then do
      countSend
      parseMessages fuel
    else if token.isBinary then do
      countSend
      parsePrimary fuel
      parseMessages fuel
    else if token.type = .keyword then do
      countSend
      parsePrimary fuel
      parseKeywords fuel
      parseMessages fuel
    else .reject

/-- The other keywords of a message. -/
def parseKeywords : Nat → Parse Unit
  | 0 => .outOfFuel
  | fuel + 1 => do
    let maybeNextKeyword ← parseNext
    if maybeNextKeyword.type = .keyword then do
      parsePrimary fuel
      parseKeywords fuel
    else parseUnread maybeNextKeyword

end

/-- The temporaries of a method, with room for as many, and the token behind them. -/
def parseTemps (room : Nat) : Parse BToken := do
  let temp ← parseNext
  if temp.isSpecial "|" then parseNext
  else
    match room with
    | 0 => .reject
    | room + 1 =>
      if temp.type = .identifier then do
        count fun body => { body with tempNames := body.tempNames ++ [nameField temp.text] }
        parseTemps room
      else .reject

/-- `bc_parse_method_body`, with a number of calls. -/
def bcParseMethodBody (fuel : Nat) (source : List Char) : Tried ParseState Unit :=
  (do
    let token ← parseNext
    let token ← (if token.isSpecial "|" then parseTemps 16 else pure token)
    parseUnread token
    parseStatementsUntil fuel none : Parse Unit) (.init source)

/-! ## §2. What is left. -/

/-- What a token in the hand counts: all but the end. -/
def BToken.cost (token : BToken) : Nat := if token.type = .eof then 0 else 1

/-- The text that is left, and the token in the buffer. -/
def BParser.left (parser : BParser) : Nat :=
  parser.rest.length + parser.buffered.elim 0 BToken.cost

theorem btNext_left (source : List Char) :
    (btNext source).2.length + (btNext source).1.cost ≤ source.length := by
  obtain ⟨hsuffix, hend | hless⟩ := btNext_progress source
  · have hlength := hsuffix.length_le
    rw [BToken.cost, if_pos hend]
    exact hlength
  · rw [BToken.cost]
    split <;> omega

/-- **Reading a token takes it away**, and empties the buffer. -/
theorem bpNext_left (p : BParser) :
    (bpNext p).2.buffered = none ∧ (bpNext p).2.left + (bpNext p).1.cost ≤ p.left := by
  obtain ⟨rest, buffered⟩ := p
  cases buffered with
  | none => exact ⟨rfl, btNext_left rest⟩
  | some token => exact ⟨rfl, Nat.le_refl _⟩

/-- **Putting a token back** returns what it counts. -/
theorem bpUnread_left {p : BParser} (h : p.buffered = none) (token : BToken) :
    (bpUnread p token).left = p.left + token.cost := by
  rw [BParser.left, BParser.left, h]
  rfl

theorem BToken.cost_of_ne {token : BToken} (h : token.type ≠ .eof) : token.cost = 1 := if_neg h

/-! ## §3. What each function leaves. -/

/-- What is left in a state of the parser. -/
def ParseState.left (s : ParseState) : Nat := s.parser.left

/-- The two programs end alike, and leave no more than this. -/
abbrev Leaves {α : Type} (m n : Parse α) (s : ParseState) (left : Nat) : Prop :=
  EndAlike m n s fun _ s' => s'.left ≤ left

section Steps

variable {α β : Type} {f g : BToken → Parse α} {k l : Unit → Parse α} {s : ParseState}
variable {Q : α → ParseState → Prop}

theorem ends_next (h : ∀ token s', s'.parser.buffered = none → s'.left + token.cost ≤ s.left →
    EndAlike (f token) (g token) s' Q) : EndAlike (parseNext >>= f) (parseNext >>= g) s Q := by
  have hread := bpNext_left s.parser
  exact h (bpNext s.parser).1 { s with parser := (bpNext s.parser).2 } hread.1 hread.2

theorem ends_unread {token : BToken} (hempty : s.parser.buffered = none)
    (h : ∀ s', s'.left = s.left + token.cost → EndAlike (k ()) (l ()) s' Q) :
    EndAlike (parseUnread token >>= k) (parseUnread token >>= l) s Q :=
  h { s with parser := bpUnread s.parser token } (bpUnread_left hempty token)

theorem ends_count {change : BMethodBody → BMethodBody}
    (h : ∀ s', s'.parser = s.parser → EndAlike (k ()) (l ()) s' Q) :
    EndAlike (count change >>= k) (count change >>= l) s Q :=
  h { s with body := change s.body } rfl

theorem ends_last {left : Nat} (h : s.left ≤ left) :
    EndAlike parseNext parseNext s fun token s' =>
      s'.parser.buffered = none ∧ s'.left + token.cost ≤ left := by
  have hread := bpNext_left s.parser
  exact EndAlike.modifyGet ⟨hread.1, Nat.le_trans hread.2 h⟩

theorem leaves_unread {token : BToken} {left : Nat} (hempty : s.parser.buffered = none)
    (h : s.left + token.cost ≤ left) : Leaves (parseUnread token) (parseUnread token) s left := by
  refine EndAlike.modify ?_
  show (bpUnread s.parser token).left ≤ left
  rw [bpUnread_left hempty]
  exact h

end Steps

/-! ## §4. Enough calls. -/

theorem leaves_literalArray {fuel more : Nat} {s : ParseState} (h : 7 * s.left + 1 ≤ fuel)
    (hmore : 7 * s.left + 1 ≤ more) :
    Leaves (parseLiteralArray fuel) (parseLiteralArray more) s s.left := by
  induction fuel generalizing more s with
  | zero => omega
  | succ fuel ih =>
    obtain ⟨more, rfl⟩ : ∃ m, more = m + 1 := ⟨more - 1, by omega⟩
    rw [parseLiteralArray, parseLiteralArray]
    refine ends_next fun token s₁ hempty hleft => EndAlike.ite (fun _ => .reject) fun heof => ?_
    rw [BToken.cost_of_ne heof] at hleft
    refine EndAlike.ite (fun _ => .pure (by omega)) fun _ => EndAlike.ite (fun _ => ?_) fun _ =>
      EndAlike.ite (fun _ => ?_) fun _ => .reject
    · refine (ih (s := s₁) (by omega) (by omega)).bind fun _ s₂ hleft₂ => ?_
      exact (ih (by omega) (by omega)).imp fun _ s₃ hleft₃ => by omega
    · refine ends_count fun s₂ hparser => ?_
      have hleft₂ : s₂.left = s₁.left := congrArg BParser.left hparser
      exact (ih (by omega) (by omega)).imp fun _ s₃ hleft₃ => by omega

theorem leaves_blockArguments {fuel more : Nat} {s : ParseState} (h : 7 * s.left + 1 ≤ fuel)
    (hmore : 7 * s.left + 1 ≤ more) :
    Leaves (parseBlockArguments fuel) (parseBlockArguments more) s s.left := by
  induction fuel generalizing more s with
  | zero => omega
  | succ fuel ih =>
    obtain ⟨more, rfl⟩ : ∃ m, more = m + 1 := ⟨more - 1, by omega⟩
    rw [parseBlockArguments, parseBlockArguments]
    refine ends_next fun arg s₁ hempty hleft => EndAlike.ite (fun hname => ?_) fun _ => .reject
    rw [BToken.cost_of_ne (by rw [hname]; decide)] at hleft
    refine ends_next fun next s₂ hempty₂ hleft₂ => EndAlike.ite (fun _ => ?_) fun _ =>
      EndAlike.ite (fun _ => .pure (by omega)) fun _ => .reject
    exact (ih (by omega) (by omega)).imp fun _ s₃ hleft₃ => by omega

/-- What is read by a return is a token, and not the end. -/
theorem ends_return {token : BToken} {s : ParseState} (hempty : s.parser.buffered = none)
    (heof : token.type ≠ .eof) :
    EndAlike (parseReturn token) (parseReturn token) s fun token s' =>
      token.type ≠ .eof ∧ s'.parser.buffered = none ∧ s'.left ≤ s.left := by
  refine EndAlike.ite (fun _ => ?_) fun _ => .pure ⟨heof, hempty, Nat.le_refl _⟩
  refine ends_count fun s₁ hparser => ends_next fun token s₂ hempty₂ hleft₂ => ?_
  have hleft₁ : s₁.left = s.left := congrArg BParser.left hparser
  refine EndAlike.ite (fun _ => .reject) fun heof => .pure ⟨heof, hempty₂, by omega⟩

/-- What is left after a turn of the loop of statements. -/
def AfterTurn (before : Nat) (turn : Option BToken) (s : ParseState) : Prop :=
  match turn with
  | none => s.left ≤ before
  | some token => s.parser.buffered = none ∧ s.left + token.cost < before

/-- So many calls are enough for every function, whatever more there are. -/
structure Enough (fuel : Nat) : Prop where
  statementsUntil : ∀ {more s terminator}, 7 * s.left + 6 ≤ fuel → 7 * s.left + 6 ≤ more →
    Leaves (parseStatementsUntil fuel terminator) (parseStatementsUntil more terminator) s s.left
  statementsLoop : ∀ {more s terminator} {token : BToken}, s.parser.buffered = none →
    7 * (s.left + token.cost) + 5 ≤ fuel → 7 * (s.left + token.cost) + 5 ≤ more →
      Leaves (parseStatementsLoop fuel terminator token)
        (parseStatementsLoop more terminator token) s (s.left + token.cost)
  statement : ∀ {more s terminator} {token : BToken}, s.parser.buffered = none →
    7 * (s.left + token.cost) + 4 ≤ fuel → 7 * (s.left + token.cost) + 4 ≤ more →
      EndAlike (parseStatement fuel terminator token) (parseStatement more terminator token) s
        (AfterTurn (s.left + token.cost))
  assigned : ∀ {more s} {token : BToken}, s.parser.buffered = none → token.type ≠ .eof →
    7 * (s.left + 1) + 3 ≤ fuel → 7 * (s.left + 1) + 3 ≤ more →
      Leaves (parseAssigned fuel token) (parseAssigned more token) s s.left
  block : ∀ {more s}, 7 * s.left + 7 ≤ fuel → 7 * s.left + 7 ≤ more →
    Leaves (parseBlock fuel) (parseBlock more) s s.left
  primary : ∀ {more s}, 7 * s.left + 1 ≤ fuel → 7 * s.left + 1 ≤ more →
    EndAlike (parsePrimary fuel) (parsePrimary more) s fun _ s' => s'.left < s.left
  expression : ∀ {more s} {first : BToken},
    (first.type = .identifier ∨ s.parser.buffered = none) → first.type ≠ .eof →
    7 * (s.left + 1) + 2 ≤ fuel → 7 * (s.left + 1) + 2 ≤ more →
      Leaves (parseExpressionFromFirst fuel first) (parseExpressionFromFirst more first) s s.left
  messages : ∀ {more s}, 7 * s.left + 1 ≤ fuel → 7 * s.left + 1 ≤ more →
    Leaves (parseMessages fuel) (parseMessages more) s s.left
  keywords : ∀ {more s}, 7 * s.left + 1 ≤ fuel → 7 * s.left + 1 ≤ more →
    Leaves (parseKeywords fuel) (parseKeywords more) s s.left

section Turn

variable {fuel more : Nat} {s : ParseState} {terminator : Option String} {token : BToken}

theorem Enough.statementsUntil_succ (h : Enough fuel) (hfuel : 7 * s.left + 6 ≤ fuel + 1)
    (hmore : 7 * s.left + 6 ≤ more + 1) :
    Leaves (parseStatementsUntil (fuel + 1) terminator)
      (parseStatementsUntil (more + 1) terminator) s s.left := by
  rw [parseStatementsUntil, parseStatementsUntil]
  refine ends_next fun token s₁ hempty hleft => ?_
  exact (h.statementsLoop hempty (by omega) (by omega)).imp fun _ s₂ hleft₂ => by omega

theorem Enough.statementsLoop_succ (h : Enough fuel) (hempty : s.parser.buffered = none)
    (hfuel : 7 * (s.left + token.cost) + 5 ≤ fuel + 1)
    (hmore : 7 * (s.left + token.cost) + 5 ≤ more + 1) :
    Leaves (parseStatementsLoop (fuel + 1) terminator token)
      (parseStatementsLoop (more + 1) terminator token) s (s.left + token.cost) := by
  rw [parseStatementsLoop, parseStatementsLoop]
  refine (h.statement hempty (by omega) (by omega)).bind fun turn s₁ hturn => ?_
  cases turn with
  | none => exact .pure hturn
  | some token' =>
    obtain ⟨hempty₁, hless⟩ := hturn
    exact (h.statementsLoop hempty₁ (by omega) (by omega)).imp fun _ s₂ hleft₂ => by omega

/-- **A turn of the loop of statements** takes something away. -/
theorem Enough.statement_succ (h : Enough fuel) (hempty : s.parser.buffered = none)
    (hfuel : 7 * (s.left + token.cost) + 4 ≤ fuel + 1)
    (hmore : 7 * (s.left + token.cost) + 4 ≤ more + 1) :
    EndAlike (parseStatement (fuel + 1) terminator token)
      (parseStatement (more + 1) terminator token) s (AfterTurn (s.left + token.cost)) := by
  rw [parseStatement, parseStatement]
  refine EndAlike.ite (fun _ => ?_) fun heof => ?_
  · exact EndAlike.ite (fun _ => .pure (Nat.le_add_right _ _)) fun _ => .reject
  rw [BToken.cost_of_ne heof] at hfuel hmore ⊢
  refine EndAlike.ite (fun _ => .pure (Nat.le_add_right _ _)) fun _ =>
    EndAlike.ite (fun _ => ?_) fun _ => ?_
  · refine ends_next fun token' s₁ hempty₁ hleft₁ => .pure ⟨hempty₁, ?_⟩
    omega
  · refine (ends_return hempty heof).bind fun token₁ s₁ hreturn => ?_
    obtain ⟨heof₁, hempty₁, hleft₁⟩ := hreturn
    refine (h.assigned hempty₁ heof₁ (by omega) (by omega)).bind fun _ s₂ hleft₂ => ?_
    refine ends_next fun token' s₃ hempty₃ hleft₃ => .pure ⟨hempty₃, ?_⟩
    omega

theorem Enough.assigned_succ (h : Enough fuel) (hempty : s.parser.buffered = none)
    (heof : token.type ≠ .eof) (hfuel : 7 * (s.left + 1) + 3 ≤ fuel + 1)
    (hmore : 7 * (s.left + 1) + 3 ≤ more + 1) :
    Leaves (parseAssigned (fuel + 1) token) (parseAssigned (more + 1) token) s s.left := by
  have hexpression : ∀ {first : BToken} {s' : ParseState},
      (first.type = .identifier ∨ s'.parser.buffered = none) → first.type ≠ .eof →
      s'.left ≤ s.left →
        Leaves (parseExpressionFromFirst fuel first) (parseExpressionFromFirst more first) s'
          s.left := by
    intro first s' hfirst heof' hleft
    exact (h.expression hfirst heof' (by omega) (by omega)).imp fun _ s'' hleft' => by omega
  rw [parseAssigned, parseAssigned]
  refine EndAlike.ite (fun hname => ?_) fun _ => hexpression (.inr hempty) heof (Nat.le_refl _)
  refine ends_next fun maybeAssign s₁ hempty₁ hleft₁ => EndAlike.ite (fun _ => ?_) fun _ => ?_
  · refine ends_count fun s₂ hparser => ?_
    have hleft₂ : s₂.left = s₁.left := congrArg BParser.left hparser
    refine ends_next fun start s₃ hempty₃ hleft₃ => EndAlike.ite (fun _ => .reject) fun heof₃ => ?_
    exact hexpression (.inr hempty₃) heof₃ (by omega)
  · refine ends_unread hempty₁ fun s₂ hleft₂ => ?_
    exact hexpression (.inl hname) heof (by omega)

theorem Enough.block_succ (h : Enough fuel) (hfuel : 7 * s.left + 7 ≤ fuel + 1)
    (hmore : 7 * s.left + 7 ≤ more + 1) :
    Leaves (parseBlock (fuel + 1)) (parseBlock (more + 1)) s s.left := by
  rw [parseBlock, parseBlock]
  refine ends_next fun token s₁ hempty hleft => ?_
  have hheader : Leaves
      (if token.isSpecial ":" then parseBlockArguments fuel else parseUnread token)
      (if token.isSpecial ":" then parseBlockArguments more else parseUnread token) s₁ s.left := by
    refine EndAlike.ite (fun _ => ?_) fun _ => leaves_unread hempty hleft
    exact (leaves_blockArguments (by omega) (by omega)).imp fun _ s₂ hleft₂ => by omega
  refine hheader.bind fun _ s₂ hleft₂ => ?_
  exact (h.statementsUntil (by omega) (by omega)).imp fun _ s₃ hleft₃ => by omega

/-- **A primary takes something away.** -/
theorem Enough.primary_succ (h : Enough fuel) (hfuel : 7 * s.left + 1 ≤ fuel + 1)
    (hmore : 7 * s.left + 1 ≤ more + 1) :
    EndAlike (parsePrimary (fuel + 1)) (parsePrimary (more + 1)) s
      fun _ s' => s'.left < s.left := by
  rw [parsePrimary, parsePrimary]
  refine ends_next fun token s₁ hempty hleft => EndAlike.ite (fun _ => .reject) fun heof => ?_
  rw [BToken.cost_of_ne heof] at hleft
  refine EndAlike.ite (fun _ => ends_unread hempty fun _ _ => .reject) fun _ => ?_
  refine ends_count fun s₂ hparser => ?_
  have hleft₂ : s₂.left = s₁.left := congrArg BParser.left hparser
  refine EndAlike.ite (fun _ => ?_) fun _ => EndAlike.ite (fun _ => ?_) fun _ =>
    EndAlike.ite (fun _ => ?_) fun _ => .pure (by omega)
  · refine ends_next fun first s₃ hempty₃ hleft₃ => EndAlike.ite (fun _ => .reject) fun hfirst => ?_
    rw [BToken.cost_of_ne hfirst] at hleft₃
    refine (h.expression (.inr hempty₃) hfirst (by omega) (by omega)).bind fun _ s₄ hleft₄ => ?_
    refine ends_next fun close s₅ hempty₅ hleft₅ => ?_
    exact EndAlike.ite (fun _ => .pure (by omega)) fun _ => .reject
  · exact (h.block (by omega) (by omega)).imp fun _ s₃ hleft₃ => by omega
  · exact (leaves_literalArray (by omega) (by omega)).imp fun _ s₃ hleft₃ => by omega

theorem Enough.expression_succ (h : Enough fuel)
    (hfirst : token.type = .identifier ∨ s.parser.buffered = none) (heof : token.type ≠ .eof)
    (hfuel : 7 * (s.left + 1) + 2 ≤ fuel + 1) (hmore : 7 * (s.left + 1) + 2 ≤ more + 1) :
    Leaves (parseExpressionFromFirst (fuel + 1) token) (parseExpressionFromFirst (more + 1) token)
      s s.left := by
  rw [parseExpressionFromFirst, parseExpressionFromFirst]
  refine EndAlike.bind (Q := fun _ s' => s'.left ≤ s.left) ?_ fun _ s₁ hleft₁ => ?_
  · refine EndAlike.ite (fun _ => h.block (by omega) (by omega)) fun _ =>
      EndAlike.ite (fun _ => leaves_literalArray (by omega) (by omega)) fun _ =>
      EndAlike.ite (fun hopen => ?_) fun _ => .pure (Nat.le_refl _)
    -- the bracket goes back into an empty buffer, and the primary takes it out again
    have hempty : s.parser.buffered = none := by
      refine hfirst.resolve_left fun hname => ?_
      rw [(BToken.special_of_isSpecial hopen).1] at hname
      cases hname
    refine ends_unread hempty fun s₁ hleft₁ => ?_
    rw [BToken.cost_of_ne heof] at hleft₁
    exact (h.primary (by omega) (by omega)).imp fun _ s₂ hless => by omega
  · refine ends_count fun s₂ hparser => ?_
    have hleft₂ : s₂.left = s₁.left := congrArg BParser.left hparser
    exact (h.messages (by omega) (by omega)).imp fun _ s₃ hleft₃ => by omega

theorem Enough.messages_succ (h : Enough fuel) (hfuel : 7 * s.left + 1 ≤ fuel + 1)
    (hmore : 7 * s.left + 1 ≤ more + 1) :
    Leaves (parseMessages (fuel + 1)) (parseMessages (more + 1)) s s.left := by
  have hrest : ∀ {s' : ParseState}, s'.left < s.left →
      Leaves (parseMessages fuel) (parseMessages more) s' s.left := by
    intro s' hless
    exact (h.messages (by omega) (by omega)).imp fun _ s'' hleft => by omega
  have hcounted : ∀ {s' s'' : ParseState}, s''.parser = s'.parser → s''.left = s'.left :=
    fun hparser => congrArg BParser.left hparser
  rw [parseMessages, parseMessages]
  refine ends_next fun token s₁ hempty hleft =>
    EndAlike.ite (fun _ => .pure (by omega)) fun heof => ?_
  refine EndAlike.ite (fun _ => leaves_unread hempty hleft) fun _ => ?_
  rw [BToken.cost_of_ne heof] at hleft
  refine EndAlike.ite (fun _ => hrest (by omega)) fun _ => EndAlike.ite (fun _ => ?_) fun _ =>
    EndAlike.ite (fun _ => ?_) fun _ => EndAlike.ite (fun _ => ?_) fun _ => .reject
  · refine ends_count fun s₂ hparser => ?_
    have hleft₂ := hcounted hparser
    exact hrest (by omega)
  · refine ends_count fun s₂ hparser => ?_
    have hleft₂ := hcounted hparser
    refine (h.primary (by omega) (by omega)).bind fun _ s₃ hless => hrest (by omega)
  · refine ends_count fun s₂ hparser => ?_
    have hleft₂ := hcounted hparser
    refine (h.primary (by omega) (by omega)).bind fun _ s₃ hless => ?_
    refine (h.keywords (by omega) (by omega)).bind fun _ s₄ hleft₄ => hrest (by omega)

theorem Enough.keywords_succ (h : Enough fuel) (hfuel : 7 * s.left + 1 ≤ fuel + 1)
    (hmore : 7 * s.left + 1 ≤ more + 1) :
    Leaves (parseKeywords (fuel + 1)) (parseKeywords (more + 1)) s s.left := by
  rw [parseKeywords, parseKeywords]
  refine ends_next fun token s₁ hempty hleft => EndAlike.ite (fun hkeyword => ?_) fun _ =>
    leaves_unread hempty hleft
  rw [BToken.cost_of_ne (by rw [hkeyword]; decide)] at hleft
  refine (h.primary (by omega) (by omega)).bind fun _ s₂ hless => ?_
  exact (h.keywords (by omega) (by omega)).imp fun _ s₃ hleft₃ => by omega

end Turn

/-- **Calls in proportion to the text are enough**, for every function of the parser. -/
theorem enough (fuel : Nat) : Enough fuel := by
  induction fuel with
  | zero =>
    constructor
    all_goals intros; omega
  | succ fuel ih =>
    have hmore : ∀ {more calls : Nat}, calls + 1 ≤ more → ∃ m, more = m + 1 :=
      fun {more calls} h => ⟨more - 1, by omega⟩
    constructor
    case statementsUntil =>
      intro more s terminator h h'
      obtain ⟨more, rfl⟩ := hmore h'
      exact ih.statementsUntil_succ h h'
    case statementsLoop =>
      intro more s terminator token hempty h h'
      obtain ⟨more, rfl⟩ := hmore h'
      exact ih.statementsLoop_succ hempty h h'
    case statement =>
      intro more s terminator token hempty h h'
      obtain ⟨more, rfl⟩ := hmore h'
      exact ih.statement_succ hempty h h'
    case assigned =>
      intro more s token hempty heof h h'
      obtain ⟨more, rfl⟩ := hmore h'
      exact ih.assigned_succ hempty heof h h'
    case block =>
      intro more s h h'
      obtain ⟨more, rfl⟩ := hmore h'
      exact ih.block_succ h h'
    case primary =>
      intro more s h h'
      obtain ⟨more, rfl⟩ := hmore h'
      exact ih.primary_succ h h'
    case expression =>
      intro more s first hfirst heof h h'
      obtain ⟨more, rfl⟩ := hmore h'
      exact ih.expression_succ hfirst heof h h'
    case messages =>
      intro more s h h'
      obtain ⟨more, rfl⟩ := hmore h'
      exact ih.messages_succ h h'
    case keywords =>
      intro more s h h'
      obtain ⟨more, rfl⟩ := hmore h'
      exact ih.keywords_succ h h'

/-! ## §5. Every source. -/

theorem ends_temps {room : Nat} {s : ParseState} :
    EndAlike (parseTemps room) (parseTemps room) s fun token s' =>
      s'.parser.buffered = none ∧ s'.left + token.cost ≤ s.left := by
  induction room generalizing s with
  | zero =>
    rw [parseTemps]
    exact ends_next fun temp s₁ hempty hleft =>
      EndAlike.ite (fun _ => ends_last (by omega)) fun _ => .reject
  | succ room ih =>
    rw [parseTemps]
    refine ends_next fun temp s₁ hempty hleft =>
      EndAlike.ite (fun _ => ends_last (by omega)) fun _ =>
      EndAlike.ite (fun _ => ?_) fun _ => .reject
    refine ends_count fun s₂ hparser => ?_
    have hleft₂ : s₂.left = s₁.left := congrArg BParser.left hparser
    exact ih.imp fun token s₃ hread => ⟨hread.1, by omega⟩

/-- The calls that are enough for a source. -/
def enoughCalls (source : List Char) : Nat := 7 * source.length + 6

theorem bcParseMethodBody_ends (source : List Char) {fuel more : Nat}
    (hfuel : enoughCalls source ≤ fuel) (hmore : enoughCalls source ≤ more) :
    bcParseMethodBody fuel source = bcParseMethodBody more source
      ∧ bcParseMethodBody fuel source ≠ .outOfFuel := by
  rw [enoughCalls] at hfuel hmore
  have hstart : (ParseState.init source).left = source.length := rfl
  have hends : EndAlike
      (do
        let token ← parseNext
        let token ← (if token.isSpecial "|" then parseTemps 16 else pure token)
        parseUnread token
        parseStatementsUntil fuel none : Parse Unit)
      (do
        let token ← parseNext
        let token ← (if token.isSpecial "|" then parseTemps 16 else pure token)
        parseUnread token
        parseStatementsUntil more none : Parse Unit) (.init source) fun _ _ => True := by
    refine ends_next fun token s₁ hempty hleft => ?_
    have hheader : EndAlike (if token.isSpecial "|" then parseTemps 16 else pure token)
        (if token.isSpecial "|" then parseTemps 16 else pure token) s₁ fun token s' =>
          s'.parser.buffered = none ∧ s'.left + token.cost ≤ source.length := by
      refine EndAlike.ite (fun _ => ?_) fun _ => .pure ⟨hempty, by omega⟩
      exact ends_temps.imp fun token s₂ hread => ⟨hread.1, by omega⟩
    refine hheader.bind fun token s₂ hread => ends_unread hread.1 fun s₃ hleft₃ => ?_
    have hleft₃ := hread.2
    exact ((enough fuel).statementsUntil (by omega) (by omega)).imp fun _ _ _ => trivial
  refine ⟨hends.1, ?_⟩
  intro hout
  have hrun := hends.2
  rw [bcParseMethodBody] at hout
  rw [hout] at hrun
  exact hrun

/-- **Parsing ends on every source.**  `bt_next` returns the end of the text or has moved
on; `bc_parse_method_body` succeeds or fails after a number of calls that grows with the
length of the source, whatever is wrong with it; and a turn of its loop of statements that
is followed by another has taken something away, the token in the hand included. -/
theorem bcParseMethodBody_terminates :
    (∀ source : List Char, (btNext source).2 <:+ source
      ∧ ((btNext source).1.type = .eof ∨ (btNext source).2.length < source.length))
    ∧ (∀ source : List Char, ∃ result : Tried ParseState Unit, result ≠ .outOfFuel
      ∧ ∀ fuel, enoughCalls source ≤ fuel → bcParseMethodBody fuel source = result)
    ∧ ∀ (terminator : Option String) (token : BToken) (s : ParseState) (fuel : Nat),
      s.parser.buffered = none → 7 * (s.left + token.cost) + 4 ≤ fuel →
        (∃ s', parseStatement fuel terminator token s = .rejected s')
        ∨ ∃ turn s', parseStatement fuel terminator token s = .ok turn s'
          ∧ ∀ token', turn = some token' →
            s'.parser.buffered = none ∧ s'.left + token'.cost < s.left + token.cost := by
  refine ⟨btNext_progress, ?_, ?_⟩
  · intro source
    refine ⟨bcParseMethodBody (enoughCalls source) source, ?_, ?_⟩
    · exact (bcParseMethodBody_ends source (Nat.le_refl _) (Nat.le_refl _)).2
    · intro fuel hfuel
      exact (bcParseMethodBody_ends source hfuel (Nat.le_refl _)).1
  · intro terminator token s fuel hempty hfuel
    have hends : EndAlike (parseStatement fuel terminator token)
        (parseStatement fuel terminator token) s (AfterTurn (s.left + token.cost)) :=
      (enough fuel).statement hempty hfuel hfuel
    have hrun := hends.2
    cases hturn : parseStatement fuel terminator token s with
    | ok turn s' =>
      rw [hturn] at hrun
      refine .inr ⟨turn, s', rfl, ?_⟩
      intro token' hsome
      rw [hsome] at hrun
      exact hrun
    | rejected s' => exact .inl ⟨s', rfl⟩
    | outOfFuel =>
      rw [hturn] at hrun
      exact hrun.elim

/-- Closers that nothing opens are read as the first tokens of expressions. -/
example : (bcParseMethodBody 80 ") ] . )".toList matches .ok _ _) = true := by decide +kernel

end LivingObjects.Compiler
