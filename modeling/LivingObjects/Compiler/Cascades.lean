/-
  LivingObjects.Compiler.Cascades — the code of a cascade.

  After the first message of a cascade the parser has forgotten where the receiver ends: at
  a semicolon it reads on, and the next message goes to the answer of the one before.  So
  the compiled code does what the cascade is to do exactly as long as the messages answer
  the receiver.

  This is shown of every cascade that is accepted, whatever its receiver and its arguments
  are: they are followed through the loops of the parser, from a program to the loop that
  goes on behind what has been read.
-/
import Mathlib
import LivingObjects.Compiler.Expressions
import LivingObjects.Compiler.Growth
import LivingObjects.Compiler.Sends

namespace LivingObjects.Compiler

open LivingObjects.Lib
open LivingObjects.Lib.Attempt

/-! ## §1. How cascades are written. -/

inductive MessageKind where
  | unary
  | binary
  | keyword
deriving DecidableEq

/-- A message as it is written. -/
structure Spelling where
  kind : MessageKind
  selector : List Char
  arguments : List (List BToken)

/-- The selector has room for as many bytes. -/
def MessageKind.room : MessageKind → Nat
  | .unary | .binary => textRoom
  | .keyword => 127

/-- The parts of an expression. -/
inductive Part where
  | primary
  | unary
  | binary
  | expression
  | message (m : Spelling)
  | cascade (receiver : List BToken) (messages : List Spelling)

/-- Up to the last closing token, from a depth. -/
def Closes (opening closing : String) : Nat → List BToken → Prop
  | 0, tokens => tokens = []
  | _ + 1, [] => False
  | depth + 1, token :: tokens =>
    if token.isSpecial opening then Closes opening closing (depth + 2) tokens
    else if token.isSpecial closing then Closes opening closing depth tokens
    else Closes opening closing (depth + 1) tokens

/-- **The grammar**, with every expression the compiler knows.  A cascade is a receiver, a
message to it, and further messages behind semicolons. -/
inductive Spelled : Part → List BToken → Prop where
  | name {token : BToken} (h : token.type = .identifier) : Spelled .primary [token]
  | literal {token : BToken} (h : token.isLiteral) : Spelled .primary [token]
  | parenthesis {opening closing : BToken} {tokens : List BToken}
      (hopening : opening.isSpecial "(" = true) (h : Spelled .expression tokens)
      (hclosing : closing.isSpecial ")" = true) :
      Spelled .primary (opening :: tokens ++ [closing])
  | literalArray {opening : BToken} {tokens : List BToken}
      (hopening : opening.isSpecial "#(" = true) (h : Closes "#(" ")" 1 tokens) :
      Spelled .primary (opening :: tokens)
  | block {opening : BToken} {tokens : List BToken} (hopening : opening.isSpecial "[" = true)
      (h : Closes "[" "]" 1 tokens) : Spelled .primary (opening :: tokens)
  | primary {tokens : List BToken} (h : Spelled .primary tokens) : Spelled .unary tokens
  | sendUnary {tokens more : List BToken} {m : Spelling} (h : Spelled .unary tokens)
      (hkind : m.kind = .unary) (hmessage : Spelled (.message m) more) :
      Spelled .unary (tokens ++ more)
  | unary {tokens : List BToken} (h : Spelled .unary tokens) : Spelled .binary tokens
  | sendBinary {tokens more : List BToken} {m : Spelling} (h : Spelled .binary tokens)
      (hkind : m.kind = .binary) (hmessage : Spelled (.message m) more) :
      Spelled .binary (tokens ++ more)
  | binary {tokens : List BToken} (h : Spelled .binary tokens) : Spelled .expression tokens
  | cascade {receiver tokens : List BToken} {messages : List Spelling}
      (h : Spelled (.cascade receiver messages) tokens) : Spelled .expression tokens
  | selector {token : BToken} (h : token.type = .identifier) :
      Spelled (.message ⟨.unary, token.text, []⟩) [token]
  | operator {operator argument : List BToken} {selector : List Char}
      (hoperator : Operator operator selector) (hargument : Spelled .unary argument) :
      Spelled (.message ⟨.binary, selector, [argument]⟩) (operator ++ argument)
  | keyword {token : BToken} {argument : List BToken} (h : token.type = .keyword)
      (hargument : Spelled .binary argument) :
      Spelled (.message ⟨.keyword, token.text, [argument]⟩) (token :: argument)
  | nextKeyword {token : BToken} {tokens argument : List BToken} {selector : List Char}
      {arguments : List (List BToken)}
      (hmessage : Spelled (.message ⟨.keyword, selector, arguments⟩) tokens)
      (h : token.type = .keyword) (hargument : Spelled .binary argument) :
      Spelled (.message ⟨.keyword, selector ++ token.text, arguments ++ [argument]⟩)
        (tokens ++ token :: argument)
  | firstUnary {receiver more : List BToken} {m : Spelling} (h : Spelled .unary receiver)
      (hkind : m.kind = .unary) (hmessage : Spelled (.message m) more) :
      Spelled (.cascade receiver [m]) (receiver ++ more)
  | firstBinary {receiver more : List BToken} {m : Spelling} (h : Spelled .binary receiver)
      (hkind : m.kind = .binary) (hmessage : Spelled (.message m) more) :
      Spelled (.cascade receiver [m]) (receiver ++ more)
  | firstKeyword {receiver more : List BToken} {m : Spelling} (h : Spelled .binary receiver)
      (hkind : m.kind = .keyword) (hmessage : Spelled (.message m) more) :
      Spelled (.cascade receiver [m]) (receiver ++ more)
  | next {receiver tokens more : List BToken} {messages : List Spelling} {m : Spelling}
      {separator : BToken} (h : Spelled (.cascade receiver messages) tokens)
      (hseparator : separator.isSpecial ";" = true) (hmessage : Spelled (.message m) more) :
      Spelled (.cascade receiver (messages ++ [m])) (tokens ++ separator :: more)

/-! ## §2. What is written. -/

/-- What a run has written. -/
structure Output where
  code : List Instruction
  literals : List BToken
deriving DecidableEq

def CgState.output (s : CgState) : Output := ⟨s.code, s.literals⟩

/-- The code comes after what there was, and the literals stay in their places. -/
structure Output.Extended (o : Output) (code : List Instruction) (o' : Output) : Prop where
  code : o'.code = o.code ++ code
  literals : o.literals <+: o'.literals

theorem Output.Extended.trans {o o₁ o₂ : Output} {code more : List Instruction}
    (h : o.Extended code o₁) (hmore : o₁.Extended more o₂) : o.Extended (code ++ more) o₂ := by
  refine ⟨?_, h.literals.trans hmore.literals⟩
  rw [hmore.code, h.code, List.append_assoc]

/-- The code of a value. -/
def ValueWritten (o o' : Output) : Prop :=
  ∃ code, o.Extended code o' ∧ IsValue o'.literals code

/-- The message that is compiled for one that is written. -/
structure Spelling.Compiled (m : Spelling) (c : Message) : Prop where
  selector : c.selector = m.selector
  sent : c.sent = m.selector.take m.kind.room
  arguments : c.arguments.length = m.arguments.length

/-- The code of a message. -/
def MessageWritten (m : Spelling) (o o' : Output) : Prop :=
  ∃ c code, m.Compiled c ∧ o.Extended code o' ∧ c.HasCode o'.literals code

/-- The code of arguments. -/
def ArgumentsWritten (count : Nat) (o o' : Output) : Prop :=
  ∃ codes : List (List Instruction), codes.length = count ∧ o.Extended codes.flatten o' ∧
    ∀ code ∈ codes, IsValue o'.literals code

/-- The code of a cascade. -/
def CascadeWritten (messages : List Spelling) (o o' : Output) : Prop :=
  ∃ (c : Cascade) (code : List Instruction), List.Forall₂ Spelling.Compiled messages c.messages ∧
    o.Extended code o' ∧ c.HasCode o'.literals code

/-! ## §3. Written in sequence. -/

theorem Message.HasCode.mono {m : Message} {literals table : List BToken}
    {code : List Instruction} (h : m.HasCode literals code) (htable : literals <+: table) :
    m.HasCode table code := by
  obtain ⟨harguments, index, hselector, rfl⟩ := h
  exact ⟨fun a ha => (harguments a ha).mono htable, index,
    getElem?_of_prefix htable hselector, rfl⟩

theorem MessagesHaveCode.mono {ms : List Message} {literals table : List BToken}
    {code : List Instruction} (h : MessagesHaveCode literals ms code)
    (htable : literals <+: table) : MessagesHaveCode table ms code := by
  induction ms generalizing code with
  | nil => exact h
  | cons m ms ih =>
    obtain ⟨first, more, hfirst, hmore, rfl⟩ := h
    exact ⟨first, more, hfirst.mono htable, ih hmore, rfl⟩

/-- One more message at the end. -/
theorem MessagesHaveCode.concat {ms : List Message} {m : Message} {literals : List BToken}
    {code last : List Instruction} (h : MessagesHaveCode literals ms code)
    (hlast : m.HasCode literals last) : MessagesHaveCode literals (ms ++ [m]) (code ++ last) := by
  induction ms generalizing code with
  | nil =>
    obtain rfl : code = [] := h
    exact ⟨last, [], hlast, rfl, (List.append_nil last).symm⟩
  | cons m' ms ih =>
    obtain ⟨first, more, hfirst, hmore, rfl⟩ := h
    exact ⟨first, more ++ last, hfirst, ih hmore, List.append_assoc _ _ _⟩

/-- A message to a value. -/
theorem ValueWritten.send {o o₁ o₂ : Output} {m : Spelling} (h : ValueWritten o o₁)
    (hmessage : MessageWritten m o₁ o₂) : CascadeWritten [m] o o₂ := by
  obtain ⟨receiver, hext, hvalue⟩ := h
  obtain ⟨c, code, hcompiled, hext', hcode⟩ := hmessage
  refine ⟨⟨receiver, [c]⟩, receiver ++ code, .cons hcompiled .nil, hext.trans hext', ?_⟩
  refine ⟨hvalue.mono hext'.literals, code, ?_, rfl⟩
  exact ⟨code, [], hcode, rfl, (List.append_nil code).symm⟩

/-- One more message of a cascade. -/
theorem CascadeWritten.next {o o₁ o₂ : Output} {messages : List Spelling} {m : Spelling}
    (h : CascadeWritten messages o o₁) (hmessage : MessageWritten m o₁ o₂) :
    CascadeWritten (messages ++ [m]) o o₂ := by
  obtain ⟨⟨receiver, ms⟩, _, hmatch, hext, hreceiver, code, hcode, rfl⟩ := h
  obtain ⟨c, last, hcompiled, hext', hlast⟩ := hmessage
  refine ⟨⟨receiver, ms ++ [c]⟩, _, ?_, hext.trans hext', hreceiver.mono hext'.literals,
    code ++ last, (hcode.mono hext'.literals).concat hlast, List.append_assoc _ _ _⟩
  exact List.rel_append hmatch (.cons hcompiled .nil)

theorem CascadeWritten.value {o o' : Output} {messages : List Spelling}
    (h : CascadeWritten messages o o') : ValueWritten o o' := by
  obtain ⟨c, code, -, hext, hcode⟩ := h
  exact ⟨code, hext, hcode.isValue⟩

theorem ArgumentsWritten.next {o o₁ o₂ : Output} {count : Nat} (h : ArgumentsWritten count o o₁)
    (hvalue : ValueWritten o₁ o₂) : ArgumentsWritten (count + 1) o o₂ := by
  obtain ⟨codes, rfl, hext, hcodes⟩ := h
  obtain ⟨code, hext', hvalue⟩ := hvalue
  refine ⟨codes ++ [code], List.length_append, ?_, fun c hc => ?_⟩
  · have hall := hext.trans hext'
    rw [List.flatten_append, List.flatten_singleton]
    exact hall
  · rcases List.mem_append.mp hc with hc | hc
    · exact (hcodes c hc).mono hext'.literals
    · rw [List.mem_singleton.mp hc]
      exact hvalue

theorem argumentsWritten_none (o : Output) : ArgumentsWritten 0 o o :=
  ⟨[], rfl, ⟨(List.append_nil _).symm, List.prefix_refl _⟩, fun _ hc => absurd hc List.not_mem_nil⟩

theorem ValueWritten.argument {o o' : Output} (h : ValueWritten o o') : ArgumentsWritten 1 o o' :=
  (argumentsWritten_none o).next h

/-- The selector is sent after the arguments. -/
theorem ArgumentsWritten.send {s : CgState} {o : Output} {m : Spelling} {selector : List Char}
    (h : ArgumentsWritten m.arguments.length o s.output)
    (hselector : selector.take textRoom = m.selector.take m.kind.room) : ∃ s',
    cgEmitSelectorSend selector m.arguments.length s = .ok () s' ∧ s'.parser = s.parser ∧
      MessageWritten m o s'.output := by
  obtain ⟨codes, hcount, hext, hcodes⟩ := h
  let sent := m.selector.take m.kind.room
  obtain ⟨index, new, hrun, hindex⟩ := cgLiteralIndex_run s (selectorToken sent)
  have hprefix : s.literals <+: s.literals ++ new := List.prefix_append _ _
  let send : Instruction := .sendMessage index m.arguments.length
  refine ⟨{ s with literals := s.literals ++ new, code := s.code ++ [send] }, ?_, rfl,
    ⟨m.selector, sent, codes⟩, codes.flatten ++ [send], ⟨rfl, rfl, hcount⟩, ⟨?_, ?_⟩,
    fun code hcode => (hcodes code hcode).mono hprefix, index, hindex, ?_⟩
  · unfold cgEmitSelectorSend
    rw [hselector]
    exact bind_ok hrun
  · have hcode : s.code = o.code ++ codes.flatten := hext.code
    show s.code ++ [send] = _
    rw [hcode, List.append_assoc]
  · exact hext.literals.trans hprefix
  · show _ = codes.flatten ++ [.sendMessage index codes.length]
    rw [hcount]

/-! ## §4. Runs that get through. -/

/-- With some fuel the program gets from the one state to the other. -/
def Runs (m : Nat → Cg Unit) (s s' : CgState) : Prop := ∃ fuel, m fuel s = .ok () s'

section Runs

variable {m n : Nat → Cg Unit} {s s₁ s' : CgState}

/-- One step of a recursion. -/
theorem Runs.step (hrun : Runs m s s') (hzero : m 0 s = .outOfFuel)
    (h : ∀ fuel, m (fuel + 1) s = n fuel s₁) : Runs n s₁ s' := by
  obtain ⟨fuel, hrun⟩ := hrun
  cases fuel with
  | zero =>
    rw [hzero] at hrun
    cases hrun
  | succ fuel => exact ⟨fuel, (h fuel).symm.trans hrun⟩

theorem Runs.bind (hrun : Runs (fun fuel => m fuel >>= fun _ => n fuel) s s') :
    ∃ s₁, Runs m s s₁ ∧ Runs n s₁ s' := by
  obtain ⟨fuel, hrun⟩ := hrun
  obtain ⟨⟨⟩, s₁, hfirst, hmore⟩ := of_bind_ok hrun
  exact ⟨s₁, ⟨fuel, hfirst⟩, fuel, hmore⟩

/-- After a step whose result is known. -/
theorem Runs.after {α : Type} {p : Cg α} {a : α} {f : Nat → α → Cg Unit}
    (hrun : Runs (fun fuel => p >>= f fuel) s s') (hp : p s = .ok a s₁) :
    Runs (fun fuel => f fuel a) s₁ s' := by
  obtain ⟨fuel, hrun⟩ := hrun
  exact ⟨fuel, (bind_ok hp).symm.trans hrun⟩

/-- A loop that ends at once. -/
theorem Runs.ends (hrun : Runs m s s') (hzero : m 0 s = .outOfFuel)
    (h : ∀ fuel, m (fuel + 1) s = .ok () s₁) : s' = s₁ := by
  obtain ⟨fuel, hfuel⟩ := hrun.step (n := fun _ => pure ()) hzero h
  exact (Tried.ok.inj hfuel).2.symm

end Runs

/-- **From a program to a loop**: where the program gets through on these tokens, it has written
what is asked for and goes on behind them as the loop does. -/
def Leads (ends : BToken → Prop) (start loop : CgState → CgState → Prop) (tokens : List BToken)
    (Q : Output → Output → Prop) : Prop :=
  ∀ s stop rest s'', Upcoming s.parser (tokens ++ stop :: rest) → ends stop → start s s'' →
    ∃ s₁, Q s.output s₁.output ∧ Upcoming s₁.parser (stop :: rest) ∧ loop s₁ s''

section Leads

variable {ends ends' : BToken → Prop} {start mid loop : CgState → CgState → Prop}
variable {tokens more : List BToken} {Q Q' Q'' : Output → Output → Prop}

/-- Two parts in sequence. -/
theorem Leads.trans {first : BToken} (h : Leads ends start mid tokens Q)
    (hmore : Leads ends' mid loop (first :: more) Q') (hfirst : ends first)
    (hQ : ∀ o o₁ o₂, Q o o₁ → Q' o₁ o₂ → Q'' o o₂) :
    Leads ends' start loop (tokens ++ first :: more) Q'' := by
  intro s stop rest s'' hup hstop hrun
  rw [List.append_assoc] at hup
  obtain ⟨s₁, hwritten, hup₁, hmid⟩ := h s first (more ++ stop :: rest) s'' hup hfirst hrun
  obtain ⟨s₂, hwritten', hup₂, hloop⟩ := hmore s₁ stop rest s'' hup₁ hstop hmid
  exact ⟨s₂, hQ _ _ _ hwritten hwritten', hup₂, hloop⟩

theorem Leads.imp (h : Leads ends start loop tokens Q) (hends : ∀ stop, ends' stop → ends stop)
    (hQ : ∀ o o', Q o o' → Q' o o') : Leads ends' start loop tokens Q' := by
  intro s stop rest s'' hup hstop hrun
  obtain ⟨s₁, hwritten, hrest⟩ := h s stop rest s'' hup (hends stop hstop) hrun
  exact ⟨s₁, hQ _ _ hwritten, hrest⟩

/-- A loop that puts the token back. -/
theorem Leads.close (h : Leads ends start loop tokens Q) (hends : ∀ stop, ends' stop → ends stop)
    (hloop : ∀ s stop rest s'', Upcoming s.parser (stop :: rest) → ends' stop → loop s s'' →
      s'' = s.advance.unread stop) : Leads ends' start Eq tokens Q := by
  intro s stop rest s'' hup hstop hrun
  obtain ⟨s₁, hwritten, hup₁, hrest⟩ := h s stop rest s'' hup (hends stop hstop) hrun
  obtain rfl := hloop s₁ stop rest s'' hup₁ hstop hrest
  exact ⟨s₁.advance.unread stop, hwritten, hup₁.unread, rfl⟩

/-- A program that begins with another. -/
theorem Leads.enter (h : Leads ends mid Eq tokens Q)
    (hstart : ∀ s s'', start s s'' → ∃ s₁, mid s s₁ ∧ loop s₁ s'') :
    Leads ends start loop tokens Q := by
  intro s stop rest s'' hup hstop hrun
  obtain ⟨s₁, hmid, hloop⟩ := hstart s s'' hrun
  obtain ⟨s₂, hwritten, hup₂, rfl⟩ := h s stop rest s₁ hup hstop hmid
  exact ⟨s₂, hwritten, hup₂, hloop⟩

end Leads

/-! ## §5. Single tokens, literal arrays and blocks. -/

section Primaries

variable {env : Env}

/-- An instruction that pushes is the code of a value. -/
theorem valueWritten_emit {s s' : CgState} {i : Instruction} (hcode : s'.code = s.code ++ [i])
    (hliterals : s.literals <+: s'.literals) (hpush : i.isPush = true) :
    ValueWritten s.output s'.output :=
  ⟨[i], ⟨hcode, hliterals⟩, isValue_push hpush _⟩

/-- The program writes the code of one value, and reads nothing. -/
abbrev WritesValue (m : Cg Unit) : Prop :=
  ∀ s, Triple (fun t => t = s) m
    (fun _ t => ValueWritten s.output t.output ∧ t.parser = s.parser) (fun _ => True)

theorem writesValue_emit {i : Instruction} (hpush : i.isPush = true) : WritesValue (emit i) := by
  intro s
  refine .modify fun t ht => ?_
  subst ht
  exact ⟨valueWritten_emit rfl (List.prefix_refl _) hpush, rfl⟩

theorem writesValue_emitUse {i : Instruction} (hpush : i.isPush = true) (use : Use) :
    WritesValue (emitUse i use) := by
  intro s
  refine .modify fun t ht => ?_
  subst ht
  exact ⟨valueWritten_emit rfl (List.prefix_refl _) hpush, rfl⟩

/-- A literal is found or added, and an instruction names it. -/
theorem writesValue_literal {i : Nat → Instruction} (hpush : ∀ index, (i index).isPush = true)
    (token : BToken) : WritesValue (cgLiteralIndex token >>= fun index => emit (i index)) := by
  rintro s t rfl
  obtain ⟨index, new, hindex, -⟩ := cgLiteralIndex_run t token
  rw [bind_ok hindex]
  exact ⟨valueWritten_emit rfl (List.prefix_append _ new) (hpush index), rfl⟩

/-- A search among the names of instance variables writes nothing. -/
theorem writesValue_instVar {name : Name} {m : Option Nat → Cg Unit}
    (h : ∀ index, WritesValue (m index)) : WritesValue (cgInstVarIndex env name >>= m) := by
  intro s
  refine .bind (Q := fun _ t => t.output = s.output ∧ t.parser = s.parser) ?_ fun index => ?_
  · refine .modifyGet fun t ht => ?_
    subst ht
    split
    · exact ⟨rfl, rfl⟩
    split
    · exact ⟨rfl, rfl⟩
    split
    · exact ⟨rfl, rfl⟩
    · exact ⟨rfl, rfl⟩
  · rintro t ⟨houtput, hparser⟩
    rw [← houtput, ← hparser]
    exact h index t t rfl

/-- **Every name** is compiled to one instruction that pushes. -/
theorem writesValue_identifier (token : BToken) : WritesValue (cgEmitIdentifier env token) := by
  intro s
  unfold cgEmitIdentifier
  refine .ite (fun _ => writesValue_emit rfl s) fun _ => .ite (fun _ => writesValue_emit rfl s)
    fun _ => .ite (fun _ => writesValue_literal (fun _ => rfl) token s) fun _ => ?_
  -- the tables of names in the order they are searched
  split
  · exact writesValue_emitUse rfl _ s
  split
  · exact writesValue_emitUse rfl _ s
  split
  · exact writesValue_emitUse rfl _ s
  split
  · exact writesValue_emitUse rfl _ s
  refine writesValue_instVar (fun index => ?_) s
  cases index with
  | some index => exact writesValue_emit rfl
  | none => exact writesValue_literal (fun _ => rfl) _

/-- A program that skips up to the closing token. -/
structure SkipsTo (opening closing : String) (skip : Nat → Nat → Cg Unit) : Prop where
  zero : ∀ depth, skip 0 depth = .outOfFuel
  done : ∀ fuel, skip (fuel + 1) 0 = pure ()
  token : ∀ fuel depth, skip (fuel + 1) (depth + 1) = next >>= fun token =>
    if token.type = .eof then .reject
    else if token.isSpecial opening then skip fuel (depth + 2)
    else if token.isSpecial closing then skip fuel depth
    else skip fuel (depth + 1)

theorem skipsTo_blockLiteral : SkipsTo "[" "]" cgSkipBlockLiteral :=
  ⟨fun _ => rfl, fun _ => rfl, fun _ _ => rfl⟩

theorem skipsTo_literalArray : SkipsTo "#(" ")" cgSkipLiteralArray :=
  ⟨fun _ => rfl, fun _ => rfl, fun _ _ => rfl⟩

/-- What has been written, and the tokens ahead. -/
structure Stands (o : Output) (tokens : List BToken) (s : CgState) : Prop where
  output : s.output = o
  upcoming : Upcoming s.parser tokens

/-- The tokens up to the closing one are skipped. -/
theorem SkipsTo.stands {opening closing : String} {skip : Nat → Nat → Cg Unit}
    (h : SkipsTo opening closing skip) {fuel depth : Nat} {o : Output} {tokens rest : List BToken}
    (hcloses : Closes opening closing depth tokens) :
    Triple (Stands o (tokens ++ rest)) (skip fuel depth) (fun _ => Stands o rest)
      (fun _ => True) := by
  induction fuel generalizing depth tokens with
  | zero =>
    rw [h.zero]
    exact .outOfFuel
  | succ fuel ih =>
    cases depth with
    | zero =>
      unfold Closes at hcloses
      subst hcloses
      rw [h.done]
      exact .pure fun _ hs => hs
    | succ depth =>
      cases tokens with
      | nil => cases hcloses
      | cons token tokens =>
        rw [h.token]
        unfold Closes at hcloses
        refine .bind (Q := fun t s => t = token ∧ Stands o (tokens ++ rest) s) ?_ fun t => ?_
        · exact .modifyGet fun s hs => ⟨hs.upcoming.1, hs.output, hs.upcoming.2⟩
        · refine Triple.ite (fun _ => .reject fun _ _ => trivial) fun _ => ?_
          refine Triple.ite (fun hopening => ?_) fun hopening => ?_
          · rintro s ⟨rfl, hs⟩
            rw [if_pos hopening] at hcloses
            exact ih hcloses s hs
          refine Triple.ite (fun hclosing => ?_) fun hclosing => ?_
          · rintro s ⟨rfl, hs⟩
            rw [if_neg hopening, if_pos hclosing] at hcloses
            exact ih hcloses s hs
          · rintro s ⟨rfl, hs⟩
            rw [if_neg hopening, if_neg hclosing] at hcloses
            exact ih hcloses s hs

/-- Compiling a block for itself changes neither the parser nor what has been written. -/
theorem stands_storeBody {o : Output} {tokens : List BToken} (fuel : Nat) (source : List Char)
    (index : Nat) : Keeps (Stands o tokens) (cgStoreBody fuel env source index) := by
  cases fuel with
  | zero => exact .outOfFuel
  | succ fuel =>
    unfold cgStoreBody
    refine .bind ?_ fun block => Keeps.modify fun s hs => ⟨hs.output, hs.upcoming⟩
    -- nothing is asked of the body
    have hbody : Triple (fun _ => True)
        (bcCodegenBody fuel true [] env.targetClass env.enclose env.blockOffset)
        (fun _ _ => True) (fun _ => True) := by
      intro u _
      cases bcCodegenBody fuel true [] env.targetClass env.enclose env.blockOffset u <;> trivial
    exact .inside (fun _ _ => trivial) (fun _ _ _ _ hs => ⟨hs.output, hs.upcoming⟩)
      (fun _ _ _ hs => ⟨hs.output, hs.upcoming⟩) hbody

theorem stands_compileBlock {o : Output} {tokens : List BToken} (fuel : Nat) (source : List Char)
    (index : Nat) : Keeps (Stands o tokens) (cgCompileAndStoreBlock fuel env source index) := by
  cases fuel with
  | zero => exact .outOfFuel
  | succ fuel =>
    unfold cgCompileAndStoreBlock
    refine .bind (stands_storeBody fuel source index).succeeds fun accepted => ?_
    refine .ite (fun _ => Keeps.pure ()) fun _ => ?_
    cases cgBuildImplicitReturnSource source with
    | none => exact Keeps.reject
    | some implicitSource => exact stands_storeBody fuel implicitSource index

/-- What is asked of a primary: it is compiled after its first token. -/
def PrimaryLeads (env : Env) (tokens : List BToken) : Prop :=
  ∀ read, Reads read → Leads (fun _ => True) (Runs (cgParsePrimary read env)) Eq tokens ValueWritten

theorem primaryLeads_cons {first : BToken} {more : List BToken}
    (h : ∀ fuel o stop rest, Triple (Stands o (more ++ stop :: rest))
      (cgEmitPrimaryToken (fuel + 1) env first)
      (fun _ s => ValueWritten o s.output ∧ Upcoming s.parser (stop :: rest)) (fun _ => True)) :
    PrimaryLeads env (first :: more) := by
  intro read hread s stop rest s'' hup _ hrun
  obtain ⟨second, behind, hsecond⟩ : ∃ second behind, more ++ stop :: rest = second :: behind := by
    cases more with
    | nil => exact ⟨stop, rest, rfl⟩
    | cons second more => exact ⟨second, more ++ stop :: rest, rfl⟩
  have hup₁ : Upcoming s.parser (first :: (more ++ stop :: rest)) := hup
  rw [hsecond] at hup₁
  obtain ⟨s₁, hfirst, hup₂, hcode, hliterals⟩ := hread s first second behind hup₁
  have hsame : s₁.output = s.output := by
    show (⟨s₁.code, s₁.literals⟩ : Output) = ⟨s.code, s.literals⟩
    rw [hcode, hliterals]
  rw [← hsecond] at hup₂
  obtain ⟨fuel, hfuel⟩ := hrun.after hfirst
  cases fuel with
  | zero => cases hfuel
  | succ fuel =>
    obtain ⟨hwritten, hup₃⟩ := (h fuel s.output stop rest).of_ok ⟨hsame, hup₂⟩ hfuel
    exact ⟨s'', hwritten, hup₃, rfl⟩

/-- A program that writes a value when the parser is where it should be. -/
theorem WritesValue.stands {m : Cg Unit} (h : WritesValue m) (o : Output) (tokens : List BToken) :
    Triple (Stands o tokens) m (fun _ s => ValueWritten o s.output ∧ Upcoming s.parser tokens)
      (fun _ => True) := by
  intro s hs
  have hrun := h s s rfl
  cases hm : m s with
  | ok a s' =>
    rw [hm] at hrun
    obtain ⟨hwritten, hparser⟩ := hrun
    show ValueWritten o s'.output ∧ Upcoming s'.parser tokens
    rw [hparser, ← hs.output]
    exact ⟨hwritten, hs.upcoming⟩
  | rejected s' => trivial
  | outOfFuel => trivial

theorem primaryLeads_name {token : BToken} (h : token.type = .identifier) :
    PrimaryLeads env [token] := by
  refine primaryLeads_cons fun fuel o stop rest => ?_
  rw [cgEmitPrimaryToken, if_pos h]
  exact (writesValue_identifier token).stands o (stop :: rest)

theorem primaryLeads_literal {token : BToken} (h : token.isLiteral) :
    PrimaryLeads env [token] := by
  have hne : token.type ≠ .identifier := by
    rcases h with h | h | h | h <;> rw [h] <;> exact BTokenType.noConfusion
  have hliteral : token.type = .integer ∨ token.type = .character ∨ token.type = .string ∨
      token.type = .symbol := h
  refine primaryLeads_cons fun fuel o stop rest => ?_
  rw [cgEmitPrimaryToken, if_neg hne, if_pos hliteral]
  exact (writesValue_literal (fun _ => rfl) token).stands o (stop :: rest)

/-- A special token is none of the others. -/
theorem not_literal_of_special {token : BToken} (h : token.type = .special) :
    ¬token.type = .identifier ∧ ¬(token.type = .integer ∨ token.type = .character ∨
      token.type = .string ∨ token.type = .symbol) := by
  rw [h]
  decide

theorem primaryLeads_parenthesis {opening closing : BToken} {tokens : List BToken}
    (hopening : opening.isSpecial "(" = true)
    (h : Leads BToken.IsStop (Runs (cgParseExpression · env)) Eq tokens ValueWritten)
    (hclosing : closing.isSpecial ")" = true) :
    PrimaryLeads env (opening :: tokens ++ [closing]) := by
  obtain ⟨hname, hliteral⟩ := not_literal_of_special (BToken.special_of_isSpecial hopening).1
  refine primaryLeads_cons fun fuel o stop rest => ?_
  rw [cgEmitPrimaryToken, if_neg hname, if_neg hliteral, if_pos hopening]
  refine .bind (Q := fun _ s => ValueWritten o s.output ∧
    Upcoming s.parser (closing :: stop :: rest)) ?_ fun _ => ?_
  · rintro s ⟨rfl, hup⟩
    have hup₁ : Upcoming s.parser (tokens ++ closing :: stop :: rest) := by
      have hlist : tokens ++ [closing] ++ stop :: rest = tokens ++ closing :: stop :: rest := by
        simp
      rw [← hlist]
      exact hup
    cases hrun : cgParseExpression fuel env s with
    | ok a s' =>
      obtain ⟨_, hwritten, hup₂, rfl⟩ :=
        h s closing (stop :: rest) s' hup₁ (.inr (.inr (.inl hclosing))) ⟨fuel, hrun⟩
      exact ⟨hwritten, hup₂⟩
    | rejected s' => trivial
    | outOfFuel => trivial
  · refine .bind (Q := fun _ s => ValueWritten o s.output ∧ Upcoming s.parser (stop :: rest)) ?_
      fun close => ?_
    · exact .modifyGet fun s hs => ⟨hs.1, hs.2.2⟩
    · exact fun s hs => by
        cases hclose : close.isSpecial ")" with
        | true => exact hs
        | false => trivial

theorem primaryLeads_literalArray {opening : BToken} {tokens : List BToken}
    (hopening : opening.isSpecial "#(" = true) (hcloses : Closes "#(" ")" 1 tokens) :
    PrimaryLeads env (opening :: tokens) := by
  obtain ⟨hname, hliteral⟩ := not_literal_of_special (BToken.special_of_isSpecial hopening).1
  refine primaryLeads_cons fun fuel o stop rest => ?_
  rw [cgEmitPrimaryToken, if_neg hname, if_neg hliteral,
    BToken.isSpecial_of_text hopening (by decide), if_neg Bool.false_ne_true, if_pos hopening]
  refine .bind (Q := fun _ => Stands o (stop :: rest)) ?_ fun text =>
    (writesValue_literal (fun _ => rfl) _).stands o (stop :: rest)
  refine .get_bind fun start _ => .bind (skipsTo_literalArray.stands hcloses) fun _ => ?_
  refine .get_bind fun finish _ => .require_bind (fun _ _ => trivial) fun _ => ?_
  exact .pure fun _ hs => hs

theorem primaryLeads_block {opening : BToken} {tokens : List BToken}
    (hopening : opening.isSpecial "[" = true) (hcloses : Closes "[" "]" 1 tokens) :
    PrimaryLeads env (opening :: tokens) := by
  obtain ⟨hname, hliteral⟩ := not_literal_of_special (BToken.special_of_isSpecial hopening).1
  refine primaryLeads_cons fun fuel o stop rest => ?_
  rw [cgEmitPrimaryToken, if_neg hname, if_neg hliteral,
    BToken.isSpecial_of_text hopening (by decide), if_neg Bool.false_ne_true,
    BToken.isSpecial_of_text hopening (by decide), if_neg Bool.false_ne_true, if_pos hopening]
  refine .get_bind fun start _ => .bind (skipsTo_blockLiteral.stands hcloses) fun _ => ?_
  refine .get_bind fun finish _ => .require_bind (fun _ _ => trivial) fun _ => ?_
  refine .require_bind (fun _ _ => trivial) fun _ => .bind (Q := fun _ => Stands o (stop :: rest))
    (.modifyGet fun s hs => ⟨hs.output, hs.upcoming⟩) fun index => ?_
  refine .bind ((stands_compileBlock fuel _ index).imp (fun _ hs => hs) (fun _ _ hs => hs)
    fun _ _ => trivial) fun _ => ?_
  exact (writesValue_literal (fun _ => rfl) _).stands o (stop :: rest)

end Primaries

/-! ## §6. Messages in the loops. -/

/-- What a part begins with. -/
def Part.Begins : Part → BToken → Prop
  | .message m, token =>
    match m.kind with
    | .unary => token.type = .identifier
    | .binary => token.isBinary = true
    | .keyword => token.type = .keyword
  | _, token => token.isBinary = false

theorem Spelled.begins {part : Part} {tokens : List BToken} (h : Spelled part tokens) :
    ∃ first more, tokens = first :: more ∧ part.Begins first := by
  have happend : ∀ (part : Part) (tokens behind : List BToken),
      (∃ first more, tokens = first :: more ∧ part.Begins first) →
      ∃ first more, tokens ++ behind = first :: more ∧ part.Begins first := by
    rintro part _ behind ⟨first, more, rfl, hbegins⟩
    exact ⟨first, more ++ behind, rfl, hbegins⟩
  induction h with
  | name h => exact ⟨_, _, rfl, BToken.isBinary_of_type (h ▸ BTokenType.noConfusion)⟩
  | literal h =>
    refine ⟨_, _, rfl, BToken.isBinary_of_type ?_⟩
    rcases h with h | h | h | h <;> rw [h] <;> exact BTokenType.noConfusion
  | parenthesis hopening _ _ _ =>
    exact ⟨_, _, rfl, BToken.isBinary_of_isSpecial hopening rfl rfl⟩
  | literalArray hopening _ =>
    refine ⟨_, _, rfl, ?_⟩
    obtain ⟨-, htext⟩ := BToken.special_of_isSpecial hopening
    show (_ && _) = false
    rw [htext]
    exact Bool.and_false _
  | block hopening _ => exact ⟨_, _, rfl, BToken.isBinary_of_isSpecial hopening rfl rfl⟩
  | primary _ ih => exact ih
  | unary _ ih => exact ih
  | binary _ ih => exact ih
  | cascade _ ih => exact ih
  | sendUnary _ _ _ ih _ => exact happend .unary _ _ ih
  | sendBinary _ _ _ ih _ => exact happend .binary _ _ ih
  | selector h => exact ⟨_, _, rfl, h⟩
  | operator hoperator _ _ =>
    obtain ⟨c, second, rfl, hc⟩ := hoperator.head
    exact ⟨c, _, rfl, hc⟩
  | keyword h _ _ => exact ⟨_, _, rfl, h⟩
  | nextKeyword _ _ _ ih _ => exact happend (.message ⟨.keyword, _, _⟩) _ _ ih
  | firstUnary _ _ _ ih _ => exact happend (.cascade _ _) _ _ ih
  | firstBinary _ _ _ ih _ => exact happend (.cascade _ _) _ _ ih
  | firstKeyword _ _ _ ih _ => exact happend (.cascade _ _) _ _ ih
  | next _ _ _ ih _ => exact happend (.cascade _ _) _ _ ih

section Loops

variable {env : Env} {loop : Nat → Cg Unit}

/-- **A unary message**, in either loop. -/
theorem leads_selector {token : BToken} (hzero : ∀ s, loop 0 s = .outOfFuel)
    (hloop : ∀ s rest, Upcoming s.parser (token :: rest) → ∀ fuel, loop (fuel + 1) s =
      (cgEmitSelectorSend token.text 0 >>= fun _ => loop fuel) s.advance) :
    Leads (fun _ => True) (Runs loop) (Runs loop) [token]
      (MessageWritten ⟨.unary, token.text, []⟩) := by
  intro s stop rest s'' hup _ hrun
  have hnone : ArgumentsWritten 0 s.output s.advance.output := argumentsWritten_none s.output
  obtain ⟨s₁, hsend, hparser, hwritten⟩ :=
    ArgumentsWritten.send (m := ⟨.unary, token.text, []⟩) hnone rfl
  refine ⟨s₁, hwritten, ?_, ?_⟩
  · rw [hparser]
    exact hup.2
  · exact (hrun.step (hzero s) (hloop s _ hup)).after hsend

/-- **A binary message**, in either loop; its argument is a unary expression. -/
theorem leads_operator {operator more : List BToken} {first : BToken} {selector : List Char}
    (hoperator : Operator operator selector) (hfirst : first.isBinary = false)
    (harg : Leads (fun stop => stop.type ≠ .identifier) (Runs (cgParseUnaryExpression · env)) Eq
      (first :: more) ValueWritten)
    (hzero : ∀ s, loop 0 s = .outOfFuel)
    (hloop : ∀ s c rest, Upcoming s.parser (c :: rest) → c.isBinary = true →
      ∀ fuel, loop (fuel + 1) s = binaryMessage env loop c fuel s.advance) :
    Leads (fun stop => stop.type ≠ .identifier) (Runs loop) (Runs loop)
      (operator ++ first :: more) (MessageWritten ⟨.binary, selector, [first :: more]⟩) := by
  intro s stop rest s'' hup hstop hrun
  obtain ⟨c, second, rfl, hc⟩ := hoperator.head
  have hup₁ : Upcoming s.parser (c :: (second ++ first :: (more ++ stop :: rest))) := by
    have hlist : c :: second ++ first :: more ++ stop :: rest
        = c :: (second ++ first :: (more ++ stop :: rest)) := by simp
    rw [← hlist]
    exact hup
  obtain ⟨s₁, hcode, hliterals, hup₂, hselector⟩ := cgBinarySelector_run hoperator hfirst hup₁
  have hsame : s₁.output = s.output := by
    show (⟨s₁.code, s₁.literals⟩ : Output) = ⟨s.code, s.literals⟩
    rw [hcode, hliterals]
  obtain ⟨s₂, hargument, hmore⟩ :=
    ((hrun.step (hzero s) (hloop s c _ hup₁ hc)).after hselector).bind
  obtain ⟨_, hvalue, hup₃, rfl⟩ := harg s₁ stop rest s₂ hup₂ hstop hargument
  rw [hsame] at hvalue
  obtain ⟨s₃, hsend, hparser, hwritten⟩ := ArgumentsWritten.send
    (m := ⟨.binary, selector, [first :: more]⟩) hvalue.argument rfl
  refine ⟨s₃, hwritten, ?_, hmore.after hsend⟩
  rw [hparser]
  exact hup₃

/-- The keywords so far have been read: the message is finished, and the loop goes on. -/
def KeywordsRun (env : Env) (selector : List Char) (argc : Nat) (s s'' : CgState) : Prop :=
  ∃ s', Runs (keywordRest env selector argc) s s' ∧
    Runs (cgParseExpressionContinuation · env) s' s''

/-- A keyword and its argument. -/
theorem keywordLoop_argument {token : BToken} {argument : List BToken} {selector : List Char}
    {argc : Nat} {s s' : CgState} {stop : BToken} {rest : List BToken}
    (harg : Leads BToken.EndsBinary (Runs (cgParseBinaryExpression · env)) Eq argument ValueWritten)
    (hup : Upcoming s.parser (argument ++ stop :: rest)) (hstop : stop.EndsBinary)
    (hrun : Runs (cgKeywordLoop · env token selector argc) s s') : ∃ s₁,
    ValueWritten s.output s₁.output ∧ Upcoming s₁.parser (stop :: rest) ∧
      Runs (keywordRest env ((selector ++ token.text).take 127) (argc + 1)) s₁ s' := by
  have hturn : Runs (fun fuel => cgParseBinaryExpression fuel env >>= fun _ =>
      keywordRest env ((selector ++ token.text).take 127) (argc + 1) fuel) s s' := by
    refine hrun.step rfl fun fuel => ?_
    rw [cgKeywordLoop]
    rfl
  obtain ⟨s₁, hargument, hrest⟩ := hturn.bind
  obtain ⟨s₂, hvalue, hup₁, rfl⟩ := harg s stop rest s₁ hup hstop hargument
  exact ⟨s₂, hvalue, hup₁, hrest⟩

theorem leads_keyword {token : BToken} {argument : List BToken} (h : token.type = .keyword)
    (harg : Leads BToken.EndsBinary (Runs (cgParseBinaryExpression · env)) Eq argument
      ValueWritten) :
    Leads BToken.EndsBinary (Runs (cgParseExpressionContinuation · env))
      (KeywordsRun env (token.text.take 127) 1) (token :: argument) (ArgumentsWritten 1) := by
  intro s stop rest s'' hup hstop hrun
  have hup₁ : Upcoming s.parser (token :: (argument ++ stop :: rest)) := hup
  obtain ⟨s', hkeywords, hcontinue⟩ := (hrun.step rfl (continuation_keyword hup₁ h)).bind
  obtain ⟨s₁, hvalue, hup₂, hrest⟩ := keywordLoop_argument harg hup₁.advance hstop hkeywords
  exact ⟨s₁, hvalue.argument, hup₂, s', hrest, hcontinue⟩

/-- Selectors that are cut off as they grow are cut off at the end. -/
theorem take_append_take (n : Nat) (xs ys : List Char) :
    (xs.take n ++ ys).take n = (xs ++ ys).take n := by
  rw [List.take_append, List.take_append, List.take_take, Nat.min_self, List.length_take]
  congr 2
  omega

theorem leads_nextKeyword {token : BToken} {tokens argument : List BToken}
    {selector : List Char} {count : Nat} {start : CgState → CgState → Prop}
    (h : Leads BToken.EndsBinary start (KeywordsRun env (selector.take 127) count) tokens
      (ArgumentsWritten count)) (htype : token.type = .keyword)
    (harg : Leads BToken.EndsBinary (Runs (cgParseBinaryExpression · env)) Eq argument
      ValueWritten) :
    Leads BToken.EndsBinary start
      (KeywordsRun env ((selector ++ token.text).take 127) (count + 1))
      (tokens ++ token :: argument) (ArgumentsWritten (count + 1)) := by
  intro s stop rest s'' hup hstop hrun
  have hup₁ : Upcoming s.parser (tokens ++ token :: (argument ++ stop :: rest)) := by
    have hlist : tokens ++ token :: argument ++ stop :: rest
        = tokens ++ token :: (argument ++ stop :: rest) := by simp
    rw [← hlist]
    exact hup
  have hends : token.EndsBinary :=
    ⟨htype ▸ BTokenType.noConfusion, token.isBinary_of_type (htype ▸ BTokenType.noConfusion)⟩
  obtain ⟨s₁, hwritten, hup₂, s', hkeywords, hcontinue⟩ := h s token _ s'' hup₁ hends hrun
  have hloop : Runs (cgKeywordLoop · env token (selector.take 127) count) s₁.advance s' := by
    have hread : Runs (fun fuel => if token.type = .keyword
        then cgKeywordLoop fuel env token (selector.take 127) count
        else unread token >>= fun _ => cgEmitSelectorSend (selector.take 127) count)
        s₁.advance s' := hkeywords.after (next_of_upcoming hup₂)
    obtain ⟨fuel, hfuel⟩ := hread
    dsimp only at hfuel
    rw [if_pos htype] at hfuel
    exact ⟨fuel, hfuel⟩
  obtain ⟨s₂, hvalue, hup₃, hrest⟩ := keywordLoop_argument harg hup₂.advance hstop hloop
  rw [take_append_take] at hrest
  exact ⟨s₂, hwritten.next hvalue, hup₃, s', hrest, hcontinue⟩

/-- What a message is followed by. -/
structure BToken.EndsMessage (token : BToken) : Prop extends token.EndsBinary where
  keyword : token.type ≠ .keyword

/-- **A keyword message** is sent when no keyword follows. -/
theorem leads_keywordMessage {tokens : List BToken} {m : Spelling} (hkind : m.kind = .keyword)
    {start : CgState → CgState → Prop}
    (h : Leads BToken.EndsBinary start
      (KeywordsRun env (m.selector.take 127) m.arguments.length) tokens
      (ArgumentsWritten m.arguments.length)) :
    Leads BToken.EndsMessage start (Runs (cgParseExpressionContinuation · env)) tokens
      (MessageWritten m) := by
  intro s stop rest s'' hup hstop hrun
  obtain ⟨s₁, hwritten, hup₁, s', hkeywords, hcontinue⟩ :=
    h s stop rest s'' hup hstop.toEndsBinary hrun
  have hread : Runs (fun fuel => if stop.type = .keyword
      then cgKeywordLoop fuel env stop (m.selector.take 127) m.arguments.length
      else unread stop >>= fun _ => cgEmitSelectorSend (m.selector.take 127) m.arguments.length)
      s₁.advance s' := hkeywords.after (next_of_upcoming hup₁)
  obtain ⟨fuel, hfuel⟩ := hread
  dsimp only at hfuel
  rw [if_neg hstop.keyword] at hfuel
  have hselector : (m.selector.take 127).take textRoom = m.selector.take m.kind.room := by
    rw [hkind, List.take_take]
    rfl
  obtain ⟨s₂, hsend, hparser, hmessage⟩ :=
    ArgumentsWritten.send (s := s₁.advance.unread stop) hwritten hselector
  have hsent : (unread stop >>= fun _ =>
      cgEmitSelectorSend (m.selector.take 127) m.arguments.length) s₁.advance = .ok () s₂ := hsend
  rw [hsent] at hfuel
  obtain ⟨-, rfl⟩ := Tried.ok.inj hfuel
  refine ⟨s₂, hmessage, ?_, hcontinue⟩
  rw [hparser]
  exact hup₁.unread

/-- At a semicolon the loop goes on. -/
theorem continuation_separator {s : CgState} {token : BToken} {tokens : List BToken}
    (h : Upcoming s.parser (token :: tokens)) (hseparator : token.isSpecial ";" = true)
    (fuel : Nat) : cgParseExpressionContinuation (fuel + 1) env s =
      cgParseExpressionContinuation fuel env s.advance := by
  have htype := (BToken.special_of_isSpecial hseparator).1
  rw [cgParseExpressionContinuation]
  refine (bind_ok (next_of_upcoming h)).trans ?_
  rw [if_neg (htype ▸ BTokenType.noConfusion : token.type ≠ .eof),
    BToken.isSpecial_of_text hseparator (by decide), BToken.isSpecial_of_text hseparator (by decide),
    BToken.isSpecial_of_text hseparator (by decide), hseparator]
  rfl

theorem leads_separator {token : BToken} (hseparator : token.isSpecial ";" = true) :
    Leads (fun _ => True) (Runs (cgParseExpressionContinuation · env))
      (Runs (cgParseExpressionContinuation · env)) [token] Eq := by
  intro s stop rest s'' hup _ hrun
  have hup₁ : Upcoming s.parser (token :: stop :: rest) := hup
  exact ⟨s.advance, rfl, hup₁.advance, hrun.step rfl (continuation_separator hup₁ hseparator)⟩

theorem endsMessage_separator {token : BToken} (h : token.isSpecial ";" = true) :
    token.EndsMessage := by
  have htype := (BToken.special_of_isSpecial h).1
  refine ⟨⟨?_, BToken.isBinary_of_isSpecial h rfl rfl⟩, ?_⟩
  · rw [htype]
    exact BTokenType.noConfusion
  · rw [htype]
    exact BTokenType.noConfusion

theorem BToken.IsStop.endsMessage {token : BToken} (h : token.IsStop) : token.EndsMessage :=
  ⟨h.endsBinary, h.type_ne_keyword⟩

end Loops

/-! ## §7. Every part of an expression. -/

section Parts

variable {env : Env} {tokens : List BToken} {Q : Output → Output → Prop}

theorem leads_closeUnary
    (h : Leads (fun _ => True) (Runs (cgParseUnaryExpression · env)) (Runs fun fuel => cgUnaryLoop fuel)
      tokens Q) :
    Leads (fun stop => stop.type ≠ .identifier) (Runs (cgParseUnaryExpression · env)) Eq tokens Q :=
  h.close (fun _ _ => trivial) fun _ _ _ _ hup hstop hrun =>
    hrun.ends rfl (cgUnaryLoop_end hup hstop)

theorem leads_toBinary
    (h : Leads (fun stop => stop.type ≠ .identifier) (Runs (cgParseUnaryExpression · env)) Eq
      tokens Q) :
    Leads (fun stop => stop.type ≠ .identifier) (Runs (cgParseBinaryExpression · env))
      (Runs (cgBinaryLoop · env)) tokens Q := by
  refine h.enter fun s s'' hrun => Runs.bind (hrun.step rfl fun fuel => ?_)
  rw [cgParseBinaryExpression]

theorem leads_closeBinary
    (h : Leads (fun stop => stop.type ≠ .identifier) (Runs (cgParseBinaryExpression · env))
      (Runs (cgBinaryLoop · env)) tokens Q) :
    Leads BToken.EndsBinary (Runs (cgParseBinaryExpression · env)) Eq tokens Q :=
  h.close (fun _ hstop => hstop.unary) fun _ _ _ _ hup hstop hrun =>
    hrun.ends rfl (cgBinaryLoop_end hup hstop.binary)

theorem leads_toExpression
    (h : Leads BToken.EndsBinary (Runs (cgParseBinaryExpression · env)) Eq tokens Q) :
    Leads BToken.EndsBinary (Runs (cgParseExpression · env))
      (Runs (cgParseExpressionContinuation · env)) tokens Q := by
  refine h.enter fun s s'' hrun => Runs.bind (hrun.step rfl fun fuel => ?_)
  rw [cgParseExpression]

theorem leads_closeExpression {start : CgState → CgState → Prop} {ends : BToken → Prop}
    (h : Leads ends start (Runs (cgParseExpressionContinuation · env)) tokens Q)
    (hends : ∀ stop : BToken, stop.IsStop → ends stop) :
    Leads BToken.IsStop start Eq tokens Q :=
  h.close hends fun _ _ _ _ hup hstop hrun => hrun.ends rfl (continuation_end hup hstop)

/-- A primary begins a unary expression, and a statement. -/
theorem leads_ofPrimary (h : PrimaryLeads env tokens) :
    Leads (fun _ => True) (Runs (cgParseUnaryExpression · env)) (Runs fun fuel => cgUnaryLoop fuel)
        tokens ValueWritten ∧
      Leads (fun _ => True) (Runs (startStatement env))
        (Runs (cgParseExpressionContinuation · env)) tokens ValueWritten := by
  refine ⟨(h next reads_next).enter fun s s'' hrun => ?_,
    (h nextLookingAhead reads_lookingAhead).enter fun s s'' hrun => Runs.bind hrun⟩
  refine Runs.bind (m := cgParsePrimary next env) (n := fun fuel => cgUnaryLoop fuel) ?_
  refine hrun.step rfl fun fuel => ?_
  rw [cgParseUnaryExpression]
  rfl

/-- What is proved of the parts; the second half is about a statement that begins with a name. -/
def LeadsAs (env : Env) : Part → List BToken → Prop
  | .primary, tokens => PrimaryLeads env tokens
  | .unary, tokens =>
    Leads (fun _ => True) (Runs (cgParseUnaryExpression · env)) (Runs fun fuel => cgUnaryLoop fuel)
        tokens ValueWritten ∧
      Leads (fun _ => True) (Runs (startStatement env))
        (Runs (cgParseExpressionContinuation · env)) tokens ValueWritten
  | .binary, tokens =>
    Leads (fun stop => stop.type ≠ .identifier) (Runs (cgParseBinaryExpression · env))
        (Runs (cgBinaryLoop · env)) tokens ValueWritten ∧
      Leads (fun stop => stop.type ≠ .identifier) (Runs (startStatement env))
        (Runs (cgParseExpressionContinuation · env)) tokens ValueWritten
  | .expression, tokens =>
    Leads BToken.IsStop (Runs (cgParseExpression · env)) Eq tokens ValueWritten ∧
      Leads BToken.IsStop (Runs (startStatement env)) Eq tokens ValueWritten
  | .message m, tokens =>
    match m.kind with
    | .unary =>
      Leads (fun _ => True) (Runs fun fuel => cgUnaryLoop fuel) (Runs fun fuel => cgUnaryLoop fuel)
          tokens (MessageWritten m) ∧
        Leads (fun _ => True) (Runs (cgParseExpressionContinuation · env))
          (Runs (cgParseExpressionContinuation · env)) tokens (MessageWritten m)
    | .binary =>
      Leads (fun stop => stop.type ≠ .identifier) (Runs (cgBinaryLoop · env))
          (Runs (cgBinaryLoop · env)) tokens (MessageWritten m) ∧
        Leads (fun stop => stop.type ≠ .identifier) (Runs (cgParseExpressionContinuation · env))
          (Runs (cgParseExpressionContinuation · env)) tokens (MessageWritten m)
    | .keyword =>
      Leads BToken.EndsBinary (Runs (cgParseExpressionContinuation · env))
        (KeywordsRun env (m.selector.take 127) m.arguments.length) tokens
        (ArgumentsWritten m.arguments.length)
  | .cascade _ messages, tokens =>
    Leads BToken.EndsMessage (Runs (cgParseExpression · env))
        (Runs (cgParseExpressionContinuation · env)) tokens (CascadeWritten messages) ∧
      Leads BToken.EndsMessage (Runs (startStatement env))
        (Runs (cgParseExpressionContinuation · env)) tokens (CascadeWritten messages)

/-- Any message, in the last of the loops. -/
theorem LeadsAs.inContinuation {m : Spelling} (h : LeadsAs env (.message m) tokens) :
    Leads BToken.EndsMessage (Runs (cgParseExpressionContinuation · env))
      (Runs (cgParseExpressionContinuation · env)) tokens (MessageWritten m) := by
  obtain ⟨kind, selector, arguments⟩ := m
  cases kind with
  | unary => exact h.2.imp (fun _ _ => trivial) fun _ _ hwritten => hwritten
  | binary => exact h.2.imp (fun _ hstop => hstop.unary) fun _ _ hwritten => hwritten
  | keyword => exact leads_keywordMessage rfl h

/-- **Every part of an expression is compiled**, by induction on the grammar. -/
theorem Spelled.leadsAs {part : Part} {tokens : List BToken} (h : Spelled part tokens) :
    LeadsAs env part tokens := by
  induction h with
  | name h => exact primaryLeads_name h
  | literal h => exact primaryLeads_literal h
  | parenthesis hopening _ hclosing ih => exact primaryLeads_parenthesis hopening ih.1 hclosing
  | literalArray hopening hcloses => exact primaryLeads_literalArray hopening hcloses
  | block hopening hcloses => exact primaryLeads_block hopening hcloses
  | primary _ ih => exact leads_ofPrimary ih
  | @sendUnary _ _ m _ hkind hmessage ih ihmessage =>
    obtain ⟨kind, selector, arguments⟩ := m
    obtain rfl : kind = .unary := hkind
    obtain ⟨first, more, rfl, -⟩ := hmessage.begins
    refine ⟨ih.1.trans ihmessage.1 trivial fun _ _ _ hvalue hm => (hvalue.send hm).value, ?_⟩
    exact ih.2.trans ihmessage.2 trivial fun _ _ _ hvalue hm => (hvalue.send hm).value
  | unary _ ih =>
    exact ⟨leads_toBinary (leads_closeUnary ih.1), ih.2.imp (fun _ _ => trivial) fun _ _ h => h⟩
  | @sendBinary _ _ m _ hkind hmessage ih ihmessage =>
    obtain ⟨kind, selector, arguments⟩ := m
    obtain rfl : kind = .binary := hkind
    obtain ⟨first, more, rfl, hfirst⟩ := hmessage.begins
    have hends : first.type ≠ .identifier := by
      rw [(BToken.special_of_isBinary hfirst).1]
      exact BTokenType.noConfusion
    refine ⟨ih.1.trans ihmessage.1 hends fun _ _ _ hvalue hm => (hvalue.send hm).value, ?_⟩
    exact ih.2.trans ihmessage.2 hends fun _ _ _ hvalue hm => (hvalue.send hm).value
  | binary _ ih =>
    refine ⟨leads_closeExpression (leads_toExpression (leads_closeBinary ih.1))
      fun _ hstop => hstop.endsBinary, ?_⟩
    exact leads_closeExpression ih.2 fun _ hstop => hstop.endsBinary.unary
  | cascade _ ih =>
    refine ⟨(leads_closeExpression ih.1 fun _ hstop => hstop.endsMessage).imp (fun _ h => h)
      fun _ _ hwritten => hwritten.value, ?_⟩
    exact (leads_closeExpression ih.2 fun _ hstop => hstop.endsMessage).imp (fun _ h => h)
      fun _ _ hwritten => hwritten.value
  | selector h =>
    refine ⟨leads_selector (fun _ => rfl) fun s rest hup => cgUnaryLoop_message hup h, ?_⟩
    exact leads_selector (fun _ => rfl) fun s rest hup => continuation_message hup h
  | operator hoperator hargument ih =>
    obtain ⟨first, more, rfl, hfirst⟩ := hargument.begins
    have hargument := leads_closeUnary ih.1
    refine ⟨?_, ?_⟩
    · exact leads_operator hoperator hfirst hargument (fun _ => rfl)
        fun s c rest hup hc => cgBinaryLoop_message hup hc
    · exact leads_operator hoperator hfirst hargument (fun _ => rfl)
        fun s c rest hup hc => continuation_binary hup hc
  | keyword h _ ih => exact leads_keyword h (leads_closeBinary ih.1)
  | nextKeyword _ h _ ih iharg =>
    have hmessage := leads_nextKeyword ih h (leads_closeBinary iharg.1)
    show Leads BToken.EndsBinary _ (KeywordsRun env _ (List.length (_ ++ [_]))) _
      (ArgumentsWritten (List.length (_ ++ [_])))
    rw [List.length_append]
    exact hmessage
  | @firstUnary _ _ m _ hkind hmessage ih ihmessage =>
    obtain ⟨kind, selector, arguments⟩ := m
    obtain rfl : kind = .unary := hkind
    obtain ⟨first, more, rfl, -⟩ := hmessage.begins
    have hfirst := ih.1.trans ihmessage.1 trivial fun _ _ _ hvalue hm => hvalue.send hm
    have hbinary := leads_closeBinary (leads_toBinary (leads_closeUnary hfirst))
    refine ⟨(leads_toExpression hbinary).imp (fun _ hstop => hstop.toEndsBinary)
      fun _ _ hwritten => hwritten, ?_⟩
    exact (ih.2.trans ihmessage.2 trivial fun _ _ _ hvalue hm => hvalue.send hm).imp
      (fun _ _ => trivial) fun _ _ hwritten => hwritten
  | @firstBinary _ _ m _ hkind hmessage ih ihmessage =>
    obtain ⟨kind, selector, arguments⟩ := m
    obtain rfl : kind = .binary := hkind
    obtain ⟨first, more, rfl, hfirst⟩ := hmessage.begins
    have hends : first.type ≠ .identifier := by
      rw [(BToken.special_of_isBinary hfirst).1]
      exact BTokenType.noConfusion
    have hbinary := leads_closeBinary
      (ih.1.trans ihmessage.1 hends fun _ _ _ hvalue hm => hvalue.send hm)
    refine ⟨(leads_toExpression hbinary).imp (fun _ hstop => hstop.toEndsBinary)
      fun _ _ hwritten => hwritten, ?_⟩
    exact (ih.2.trans ihmessage.2 hends fun _ _ _ hvalue hm => hvalue.send hm).imp
      (fun _ hstop => hstop.unary) fun _ _ hwritten => hwritten
  | @firstKeyword _ _ m _ hkind hmessage ih ihmessage =>
    obtain ⟨kind, selector, arguments⟩ := m
    obtain rfl : kind = .keyword := hkind
    have hcontinue := ihmessage.inContinuation
    obtain ⟨first, more, rfl, hfirst⟩ := hmessage.begins
    have htype : first.type = .keyword := hfirst
    have hends : first.EndsBinary :=
      ⟨htype ▸ BTokenType.noConfusion, first.isBinary_of_type (htype ▸ BTokenType.noConfusion)⟩
    refine ⟨(leads_toExpression (leads_closeBinary ih.1)).trans hcontinue hends
      fun _ _ _ hvalue hm => hvalue.send hm, ?_⟩
    exact ih.2.trans hcontinue hends.unary fun _ _ _ hvalue hm => hvalue.send hm
  | @next _ _ _ _ _ separator _ hseparator hmessage ih ihmessage =>
    obtain ⟨first, more, rfl, -⟩ := hmessage.begins
    have hpart := (leads_separator hseparator).trans ihmessage.inContinuation trivial
      fun o o₁ o₂ hsame hm => (show MessageWritten _ o o₂ from hsame ▸ hm)
    refine ⟨ih.1.trans hpart (endsMessage_separator hseparator)
      fun _ _ _ hwritten hm => hwritten.next hm, ?_⟩
    exact ih.2.trans hpart (endsMessage_separator hseparator)
      fun _ _ _ hwritten hm => hwritten.next hm

end Parts

/-! ## §8. The result. -/

/-- The compiler gets from one state to the other, with an expression or with a statement that
begins with a name. -/
def Accepts (env : Env) (s s' : CgState) : Prop :=
  Runs (cgParseExpression · env) s s' ∨ Runs (startStatement env) s s'

/-- The code of a cascade has been written between the two states; it does what the cascade is to
do exactly where the messages keep to the receiver. -/
structure CompiledCascade (s s' : CgState) (messages : List Spelling) (c : Cascade)
    (code : List Instruction) : Prop where
  matched : List.Forall₂ Spelling.Compiled messages c.messages
  written : s'.code = s.code ++ code
  hasCode : c.HasCode s'.literals code
  doneBy_iff : ∀ table, s'.literals <+: table → ∀ (World Value : Type) (R : Runtime World Value) w,
    c.DoneBy R table code w ↔ c.KeepsReceiver R table w

/-- **Cascades.**  Of every cascade that the compiler accepts, whatever its receiver and the
arguments of its messages are, the code evaluates the receiver once, sends the messages to that
object in order and leaves the value of the last one, exactly when every message that another one
follows answers the receiver: what comes after a semicolon is sent to the answer. -/
theorem cascade_iff {env : Env} {s s' : CgState} {receiver tokens rest : List BToken}
    {messages : List Spelling} {stop : BToken} (h : Spelled (.cascade receiver messages) tokens)
    (hup : Upcoming s.parser (tokens ++ stop :: rest)) (hstop : stop.IsStop)
    (haccepts : Accepts env s s') :
    Upcoming s'.parser (stop :: rest) ∧ ∃ c code, CompiledCascade s s' messages c code := by
  obtain ⟨hexpression, hstatement⟩ : LeadsAs env (.cascade receiver messages) tokens := h.leadsAs
  have hends : ∀ stop : BToken, stop.IsStop → stop.EndsMessage := fun _ h => h.endsMessage
  obtain ⟨hup', hwritten⟩ : Upcoming s'.parser (stop :: rest) ∧
      CascadeWritten messages s.output s'.output := by
    rcases haccepts with hrun | hrun
    · obtain ⟨s₁, hwritten, hup₁, rfl⟩ :=
        (leads_closeExpression hexpression hends) s stop rest s' hup hstop hrun
      exact ⟨hup₁, hwritten⟩
    · obtain ⟨s₁, hwritten, hup₁, rfl⟩ :=
        (leads_closeExpression hstatement hends) s stop rest s' hup hstop hrun
      exact ⟨hup₁, hwritten⟩
  obtain ⟨c, code, hmessages, hext, hcode⟩ := hwritten
  exact ⟨hup', c, code, hmessages, hext.code, hcode,
    fun _ htable _ _ _ w => hcode.doneBy_iff htable w⟩

/-! ### Two messages to an argument. -/

def fooBarTokens : List BToken :=
  [identifierToken "x", identifierToken "foo", specialToken ";", identifierToken "bar"]

def fooBarMessages : List Spelling :=
  [⟨.unary, "foo".toList, []⟩, ⟨.unary, "bar".toList, []⟩]

theorem fooBar_spelled :
    Spelled (.cascade [identifierToken "x"] fooBarMessages) fooBarTokens := by
  have hfoo : Spelled (.message ⟨.unary, (identifierToken "foo").text, []⟩)
      [identifierToken "foo"] := .selector rfl
  have hbar : Spelled (.message ⟨.unary, (identifierToken "bar").text, []⟩)
      [identifierToken "bar"] := .selector rfl
  exact .next (.firstUnary (.primary (.name rfl)) rfl hfoo) (by decide) hbar

def fooBarState : CgState := .init "x foo; bar".toList []

/-- The output of a run that gets through. -/
def outputOf (run : Tried CgState Unit) : Option Output :=
  match run with
  | .ok _ s => some s.output
  | _ => none

def fooBarOutput : Output where
  code := [.pushArg 0, .sendMessage 0 0, .sendMessage 1 0]
  literals := [selectorToken "foo".toList, selectorToken "bar".toList]

theorem fooBar_runs : outputOf (cgParseExpression 8 sumEnv fooBarState) = some fooBarOutput := by
  decide +kernel

theorem fooBar_accepted : ∃ s', cgParseExpression 8 sumEnv fooBarState = .ok () s' ∧
    s'.output = fooBarOutput := by
  have hruns := fooBar_runs
  cases hrun : cgParseExpression 8 sumEnv fooBarState with
  | ok a s' =>
    rw [hrun] at hruns
    exact ⟨s', rfl, Option.some.inj hruns⟩
  | rejected s' =>
    rw [hrun] at hruns
    cases hruns
  | outOfFuel =>
    rw [hrun] at hruns
    cases hruns

theorem fooBar_iff : ∃ s', Accepts sumEnv fooBarState s' ∧ ∃ c code,
    CompiledCascade fooBarState s' fooBarMessages c code := by
  obtain ⟨s', hrun, -⟩ := fooBar_accepted
  have hup : Upcoming fooBarState.parser (fooBarTokens ++ [makeToken .eof]) := by decide +kernel
  have haccepts : Accepts sumEnv fooBarState s' := .inl ⟨8, hrun⟩
  exact ⟨s', haccepts, (cascade_iff fooBar_spelled hup (.inl rfl) haccepts).2⟩

/-- Every message answers the number after its receiver. -/
def nextNumber : Runtime Unit Nat where
  push _ _ _ := some ((), 0)
  send _ message := some ((), message.receiver + 1)

def fooBarCascade : Cascade where
  receiver := [.pushArg 0]
  messages := [⟨"foo".toList, "foo".toList, []⟩, ⟨"bar".toList, "bar".toList, []⟩]

/-- `bar` is sent to 1, the answer to `foo`, and not to 0. -/
theorem bar_to_answer : ∃ s', cgParseExpression 8 sumEnv fooBarState = .ok () s' ∧
    fooBarCascade.HasCode s'.literals s'.code ∧
    ¬fooBarCascade.DoneBy nextNumber s'.literals s'.code () := by
  obtain ⟨s', hrun, houtput⟩ := fooBar_accepted
  obtain ⟨hcode, hliterals⟩ := Output.mk.inj houtput
  refine ⟨s', hrun, ?_, ?_⟩
  · rw [hcode, hliterals]
    refine ⟨isValue_push rfl _, _, ⟨[.sendMessage 0 0], [.sendMessage 1 0], ?_, ?_, rfl⟩, rfl⟩
    · exact ⟨fun _ h => absurd h List.not_mem_nil, 0, rfl, rfl⟩
    · exact ⟨_, [], ⟨fun _ h => absurd h List.not_mem_nil, 1, rfl, rfl⟩, rfl, rfl⟩
  · rw [hcode, hliterals]
    intro hdone
    exact absurd (hdone []) (by decide +kernel)

end LivingObjects.Compiler
