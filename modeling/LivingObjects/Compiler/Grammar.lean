/-
  LivingObjects.Compiler.Grammar — expressions, and what they are to do.

  The expressions of Smalltalk without cascades, super and blocks, and the tokens they are
  written with: unary messages bind closer than binary ones and these closer than keyword
  messages, and a message is sent to what stands to its left.  An expression is evaluated
  from left to right, the receiver before the arguments.

  Next to that meaning stand the instructions that such an expression is compiled to, as
  `interpret` runs them: values go to an operand stack, and a message takes its receiver
  and arguments from there.
-/
import LivingObjects.Compiler.Codegen

namespace LivingObjects.Compiler

/-! ## §1. Expressions. -/

/-- An expression, its names resolved in the body it stands in. -/
inductive Expr where
  | self
  | literal (token : BToken)
  | argument (index : Nat)
  | temporary (index : Nat)
  | message (receiver : Expr) (selector : List Char) (arguments : List Expr)

/-- The parts of an expression, by how close they bind. -/
inductive Level where
  | primary
  | unary
  | binary
  /-- The keywords of a message that have been read, with their arguments. -/
  | keywords
  | expression

/-- The characters of a binary selector: one token, or two. -/
inductive Operator : List BToken → List Char → Prop where
  | one {c : BToken} (hc : c.isBinary = true) : Operator [c] c.text
  | two {c d : BToken} (hc : c.isBinary = true) (hd : d.isBinary = true) :
      Operator [c, d] (c.text ++ d.text)

def BToken.isLiteral (token : BToken) : Prop :=
  token.type = .integer ∨ token.type = .character ∨ token.type = .string ∨ token.type = .symbol

/-- The names that are not looked up. -/
def reservedNames : List (List Char) :=
  ["self".toList, "super".toList, "thisContext".toList, "nil".toList, "true".toList,
    "false".toList]

/-- A name of a variable. -/
structure BToken.IsVariable (token : BToken) : Prop where
  type : token.type = .identifier
  free : token.text ∉ reservedNames

/-- **The grammar**: the tokens of an expression in a body. -/
inductive Parses (env : Env) : Level → List BToken → Expr → Prop where
  | self {token : BToken} (htype : token.type = .identifier)
      (htext : token.text = "self".toList) : Parses env .primary [token] .self
  | constant {token : BToken} (htype : token.type = .identifier)
      (htext : token.text ∈ ["nil".toList, "true".toList, "false".toList]) :
      Parses env .primary [token] (.literal token)
  | literal {token : BToken} (h : token.isLiteral) : Parses env .primary [token] (.literal token)
  | temporary {token : BToken} {index : Nat} (hname : token.IsVariable)
      (h : indexOfName env.scope.temps token.text = some index) :
      Parses env .primary [token] (.temporary index)
  | argument {token : BToken} {index : Nat} (hname : token.IsVariable)
      (hfree : indexOfName env.scope.temps token.text = none)
      (h : indexOfName env.scope.args token.text = some index) :
      Parses env .primary [token] (.argument index)
  | parenthesis {opening closing : BToken} {tokens : List BToken} {e : Expr}
      (hopening : opening.isSpecial "(" = true) (h : Parses env .expression tokens e)
      (hclosing : closing.isSpecial ")" = true) :
      Parses env .primary (opening :: tokens ++ [closing]) e
  | primary {tokens : List BToken} {e : Expr} (h : Parses env .primary tokens e) :
      Parses env .unary tokens e
  | unaryMessage {tokens : List BToken} {e : Expr} {selector : BToken}
      (h : Parses env .unary tokens e) (htype : selector.type = .identifier)
      (hroom : selector.text.length ≤ textRoom) :
      Parses env .unary (tokens ++ [selector]) (.message e selector.text [])
  | unary {tokens : List BToken} {e : Expr} (h : Parses env .unary tokens e) :
      Parses env .binary tokens e
  | binaryMessage {tokens operator argTokens : List BToken} {e arg : Expr} {selector : List Char}
      (h : Parses env .binary tokens e) (hoperator : Operator operator selector)
      (harg : Parses env .unary argTokens arg) :
      Parses env .binary (tokens ++ (operator ++ argTokens)) (.message e selector [arg])
  | keyword {tokens argTokens : List BToken} {e arg : Expr} {keyword : BToken}
      (h : Parses env .binary tokens e) (htype : keyword.type = .keyword)
      (hroom : keyword.text.length ≤ 127) (harg : Parses env .binary argTokens arg) :
      Parses env .keywords (tokens ++ keyword :: argTokens) (.message e keyword.text [arg])
  | nextKeyword {tokens argTokens : List BToken} {e arg : Expr} {selector : List Char}
      {arguments : List Expr} {keyword : BToken}
      (h : Parses env .keywords tokens (.message e selector arguments))
      (htype : keyword.type = .keyword) (hroom : (selector ++ keyword.text).length ≤ 127)
      (harg : Parses env .binary argTokens arg) :
      Parses env .keywords (tokens ++ keyword :: argTokens)
        (.message e (selector ++ keyword.text) (arguments ++ [arg]))
  | binary {tokens : List BToken} {e : Expr} (h : Parses env .binary tokens e) :
      Parses env .expression tokens e
  | keywordMessage {tokens : List BToken} {e : Expr} (h : Parses env .keywords tokens e) :
      Parses env .expression tokens e

/-! ## §2. What an expression does. -/

/-- The rest of the virtual machine, as the code of a body sees it: a world that messages
may change, in which literals, variables and the receiver have their values. -/
structure Machine (World Value : Type) where
  literal : World → BToken → Value
  receiver : World → Value
  arg : World → Nat → Value
  temp : World → Nat → Value
  /-- Receiver, selector and arguments; nothing when the message does not return. -/
  send : World → Value → Value → List Value → Option (World × Value)

def selectorToken (selector : List Char) : BToken := { makeToken .selector with text := selector }

section Meaning

variable {World Value : Type} (M : Machine World Value) (env : Env)

mutual

/-- The value of an expression, and the world after it. -/
def Expr.eval : Expr → World → Option (World × Value)
  | .self, w => some (w, M.receiver w)
  | .literal token, w => some (w, M.literal w token)
  | .argument index, w => some (w, M.arg w index)
  | .temporary index, w => some (w, M.temp w (cgLocalTempSlot env index))
  | .message receiver selector arguments, w => do
    let (w, value) ← receiver.eval w
    let (w, values) ← evalAll arguments w
    M.send w value (M.literal w (selectorToken selector)) values

/-- Expressions from left to right. -/
def evalAll : List Expr → World → Option (World × List Value)
  | [], w => some (w, [])
  | e :: es, w => do
    let (w, value) ← e.eval w
    let (w, values) ← evalAll es w
    return (w, value :: values)

end

/-! ## §3. What code does. -/

/-- An instruction of `interpret` that pushes, or sends a message; the others are not used
by expressions.  The operands are on the stack, the last one on top. -/
def Instruction.exec (literals : List BToken) :
    Instruction → World × List Value → Option (World × List Value)
  | .pushLiteral index, (w, stack) => do
    let token ← literals[index]?
    return (w, M.literal w token :: stack)
  | .pushTemp slot, (w, stack) => some (w, M.temp w slot :: stack)
  | .pushArg index, (w, stack) => some (w, M.arg w index :: stack)
  | .pushSelf, (w, stack) => some (w, M.receiver w :: stack)
  | .sendMessage selector argc, (w, stack) => do
    let token ← literals[selector]?
    let receiver ← stack[argc]?
    let (w', value) ← M.send w receiver (M.literal w token) (stack.take argc).reverse
    return (w', value :: stack.drop (argc + 1))
  | _, _ => none

/-- Code without jumps. -/
def execAll (literals : List BToken) (code : List Instruction) (state : World × List Value) :
    Option (World × List Value) :=
  code.foldlM (fun state i => i.exec M literals state) state

/-- **The code evaluates the expressions**: it does to the world what they do, and leaves
their values on the stack, one for each. -/
def Evaluates (literals : List BToken) (code : List Instruction) (es : List Expr) : Prop :=
  ∀ w stack, execAll M literals code (w, stack) =
    (evalAll M env es w).map fun (w', values) => (w', values.reverse ++ stack)

/-! ## §4. Code in sequence. -/

variable {M env}

theorem evalAll_singleton (e : Expr) (w : World) :
    evalAll M env [e] w = (e.eval M env w).map fun (w', value) => (w', [value]) := by
  simp only [evalAll]
  cases e.eval M env w with
  | none => rfl
  | some result => rfl

theorem evalAll_append (es fs : List Expr) (w : World) :
    evalAll M env (es ++ fs) w = (evalAll M env es w).bind fun (w', values) =>
      (evalAll M env fs w').map fun (w'', more) => (w'', values ++ more) := by
  induction es generalizing w with
  | nil =>
    show evalAll M env fs w = (evalAll M env fs w).map fun (w'', more) => (w'', [] ++ more)
    simp only [List.nil_append, Option.map_id_fun', id]
  | cons e es ih =>
    simp only [List.cons_append, evalAll]
    cases e.eval M env w with
    | none => rfl
    | some result =>
      obtain ⟨w₁, value⟩ := result
      simp only [Option.bind_eq_bind, Option.bind_some, ih]
      cases evalAll M env es w₁ with
      | none => rfl
      | some result =>
        obtain ⟨w₂, values⟩ := result
        show ((evalAll M env fs w₂).map fun (w'', more) => (w'', values ++ more)).bind _ =
          (evalAll M env fs w₂).map _
        cases evalAll M env fs w₂ with
        | none => rfl
        | some result => rfl

/-- Every expression has one value. -/
theorem length_of_evalAll {es : List Expr} {w w' : World} {values : List Value}
    (h : evalAll M env es w = some (w', values)) : values.length = es.length := by
  induction es generalizing w w' values with
  | nil =>
    obtain ⟨-, rfl⟩ := Prod.mk.inj (Option.some.inj h)
    rfl
  | cons e es ih =>
    simp only [evalAll, Option.bind_eq_bind, Option.bind_eq_some_iff] at h
    obtain ⟨⟨w₁, value⟩, -, ⟨w₂, rest⟩, hrest, h⟩ := h
    obtain ⟨-, rfl⟩ := Prod.mk.inj (Option.some.inj h)
    have hlength := ih hrest
    simp only [List.length_cons, hlength]

theorem execAll_append (literals : List BToken) (code more : List Instruction)
    (state : World × List Value) : execAll M literals (code ++ more) state =
      (execAll M literals code state).bind (execAll M literals more) :=
  List.foldlM_append

theorem execAll_singleton (literals : List BToken) (i : Instruction)
    (state : World × List Value) : execAll M literals [i] state = i.exec M literals state := by
  show (i.exec M literals state).bind some = _
  exact Option.bind_fun_some _

theorem Evaluates.nil (literals : List BToken) : Evaluates M env literals [] [] :=
  fun _ _ => rfl

/-- **First the one, then the other.** -/
theorem Evaluates.append {literals : List BToken} {code more : List Instruction}
    {es fs : List Expr} (h : Evaluates M env literals code es)
    (hmore : Evaluates M env literals more fs) :
    Evaluates M env literals (code ++ more) (es ++ fs) := by
  intro w stack
  rw [execAll_append, h w stack, evalAll_append]
  cases evalAll M env es w with
  | none => rfl
  | some result =>
    obtain ⟨w₁, values⟩ := result
    show execAll M literals more (w₁, values.reverse ++ stack) = _
    rw [hmore w₁]
    show _ = ((evalAll M env fs w₁).map fun (w'', more) => (w'', values ++ more)).map _
    rw [Option.map_map]
    congr 1
    funext result
    simp only [Function.comp, List.reverse_append, List.append_assoc]

/-- An instruction that pushes the value of an expression. -/
theorem Evaluates.push {literals : List BToken} {i : Instruction} {e : Expr}
    (h : ∀ w stack, i.exec M literals (w, stack) =
      (e.eval M env w).map fun (w', value) => (w', value :: stack)) :
    Evaluates M env literals [i] [e] := by
  intro w stack
  rw [execAll_singleton, h w stack, evalAll_singleton, Option.map_map]
  rfl

/-- **A message**, after the code of its receiver and arguments. -/
theorem Evaluates.message {literals : List BToken} {code : List Instruction} {e : Expr}
    {selector : List Char} {arguments : List Expr} {index : Nat}
    (h : Evaluates M env literals code (e :: arguments))
    (hselector : literals[index]? = some (selectorToken selector)) :
    Evaluates M env literals (code ++ [.sendMessage index arguments.length])
      [.message e selector arguments] := by
  intro w stack
  rw [execAll_append, h w stack, evalAll_singleton]
  simp only [evalAll, Expr.eval]
  cases e.eval M env w with
  | none => rfl
  | some result =>
    obtain ⟨w₁, value⟩ := result
    simp only [Option.bind_eq_bind, Option.bind_some]
    cases hvalues : evalAll M env arguments w₁ with
    | none => rfl
    | some result =>
      obtain ⟨w₂, values⟩ := result
      -- the receiver lies under as many values as there are arguments
      have hlength : values.reverse.length = arguments.length := by
        rw [List.length_reverse]
        exact length_of_evalAll hvalues
      have hstack : (value :: values).reverse ++ stack = values.reverse ++ value :: stack := by
        simp only [List.reverse_cons, List.append_assoc, List.singleton_append]
      have hreceiver : (values.reverse ++ value :: stack)[arguments.length]? = some value := by
        rw [← hlength, List.getElem?_append_right (Nat.le_refl _), Nat.sub_self]
        rfl
      have htake : (values.reverse ++ value :: stack).take arguments.length = values.reverse := by
        rw [← hlength]
        exact List.take_left
      have hdrop : (values.reverse ++ value :: stack).drop (arguments.length + 1) = stack := by
        rw [← hlength, ← List.drop_drop, List.drop_left]
        rfl
      show execAll M literals [.sendMessage index arguments.length]
        (w₂, (value :: values).reverse ++ stack) = _
      rw [hstack, execAll_singleton]
      simp only [Instruction.exec, hselector, hreceiver, htake, hdrop, List.reverse_reverse,
        Option.bind_eq_bind, Option.bind_some]
      cases M.send w₂ value (M.literal w₂ (selectorToken selector)) values with
      | none => rfl
      | some result => rfl

end Meaning

end LivingObjects.Compiler
