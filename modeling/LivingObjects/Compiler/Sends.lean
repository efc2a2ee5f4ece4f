/-
  LivingObjects.Compiler.Sends — the messages that code sends.

  The code of an expression pushes values and sends messages, and may stop in between:
  what it has sent by then is part of what it does.  A cascade sends its messages to one
  object; the code in which they stand one after the other sends each to the answer of the
  one before.  The two do the same exactly as long as every answer is the receiver.
-/
import LivingObjects.Compiler.Grammar
import LivingObjects.Lib.Logged

namespace LivingObjects.Compiler

open LivingObjects.Lib

/-! ## §1. Code that pushes and sends. -/

/-- A message that is sent. -/
structure Send (Value : Type) where
  receiver : Value
  selector : BToken
  arguments : List Value
deriving DecidableEq

/-- What instructions do that push a value, and what messages do.  Either changes the world
and may not return. -/
structure Runtime (World Value : Type) where
  /-- The instruction, and the literal it names. -/
  push : World → Instruction → Option BToken → Option (World × Value)
  send : World → Send Value → Option (World × Value)

/-- The instructions that push a value without a message. -/
def Instruction.isPush : Instruction → Bool
  | .pushLiteral _ | .pushInstVar _ | .pushTemp _ | .pushSelf | .pushThisContext | .pushArg _
  | .pushGlobal _ | .pushClosure _ => true
  | _ => false

def Instruction.literal (literals : List BToken) : Instruction → Option BToken
  | .pushLiteral index | .pushGlobal index | .pushClosure index => literals[index]?
  | _ => none

section Code

variable {World Value : Type} (R : Runtime World Value) (literals : List BToken)

/-- A message is logged before it is answered. -/
def Runtime.sendTo (w : World) (message : Send Value) : Logged (Send Value) (World × Value) := do
  Logged.write message
  Logged.lift (R.send w message)

/-- An instruction of the code of an expression. -/
def Instruction.perform :
    Instruction → World × List Value → Logged (Send Value) (World × List Value)
  | .sendMessage selector argc, (w, stack) => do
    let token ← Logged.lift literals[selector]?
    let receiver ← Logged.lift stack[argc]?
    let (w, value) ← R.sendTo w ⟨receiver, token, (stack.take argc).reverse⟩
    return (w, value :: stack.drop (argc + 1))
  | i, (w, stack) =>
    if i.isPush then do
      let (w, value) ← Logged.lift (R.push w i (i.literal literals))
      return (w, value :: stack)
    else Logged.stop

def performAll : List Instruction → World × List Value →
    Logged (Send Value) (World × List Value)
  | [], state => pure state
  | i :: code, state => do
    let state ← i.perform R literals state
    performAll code state

/-- The value that code leaves on an empty stack. -/
def valueOf (code : List Instruction) (w : World) : Logged (Send Value) (World × Value) := do
  let (w, stack) ← performAll R literals code (w, [])
  match stack with
  | [value] => return (w, value)
  | _ => Logged.stop

/-- A value on top of the stack. -/
def pushOn (stack : List Value) (result : World × Value) :
    Logged (Send Value) (World × List Value) := return (result.1, result.2 :: stack)

/-- Values of several pieces of code, from left to right. -/
def valuesOf : List (List Instruction) → World → Logged (Send Value) (World × List Value)
  | [], w => return (w, [])
  | code :: codes, w => do
    let (w, value) ← valueOf R literals code w
    let (w, values) ← valuesOf codes w
    return (w, value :: values)

end Code

/-- **The code of a value**: whatever lies on the stack, one value more comes onto it.  The
table of literals may grow. -/
def IsValue (literals : List BToken) (code : List Instruction) : Prop :=
  ∀ table, literals <+: table → ∀ {World Value : Type} (R : Runtime World Value) w stack,
    performAll R table code (w, stack) = valueOf R table code w >>= pushOn stack

/-! ## §2. Messages and cascades. -/

/-- A message: its selector as it is written, the selector that is sent, and the code of its
arguments. -/
structure Message where
  selector : List Char
  sent : List Char
  arguments : List (List Instruction)

/-- The code of a message, which takes its receiver from the stack. -/
def Message.HasCode (literals : List BToken) (m : Message) (code : List Instruction) : Prop :=
  (∀ argument ∈ m.arguments, IsValue literals argument) ∧
    ∃ index, literals[index]? = some (selectorToken m.sent) ∧
      code = m.arguments.flatten ++ [.sendMessage index m.arguments.length]

/-- A receiver, by its code, and the messages to it. -/
structure Cascade where
  receiver : List Instruction
  messages : List Message

/-- Code of messages, one after the other. -/
def MessagesHaveCode (literals : List BToken) : List Message → List Instruction → Prop
  | [], code => code = []
  | m :: ms, code => ∃ first more, m.HasCode literals first ∧ MessagesHaveCode literals ms more ∧
      code = first ++ more

/-- The code of the receiver, and then of the messages. -/
def Cascade.HasCode (literals : List BToken) (c : Cascade) (code : List Instruction) : Prop :=
  IsValue literals c.receiver ∧ ∃ messages, MessagesHaveCode literals c.messages messages ∧
    code = c.receiver ++ messages

section Meaning

variable {World Value : Type} (R : Runtime World Value) (literals : List BToken)

/-- The arguments are evaluated before the message is sent. -/
def Message.send (m : Message) (selector : List Char) (receiver : Value) (w : World) :
    Logged (Send Value) (World × Value) := do
  let (w, arguments) ← valuesOf R literals m.arguments w
  R.sendTo w ⟨receiver, selectorToken selector, arguments⟩

/-- **What a cascade is to do**: every message goes to the receiver, and the answer to the last
one is the value. -/
def sendEach (receiver : Value) : Value → List Message → World →
    Logged (Send Value) (World × Value)
  | value, [], w => return (w, value)
  | _, m :: ms, w => do
    let (w, value) ← m.send R literals m.selector receiver w
    sendEach receiver value ms w

/-- Every message goes to the answer of the one before. -/
def sendInTurn : Value → List Message → World → Logged (Send Value) (World × Value)
  | value, [], w => return (w, value)
  | value, m :: ms, w => do
    let (w, value) ← m.send R literals m.sent value w
    sendInTurn value ms w

/-- The receiver is evaluated once. -/
def Cascade.meaning (c : Cascade) (w : World) : Logged (Send Value) (World × Value) := do
  let (w, receiver) ← valueOf R literals c.receiver w
  sendEach R literals receiver receiver c.messages w

/-- Each message that is sent goes under its own selector, and the message before it has
answered the receiver. -/
def AnswersReceiver (receiver : Value) : Value → List Message → World → Prop
  | _, [], _ => True
  | value, m :: ms, w => ∀ w₁ arguments,
      (valuesOf R literals m.arguments w).result = some (w₁, arguments) →
      value = receiver ∧ m.sent = m.selector ∧
        ∀ w₂ answer,
          R.send w₁ ⟨receiver, selectorToken m.selector, arguments⟩ = some (w₂, answer) →
          AnswersReceiver receiver answer ms w₂

/-- **Every message but the last one that is sent answers the receiver**, and no selector is cut
off. -/
def Cascade.KeepsReceiver (c : Cascade) (w : World) : Prop :=
  ∀ w₁ receiver, (valueOf R literals c.receiver w).result = some (w₁, receiver) →
    AnswersReceiver R literals receiver receiver c.messages w₁

/-- **The code does what the cascade is to do**: the same messages to the same objects, and the
same value on the stack. -/
def Cascade.DoneBy (c : Cascade) (code : List Instruction) (w : World) : Prop :=
  ∀ stack, performAll R literals code (w, stack) = c.meaning R literals w >>= pushOn stack

end Meaning

/-! ## §3. What the code does. -/

section Running

variable {World Value : Type} {R : Runtime World Value} {literals : List BToken}

theorem performAll_append (code more : List Instruction) (state : World × List Value) :
    performAll R literals (code ++ more) state =
      performAll R literals code state >>= performAll R literals more := by
  induction code generalizing state with
  | nil => rfl
  | cons i code ih =>
    show (i.perform R literals state >>= performAll R literals (code ++ more)) =
      (i.perform R literals state >>= performAll R literals code) >>= performAll R literals more
    rw [Logged.then_assoc, funext ih]

theorem performAll_singleton (i : Instruction) (state : World × List Value) :
    performAll R literals [i] state = i.perform R literals state :=
  Logged.then_pure _

theorem getElem?_of_prefix {table : List BToken} {index : Nat} {token : BToken}
    (htable : literals <+: table) (h : literals[index]? = some token) :
    table[index]? = some token := by
  obtain ⟨more, rfl⟩ := htable
  obtain ⟨hlt, -⟩ := List.getElem?_eq_some_iff.mp h
  rw [List.getElem?_append_left hlt]
  exact h

/-- Code that does the same on any stack has that value. -/
theorem valueOf_of_uniform {code : List Instruction}
    {f : World → Logged (Send Value) (World × Value)}
    (h : ∀ w stack, performAll R literals code (w, stack) = f w >>= pushOn stack) (w : World) :
    valueOf R literals code w = f w := by
  show (performAll R literals code (w, []) >>= fun state => match state.2 with
    | [value] => pure (state.1, value)
    | _ => Logged.stop) = f w
  rw [h, Logged.then_assoc]
  exact Logged.then_pure (f w)

theorem IsValue.of_uniform {literals : List BToken} {code : List Instruction}
    (h : ∀ table, literals <+: table → ∀ {World Value : Type} (R : Runtime World Value),
      ∃ f : World → Logged (Send Value) (World × Value),
        ∀ w stack, performAll R table code (w, stack) = f w >>= pushOn stack) :
    IsValue literals code := by
  intro table htable World Value R w stack
  obtain ⟨f, hf⟩ := h table htable R
  rw [hf w stack, valueOf_of_uniform hf w]

theorem IsValue.mono {literals table : List BToken} {code : List Instruction}
    (h : IsValue literals code) (htable : literals <+: table) : IsValue table code :=
  fun _ hmore => h _ (htable.trans hmore)

/-- An instruction that pushes. -/
theorem isValue_push {i : Instruction} (h : i.isPush = true) (literals : List BToken) :
    IsValue literals [i] := by
  refine .of_uniform fun table _ World Value R => ?_
  refine ⟨fun w => Logged.lift (R.push w i (i.literal table)), fun w stack => ?_⟩
  rw [performAll_singleton]
  cases i
  case pushLiteral | pushInstVar | pushTemp | pushSelf | pushThisContext | pushArg | pushGlobal
      | pushClosure => rfl
  all_goals cases h

/-- Every piece of code has a value. -/
theorem length_of_valuesOf {codes : List (List Instruction)} {w w' : World} {values : List Value}
    (h : (valuesOf R literals codes w).result = some (w', values)) :
    values.length = codes.length := by
  induction codes generalizing w w' values with
  | nil =>
    obtain ⟨-, rfl⟩ := Prod.mk.inj (Option.some.inj h)
    rfl
  | cons code codes ih =>
    change (valueOf R literals code w >>= fun first =>
      valuesOf R literals codes first.1 >>= fun rest =>
        pure (rest.1, first.2 :: rest.2)).result = _ at h
    cases hfirst : (valueOf R literals code w).result with
    | none =>
      rw [Logged.bind_none hfirst] at h
      cases h
    | some first =>
      rw [Logged.bind_some hfirst] at h
      cases hrest : (valuesOf R literals codes first.1).result with
      | none =>
        rw [Logged.bind_none hrest] at h
        cases h
      | some rest =>
        rw [Logged.bind_some hrest] at h
        obtain ⟨-, rfl⟩ := Prod.mk.inj (Option.some.inj h)
        rw [List.length_cons, List.length_cons, ih hrest]

/-- **Pieces of code in sequence** leave their values, the last one on top. -/
theorem performAll_flatten {codes : List (List Instruction)} {table : List BToken}
    (hcodes : ∀ code ∈ codes, IsValue literals code) (htable : literals <+: table) (w : World)
    (stack : List Value) : performAll R table codes.flatten (w, stack) =
      valuesOf R table codes w >>= fun result => pure (result.1, result.2.reverse ++ stack) := by
  induction codes generalizing w stack with
  | nil => rfl
  | cons code codes ih =>
    have hfirst := hcodes code List.mem_cons_self
    have hrest := ih fun c hc => hcodes c (List.mem_cons_of_mem _ hc)
    rw [List.flatten_cons, performAll_append, hfirst table htable]
    show _ = (valueOf R table code w >>= fun first => valuesOf R table codes first.1 >>=
      fun rest => pure (rest.1, first.2 :: rest.2)) >>= _
    rw [Logged.then_assoc, Logged.then_assoc]
    congr 1
    funext first
    show performAll R table codes.flatten (first.1, first.2 :: stack) = _
    rw [hrest, Logged.then_assoc]
    congr 1
    funext rest
    show pure (rest.1, rest.2.reverse ++ first.2 :: stack) =
      (pure (rest.1, (first.2 :: rest.2).reverse ++ stack) : Logged (Send Value) _)
    rw [List.reverse_cons, List.append_assoc]
    rfl

/-- **The code of a message** sends it to what lies on the stack. -/
theorem Message.HasCode.performs {m : Message} {code : List Instruction} {table : List BToken}
    (h : m.HasCode literals code) (htable : literals <+: table) (w : World) (value : Value)
    (stack : List Value) : performAll R table code (w, value :: stack) =
      m.send R table m.sent value w >>= pushOn stack := by
  obtain ⟨harguments, index, hselector, rfl⟩ := h
  have htoken : table[index]? = some (selectorToken m.sent) := getElem?_of_prefix htable hselector
  show _ = (valuesOf R table m.arguments w >>= fun result =>
    R.sendTo result.1 ⟨value, selectorToken m.sent, result.2⟩) >>= pushOn stack
  rw [performAll_append, performAll_flatten harguments htable, Logged.then_assoc,
    Logged.then_assoc, Logged.then_eq_then_iff]
  rintro ⟨w₁, arguments⟩ hresult
  -- the receiver lies under the arguments
  have hlength : arguments.reverse.length = m.arguments.length := by
    rw [List.length_reverse]
    exact length_of_valuesOf hresult
  have hreceiver : (arguments.reverse ++ value :: stack)[m.arguments.length]? = some value := by
    rw [← hlength, List.getElem?_append_right (Nat.le_refl _), Nat.sub_self]
    rfl
  have htake : (arguments.reverse ++ value :: stack).take m.arguments.length =
      arguments.reverse := by
    rw [← hlength]
    exact List.take_left
  have hdrop : (arguments.reverse ++ value :: stack).drop (m.arguments.length + 1) = stack := by
    rw [← hlength, ← List.drop_drop, List.drop_left]
    rfl
  show performAll R table [.sendMessage index m.arguments.length]
    (w₁, arguments.reverse ++ value :: stack) = _
  rw [performAll_singleton]
  simp only [Instruction.perform, htoken, hreceiver, htake, hdrop, List.reverse_reverse]
  rfl

theorem MessagesHaveCode.performs {table : List BToken} (htable : literals <+: table)
    {ms : List Message} {code : List Instruction} (h : MessagesHaveCode literals ms code)
    (w : World) (value : Value) (stack : List Value) :
    performAll R table code (w, value :: stack) =
      sendInTurn R table value ms w >>= pushOn stack := by
  induction ms generalizing code w value with
  | nil =>
    obtain rfl : code = [] := h
    rfl
  | cons m ms ih =>
    obtain ⟨first, more, hfirst, hmore, rfl⟩ := h
    rw [performAll_append, hfirst.performs htable]
    show _ = (m.send R table m.sent value w >>= fun result =>
      sendInTurn R table result.2 ms result.1) >>= pushOn stack
    rw [Logged.then_assoc, Logged.then_assoc]
    congr 1
    funext result
    exact ih hmore result.1 result.2

/-- The receiver, and then each message to the answer of the one before. -/
theorem Cascade.HasCode.performs {c : Cascade} {code : List Instruction} {table : List BToken}
    (h : c.HasCode literals code) (htable : literals <+: table) (w : World)
    (stack : List Value) : performAll R table code (w, stack) =
      (valueOf R table c.receiver w >>= fun result =>
        sendInTurn R table result.2 c.messages result.1) >>= pushOn stack := by
  obtain ⟨hreceiver, messages, hmessages, rfl⟩ := h
  rw [performAll_append, hreceiver table htable, Logged.then_assoc, Logged.then_assoc]
  congr 1
  funext result
  exact hmessages.performs htable result.1 result.2 stack

/-- A cascade leaves one value. -/
theorem Cascade.HasCode.isValue {c : Cascade} {code : List Instruction}
    (h : c.HasCode literals code) : IsValue literals code :=
  .of_uniform fun _ htable _ _ _ => ⟨_, fun w stack => h.performs htable w stack⟩

/-! ## §4. To the receiver, or to the answer. -/

/-- **The same as long as every answer is the receiver.** -/
theorem sendInTurn_eq_sendEach_iff (receiver value : Value) (ms : List Message) (w : World) :
    sendInTurn R literals value ms w = sendEach R literals receiver value ms w ↔
      AnswersReceiver R literals receiver value ms w := by
  induction ms generalizing value w with
  | nil => exact iff_of_true rfl trivial
  | cons m ms ih =>
    have hturn : sendInTurn R literals value (m :: ms) w =
        valuesOf R literals m.arguments w >>= fun result =>
          Logged.write ⟨value, selectorToken m.sent, result.2⟩ >>= fun _ =>
            Logged.lift (R.send result.1 ⟨value, selectorToken m.sent, result.2⟩) >>=
              fun answer => sendInTurn R literals answer.2 ms answer.1 := by
      show (m.send R literals m.sent value w >>= fun result =>
        sendInTurn R literals result.2 ms result.1) = _
      unfold Message.send Runtime.sendTo
      simp only [Logged.then_assoc]
    have heach : sendEach R literals receiver value (m :: ms) w =
        valuesOf R literals m.arguments w >>= fun result =>
          Logged.write ⟨receiver, selectorToken m.selector, result.2⟩ >>= fun _ =>
            Logged.lift (R.send result.1 ⟨receiver, selectorToken m.selector, result.2⟩) >>=
              fun answer => sendEach R literals receiver answer.2 ms answer.1 := by
      show (m.send R literals m.selector receiver w >>= fun result =>
        sendEach R literals receiver result.2 ms result.1) = _
      unfold Message.send Runtime.sendTo
      simp only [Logged.then_assoc]
    rw [hturn, heach, Logged.then_eq_then_iff]
    constructor
    · intro h w₁ arguments hresult
      obtain ⟨hsend, hrest⟩ := (Logged.write_then_eq_iff _ _ _ _).mp (h _ hresult)
      obtain ⟨rfl, htoken, -⟩ := Send.mk.inj hsend
      have hselector : m.sent = m.selector := congrArg BToken.text htoken
      refine ⟨rfl, hselector, fun w₂ answer hanswer => ?_⟩
      rw [hselector, Logged.lift_then_eq_iff] at hrest
      exact (ih answer w₂).mp (hrest _ hanswer)
    · rintro h ⟨w₁, arguments⟩ hresult
      obtain ⟨rfl, hselector, hrest⟩ := h w₁ arguments hresult
      rw [hselector, Logged.write_then_eq_iff]
      refine ⟨rfl, (Logged.lift_then_eq_iff _ _ _).mpr ?_⟩
      rintro ⟨w₂, answer⟩ hanswer
      exact (ih answer w₂).mpr (hrest w₂ answer hanswer)

/-- **When the code of a cascade does what the cascade is to do.** -/
theorem Cascade.HasCode.doneBy_iff {c : Cascade} {code : List Instruction} {table : List BToken}
    (h : c.HasCode literals code) (htable : literals <+: table) (w : World) :
    c.DoneBy R table code w ↔ c.KeepsReceiver R table w := by
  have hcancel : ∀ (stack : List Value) (m n : Logged (Send Value) (World × Value)),
      m >>= pushOn stack = n >>= pushOn stack ↔ m = n := by
    intro stack
    refine Logged.then_pure_eq_iff (f := fun result : World × Value =>
      (result.1, result.2 :: stack)) fun x y heq => ?_
    obtain ⟨hw, hvalue⟩ := Prod.mk.inj heq
    exact Prod.ext hw (List.cons.inj hvalue).1
  have hsame : c.DoneBy R table code w ↔
      (valueOf R table c.receiver w >>= fun result =>
        sendInTurn R table result.2 c.messages result.1) = c.meaning R table w := by
    constructor
    · intro hdone
      have hrun := hdone []
      rw [h.performs htable, hcancel] at hrun
      exact hrun
    · intro heq stack
      rw [h.performs htable, heq]
  rw [hsame]
  show _ = (valueOf R table c.receiver w >>= fun result =>
    sendEach R table result.2 result.2 c.messages result.1) ↔ _
  rw [Logged.then_eq_then_iff]
  constructor
  · intro heq w₁ receiver hresult
    exact (sendInTurn_eq_sendEach_iff receiver receiver c.messages w₁).mp (heq _ hresult)
  · rintro hkeeps ⟨w₁, receiver⟩ hresult
    exact (sendInTurn_eq_sendEach_iff receiver receiver c.messages w₁).mpr
      (hkeeps w₁ receiver hresult)

end Running

end LivingObjects.Compiler
