/-
  LivingObjects.Compiler.Steps — what code generation can do to its state.

  `Steps` lists the writes of the `cg_` functions with what each is sure of: which literal
  an operand names, that an instance variable has been looked up in the class, that a block
  is in the table before a literal names it.  Every function goes from state to state by
  such steps, whether it gets through or not (`stepsBy`); what holds of all code is then
  shown by one induction on them.

  Main results:
    * `stepsBy` — every function goes by steps;
    * `Steps.prefix_blocks`, `Steps.prefix_literals`, `Steps.kept_code` — what has been
      written stays;
    * `bcCodegenMethod_bodyIn` — every operand names what its instruction is for.
-/
import LivingObjects.Compiler.Growth

namespace LivingObjects.Compiler

open LivingObjects.Lib
open LivingObjects.Lib.Attempt

/-! ## §1. Operands. -/

/-- Instructions without an operand, and jumps. -/
def Instruction.IsPlain : Instruction → Prop
  | .pushSelf | .pushThisContext | .ret | .returnNonLocal | .pop | .jump _ | .jumpIfFalse _ => True
  | _ => False

/-- Instructions for the arguments and temporaries of frames. -/
def Instruction.IsFrame : Instruction → Prop
  | .pushTemp _ | .storeTemp _ | .pushArg _ => True
  | _ => False

/-- The instance variable an instruction is for. -/
def Instruction.instVar : Instruction → Option Nat
  | .pushInstVar index | .storeInstVar index => some index
  | _ => none

/-- The literal an instruction is for. -/
def Instruction.literalIndex : Instruction → Option Nat
  | .pushLiteral index | .sendMessage index _ | .pushGlobal index | .pushClosure index => some index
  | _ => none

/-- The literals that stand for themselves; an identifier among them is `nil`, `true` or
`false`. -/
def BToken.IsConstant (token : BToken) : Prop :=
  token.type = .integer ∨ token.type = .character ∨ token.type = .string ∨ token.type = .symbol ∨
    token.type = .literalArray ∨ (token.type = .identifier ∧
      (token.text = "nil".toList ∨ token.text = "true".toList ∨ token.text = "false".toList))

/-- The literal is of the kind that the instruction wants. -/
def Instruction.Wants (token : BToken) : Instruction → Prop
  | .pushLiteral _ => token.IsConstant
  | .sendMessage _ _ => token.type = .selector
  | .pushGlobal _ => token.type = .classRef
  | .pushClosure _ => ∃ n, token = blockToken n
  | _ => False

/-- What a compiled block has of the state its body ends in. -/
structure CompiledBlock.EndsIn (block : CompiledBlock) (s : CgState) : Prop where
  bytecodes : block.bytecodes = s.code
  literals : block.literals = s.literals
  scopes : block.scopes ≠ []

/-- A place of the table with a block that has been compiled. -/
def CompiledAt (blocks : List CompiledBlock) (n : Nat) : Prop :=
  ∃ block, blocks[n]? = some block ∧ block.scopes ≠ []

/-! ## §2. Steps. -/

/-- Code generation for a class goes from state to state. -/
inductive Steps (targetClass : TargetClass) : CgState → CgState → Prop where
  | refl (s : CgState) : Steps targetClass s s
  | parser {s t : CgState} (parser : BParser) :
    Steps targetClass s t → Steps targetClass s { t with parser := parser }
  | sawReturn {s t : CgState} :
    Steps targetClass s t → Steps targetClass s { t with sawReturn := true }
  | instVarNames {s t : CgState} (names : List Name) :
    Steps targetClass s t → Steps targetClass s { t with instVarNames := names }
  | plain {s t : CgState} {i : Instruction} (hi : i.IsPlain) :
    Steps targetClass s t → Steps targetClass s { t with code := t.code ++ [i] }
  | frame {s t : CgState} {i : Instruction} (use : Use) (hi : i.IsFrame) :
    Steps targetClass s t →
      Steps targetClass s { t with code := t.code ++ [i], uses := t.uses ++ [use] }
  /-- The class has an instance variable of that index. -/
  | instVar {s t : CgState} {i : Instruction} {index : Nat} (hi : i.instVar = some index)
    (hclass : ∀ f, targetClass = some f → ∃ name, f name = some index) :
    Steps targetClass s t → Steps targetClass s { t with code := t.code ++ [i] }
  /-- A jump gets its target. -/
  | jumpTarget {s t : CgState} {place old : Nat} (new : Nat)
    (hjump : t.code[place]? = some (.jumpIfFalse old)) :
    Steps targetClass s t →
      Steps targetClass s { t with code := t.code.set place (.jumpIfFalse new) }
  | literal {s t : CgState} {token : BToken}
    (htoken : token.IsConstant ∨ token.type = .selector ∨ token.type = .classRef) :
    Steps targetClass s t → Steps targetClass s { t with literals := t.literals ++ [token] }
  | named {s t : CgState} {i : Instruction} {index : Nat} {token : BToken}
    (hi : i.literalIndex = some index) (htoken : t.literals[index]? = some token)
    (hwants : i.Wants token) :
    Steps targetClass s t → Steps targetClass s { t with code := t.code ++ [i] }
  | reserve {s t : CgState} :
    Steps targetClass s t → Steps targetClass s { t with blocks := t.blocks ++ [.empty] }
  /-- A body that is given up. -/
  | tried {s t u : CgState} {source : List Char} :
    Steps targetClass s t → Steps targetClass (.init source t.blocks) u →
      Steps targetClass s { t with blocks := u.blocks }
  /-- A body that goes to the place that was reserved for it. -/
  | stored {s t u : CgState} {reserved : List CompiledBlock} {block : CompiledBlock}
    {source : List Char} (hroom : t.blocks.length < reserved.length) (hends : block.EndsIn u) :
    Steps targetClass s t → Steps targetClass t { t with blocks := reserved } →
      Steps targetClass (.init source reserved) u →
      Steps targetClass s { t with blocks := u.blocks.set t.blocks.length block }
  | blockLiteral {s t : CgState} {n : Nat} (hnew : s.blocks.length ≤ n)
    (hcompiled : CompiledAt t.blocks n) :
    Steps targetClass s t → Steps targetClass s { t with literals := t.literals ++ [blockToken n] }

section Steps

variable {targetClass : TargetClass} {s t u : CgState}

/-- **Blocks stay where they are.** -/
theorem Steps.prefix_blocks (h : Steps targetClass s t) :
    s.blocks.length ≤ t.blocks.length ∧
      ∀ n, n < s.blocks.length → t.blocks[n]? = s.blocks[n]? := by
  induction h with
  | refl s => exact ⟨Nat.le_refl _, fun _ _ => rfl⟩
  | reserve _ ih =>
    obtain ⟨hlen, hkept⟩ := ih
    refine ⟨?_, fun n hn => ?_⟩
    · rw [List.length_append]
      omega
    · rw [List.getElem?_append_left (Nat.lt_of_lt_of_le hn hlen)]
      exact hkept n hn
  | tried _ _ ih ihu =>
    obtain ⟨hlen, hkept⟩ := ih
    obtain ⟨hlenu, hkeptu⟩ := ihu
    refine ⟨Nat.le_trans hlen hlenu, fun n hn => ?_⟩
    exact (hkeptu n (Nat.lt_of_lt_of_le hn hlen)).trans (hkept n hn)
  | stored hroom _ _ _ _ ih ihr ihu =>
    obtain ⟨hlen, hkept⟩ := ih
    obtain ⟨hlenr, hkeptr⟩ := ihr
    obtain ⟨hlenu, hkeptu⟩ := ihu
    simp only [CgState.init] at hlenu hkeptu hlenr hkeptr
    refine ⟨?_, fun n hn => ?_⟩
    · rw [List.length_set]
      omega
    · rw [List.getElem?_set_ne (by omega), hkeptu n (by omega), hkeptr n (by omega)]
      exact hkept n hn
  | _ => assumption

theorem Steps.trans (h : Steps targetClass s t) (h' : Steps targetClass t u) :
    Steps targetClass s u := by
  have hlen := h.prefix_blocks.1
  induction h' with
  | refl _ => exact h
  | parser parser _ ih => exact .parser parser (ih h hlen)
  | sawReturn _ ih => exact .sawReturn (ih h hlen)
  | instVarNames names _ ih => exact .instVarNames names (ih h hlen)
  | plain hi _ ih => exact .plain hi (ih h hlen)
  | frame use hi _ ih => exact .frame use hi (ih h hlen)
  | instVar hi hclass _ ih => exact .instVar hi hclass (ih h hlen)
  | jumpTarget new hjump _ ih => exact .jumpTarget new hjump (ih h hlen)
  | literal htoken _ ih => exact .literal htoken (ih h hlen)
  | named hi htoken hwants _ ih => exact .named hi htoken hwants (ih h hlen)
  | blockLiteral hnew hcompiled _ ih =>
    exact .blockLiteral (Nat.le_trans hlen hnew) hcompiled (ih h hlen)
  | reserve _ ih => exact .reserve (ih h hlen)
  | tried _ hu ih => exact .tried (ih h hlen) hu
  | stored hroom hends _ hr hu ih => exact .stored hroom hends (ih h hlen) hr hu

/-- Literals stay where they are. -/
theorem Steps.prefix_literals (h : Steps targetClass s t) {n : Nat} {token : BToken}
    (hn : s.literals[n]? = some token) : t.literals[n]? = some token := by
  have happend : ∀ {literals : List BToken} (more : BToken), literals[n]? = some token →
      (literals ++ [more])[n]? = some token := by
    intro literals more hsome
    rw [List.getElem?_append_left (List.getElem?_eq_some_iff.mp hsome).1]
    exact hsome
  induction h with
  | refl s => exact hn
  | literal _ _ ih => exact happend _ (ih hn)
  | blockLiteral _ _ _ ih => exact happend _ (ih hn)
  | tried _ _ ih _ => exact ih hn
  | stored _ _ _ _ _ ih _ _ => exact ih hn
  | _ =>
    rename_i ih
    exact ih hn

/-- The instruction that is there, but for the target of a jump. -/
def SameButTarget (i j : Instruction) : Prop :=
  i = j ∨ ∃ old new, i = .jumpIfFalse old ∧ j = .jumpIfFalse new

/-- Code stays where it is, but for the targets of jumps. -/
theorem Steps.kept_code (h : Steps targetClass s t) {place : Nat} {i : Instruction}
    (hi : s.code[place]? = some i) : ∃ j, t.code[place]? = some j ∧ SameButTarget i j := by
  have happend : ∀ {code : List Instruction} (more : Instruction),
      (∃ j, code[place]? = some j ∧ SameButTarget i j) →
      ∃ j, (code ++ [more])[place]? = some j ∧ SameButTarget i j := by
    rintro code more ⟨j, hj, hsame⟩
    refine ⟨j, ?_, hsame⟩
    rw [List.getElem?_append_left (List.getElem?_eq_some_iff.mp hj).1]
    exact hj
  induction h with
  | refl s => exact ⟨i, hi, .inl rfl⟩
  | plain _ _ ih => exact happend _ (ih hi)
  | frame _ _ _ ih => exact happend _ (ih hi)
  | instVar _ _ _ ih => exact happend _ (ih hi)
  | named _ _ _ _ ih => exact happend _ (ih hi)
  | @jumpTarget s t target old new hjump _ ih =>
    obtain ⟨j, hj, hsame⟩ := ih hi
    rcases eq_or_ne target place with rfl | hne
    · -- what is overwritten is a jump
      rw [hjump] at hj
      obtain rfl := Option.some.inj hj
      refine ⟨.jumpIfFalse new, ?_, ?_⟩
      · rw [List.getElem?_set_self (List.getElem?_eq_some_iff.mp hjump).1]
      · rcases hsame with rfl | ⟨first, second, rfl, -⟩
        · exact .inr ⟨_, _, rfl, rfl⟩
        · exact .inr ⟨_, _, rfl, rfl⟩
    · refine ⟨j, ?_, hsame⟩
      rw [List.getElem?_set_ne hne]
      exact hj
  | tried _ _ ih _ => exact ih hi
  | stored _ _ _ _ _ ih _ _ => exact ih hi
  | _ =>
    rename_i ih
    exact ih hi

end Steps

/-! ## §3. What is written. -/

/-- Every instruction is for something that is there. -/
structure OperandsIn (targetClass : TargetClass) (code : List Instruction)
    (literals : List BToken) : Prop where
  literal : ∀ i ∈ code, ∀ index, i.literalIndex = some index →
    ∃ token, literals[index]? = some token ∧ i.Wants token
  instVar : ∀ i ∈ code, ∀ index, i.instVar = some index →
    ∀ f, targetClass = some f → ∃ name, f name = some index

/-- The literals of a body, with the blocks from a place on. -/
def LiteralsIn (blocks : List CompiledBlock) (first : Nat) (literals : List BToken) : Prop :=
  ∀ token ∈ literals, (token.IsConstant ∨ token.type = .selector ∨ token.type = .classRef) ∨
    ∃ n, first ≤ n ∧ token = blockToken n ∧ CompiledAt blocks n

/-- Code with its literals, in a place of the table. -/
structure BodyIn (targetClass : TargetClass) (blocks : List CompiledBlock) (first : Nat)
    (code : List Instruction) (literals : List BToken) : Prop where
  operands : OperandsIn targetClass code literals
  literals : LiteralsIn blocks first literals

/-- The blocks of a table from a place on: the literals of a block are behind it. -/
def TableFrom (targetClass : TargetClass) (first : Nat) (blocks : List CompiledBlock) : Prop :=
  ∀ n block, first ≤ n → blocks[n]? = some block →
    BodyIn targetClass blocks (n + 1) block.bytecodes block.literals

section Written

variable {targetClass : TargetClass} {code : List Instruction} {literals : List BToken}

theorem OperandsIn.nil : OperandsIn targetClass [] literals where
  literal _ hi := absurd hi List.not_mem_nil
  instVar _ hi := absurd hi List.not_mem_nil

/-- One more instruction. -/
theorem OperandsIn.emit (h : OperandsIn targetClass code literals) {i : Instruction}
    (hliteral : ∀ index, i.literalIndex = some index →
      ∃ token, literals[index]? = some token ∧ i.Wants token)
    (hinstVar : ∀ index, i.instVar = some index →
      ∀ f, targetClass = some f → ∃ name, f name = some index) :
    OperandsIn targetClass (code ++ [i]) literals where
  literal j hj := by
    rcases List.mem_append.mp hj with hold | hnew
    · exact h.literal j hold
    · rw [List.mem_singleton.mp hnew]
      exact hliteral
  instVar j hj := by
    rcases List.mem_append.mp hj with hold | hnew
    · exact h.instVar j hold
    · rw [List.mem_singleton.mp hnew]
      exact hinstVar

/-- An instruction for nothing of that kind. -/
theorem OperandsIn.emit_plain (h : OperandsIn targetClass code literals) {i : Instruction}
    (hliteral : i.literalIndex = none) (hinstVar : i.instVar = none) :
    OperandsIn targetClass (code ++ [i]) literals := by
  refine h.emit (fun index hindex => ?_) (fun index hindex => ?_)
  · rw [hliteral] at hindex
    cases hindex
  · rw [hinstVar] at hindex
    cases hindex

/-- One more literal. -/
theorem OperandsIn.addLiteral (h : OperandsIn targetClass code literals) (token : BToken) :
    OperandsIn targetClass code (literals ++ [token]) where
  literal i hi index hindex := by
    obtain ⟨found, hfound, hwants⟩ := h.literal i hi index hindex
    refine ⟨found, ?_, hwants⟩
    rw [List.getElem?_append_left (List.getElem?_eq_some_iff.mp hfound).1]
    exact hfound
  instVar := h.instVar

theorem OperandsIn.setJump (h : OperandsIn targetClass code literals) (place target : Nat) :
    OperandsIn targetClass (code.set place (.jumpIfFalse target)) literals where
  literal i hi index hindex := by
    rcases List.mem_or_eq_of_mem_set hi with hold | rfl
    · exact h.literal i hold index hindex
    · cases hindex
  instVar i hi index hindex := by
    rcases List.mem_or_eq_of_mem_set hi with hold | rfl
    · exact h.instVar i hold index hindex
    · cases hindex

/-- Literals in a table are literals in one that has grown. -/
theorem LiteralsIn.grow {blocks blocks' : List CompiledBlock} {first : Nat}
    (h : LiteralsIn blocks first literals)
    (hgrow : ∀ n, CompiledAt blocks n → CompiledAt blocks' n) :
    LiteralsIn blocks' first literals := by
  intro token htoken
  rcases h token htoken with hconstant | ⟨n, hn, rfl, hcompiled⟩
  · exact .inl hconstant
  · exact .inr ⟨n, hn, rfl, hgrow n hcompiled⟩

theorem LiteralsIn.append {blocks : List CompiledBlock} {first : Nat}
    (h : LiteralsIn blocks first literals) {token : BToken}
    (htoken : (token.IsConstant ∨ token.type = .selector ∨ token.type = .classRef) ∨
      ∃ n, first ≤ n ∧ token = blockToken n ∧ CompiledAt blocks n) :
    LiteralsIn blocks first (literals ++ [token]) := by
  intro other hother
  rcases List.mem_append.mp hother with hold | hnew
  · exact h other hold
  · rw [List.mem_singleton.mp hnew]
    exact htoken

end Written

section Invariant

variable {targetClass : TargetClass} {s t : CgState}

/-- A block that has been compiled is one from there on. -/
theorem Steps.compiledAt (h : Steps targetClass s t) {n : Nat} (hn : CompiledAt s.blocks n) :
    CompiledAt t.blocks n := by
  obtain ⟨block, hblock, hscopes⟩ := hn
  have hlt : n < s.blocks.length := (List.getElem?_eq_some_iff.mp hblock).1
  exact ⟨block, (h.prefix_blocks.2 n hlt).trans hblock, hscopes⟩

theorem compiledAt_set {blocks : List CompiledBlock} {place : Nat} {block : CompiledBlock}
    (hscopes : block.scopes ≠ []) {n : Nat} (hn : CompiledAt blocks n) :
    CompiledAt (blocks.set place block) n := by
  obtain ⟨old, hold, hcompiled⟩ := hn
  have hlt : n < blocks.length := (List.getElem?_eq_some_iff.mp hold).1
  rcases eq_or_ne place n with rfl | hne
  · exact ⟨block, List.getElem?_set_self hlt, hscopes⟩
  · refine ⟨old, ?_, hcompiled⟩
    rw [List.getElem?_set_ne hne]
    exact hold

/-- **Every operand names what its instruction is for**, whatever the source. -/
theorem Steps.operands (h : Steps targetClass s t)
    (hs : OperandsIn targetClass s.code s.literals) : OperandsIn targetClass t.code t.literals := by
  induction h with
  | refl _ => exact hs
  | @plain _ _ i hi _ ih =>
    exact (ih hs).emit_plain (by cases i <;> trivial) (by cases i <;> trivial)
  | @frame _ _ i _ hi _ ih =>
    exact (ih hs).emit_plain (by cases i <;> trivial) (by cases i <;> trivial)
  | @instVar _ _ i index hi hclass _ ih =>
    refine (ih hs).emit (fun k hk => ?_) (fun k hk => ?_)
    · cases i <;> cases hi <;> cases hk
    · rw [hi] at hk
      obtain rfl := Option.some.inj hk
      exact hclass
  | jumpTarget new _ _ ih => exact (ih hs).setJump _ new
  | literal _ _ ih => exact (ih hs).addLiteral _
  | blockLiteral _ _ _ ih => exact (ih hs).addLiteral _
  | @named _ _ i index token hi htoken hwants _ ih =>
    refine (ih hs).emit (fun k hk => ?_) (fun k hk => ?_)
    · rw [hi] at hk
      obtain rfl := Option.some.inj hk
      exact ⟨token, htoken, hwants⟩
    · cases i <;> cases hi <;> cases hk
  | tried _ _ ih _ => exact ih hs
  | stored _ _ _ _ _ ih _ _ => exact ih hs
  | _ =>
    rename_i ih
    exact ih hs

/-- The literals of a body are constants, selectors, classes, and blocks in the table. -/
theorem Steps.literalsIn (h : Steps targetClass s t) {first : Nat}
    (hfirst : first ≤ s.blocks.length) (hs : LiteralsIn s.blocks first s.literals) :
    LiteralsIn t.blocks first t.literals := by
  induction h with
  | refl _ => exact hs
  | literal htoken _ ih => exact (ih hfirst hs).append (.inl htoken)
  | blockLiteral hnew hcompiled _ ih =>
    exact (ih hfirst hs).append (.inr ⟨_, Nat.le_trans hfirst hnew, rfl, hcompiled⟩)
  | @reserve _ t _ ih =>
    have hstep : Steps targetClass t { t with blocks := t.blocks ++ [.empty] } := .reserve (.refl t)
    exact (ih hfirst hs).grow fun n hn => hstep.compiledAt hn
  | tried _ hu ih _ => exact (ih hfirst hs).grow fun n hn => hu.compiledAt hn
  | stored _ hends _ hr hu ih _ _ =>
    refine (ih hfirst hs).grow fun n hn => compiledAt_set hends.scopes ?_
    exact hu.compiledAt (hr.compiledAt hn)
  | _ =>
    rename_i ih
    exact ih hfirst hs

theorem BodyIn.grow {blocks blocks' : List CompiledBlock} {first : Nat} {code : List Instruction}
    {literals : List BToken} (h : BodyIn targetClass blocks first code literals)
    (hgrow : ∀ n, CompiledAt blocks n → CompiledAt blocks' n) :
    BodyIn targetClass blocks' first code literals :=
  ⟨h.operands, h.literals.grow hgrow⟩

/-- What is added to the table behind what is kept. -/
theorem TableFrom.append {blocks blocks' : List CompiledBlock} {first : Nat}
    (h : TableFrom targetClass first blocks)
    (hkept : ∀ n, n < blocks.length → blocks'[n]? = blocks[n]?)
    (hnew : TableFrom targetClass blocks.length blocks') : TableFrom targetClass first blocks' := by
  intro n block hn hblock
  rcases Nat.lt_or_ge n blocks.length with hlt | hge
  · rw [hkept n hlt] at hblock
    refine (h n block hn hblock).grow ?_
    rintro k ⟨old, hold, hcompiled⟩
    exact ⟨old, (hkept k (List.getElem?_eq_some_iff.mp hold).1).trans hold, hcompiled⟩
  · exact hnew n block hge hblock

/-- **Every block of the table has its literals behind it**, whatever the source. -/
theorem Steps.tableFrom (h : Steps targetClass s t) :
    TableFrom targetClass s.blocks.length t.blocks := by
  induction h with
  | refl s =>
    intro n block hn hblock
    have hlt : n < s.blocks.length := (List.getElem?_eq_some_iff.mp hblock).1
    omega
  | @reserve s t h ih =>
    refine ih.append (fun n hn => List.getElem?_append_left hn) fun n block hn hblock => ?_
    -- the new place is empty
    have hlt := (List.getElem?_eq_some_iff.mp hblock).1
    rw [List.length_append, List.length_singleton] at hlt
    obtain rfl : n = t.blocks.length := by omega
    rw [List.getElem?_concat_length] at hblock
    obtain rfl := Option.some.inj hblock
    exact ⟨.nil, fun _ h => absurd h List.not_mem_nil⟩
  | tried _ hu ih ihu => exact ih.append (fun n hn => hu.prefix_blocks.2 n hn) ihu
  | @stored s t u reserved block source hroom hends h hr hu ih ihr ihu =>
    obtain ⟨hlen, hkept⟩ := hu.prefix_blocks
    simp only [CgState.init] at hlen hkept ihu
    have hbody : TableFrom targetClass t.blocks.length u.blocks := ihr.append hkept ihu
    refine ih.append (fun n hn => ?_) fun n b hn hb => ?_
    · rw [List.getElem?_set_ne (by omega), hkept n (by omega)]
      exact hr.prefix_blocks.2 n hn
    rcases Nat.eq_or_lt_of_le hn with rfl | hlt
    · -- the block that has been stored
      rw [List.getElem?_set_self (by omega)] at hb
      obtain rfl := Option.some.inj hb
      refine BodyIn.grow ⟨?_, ?_⟩ fun n => compiledAt_set hends.scopes
      · rw [hends.bytecodes, hends.literals]
        exact hu.operands .nil
      · rw [hends.literals]
        exact hu.literalsIn hroom fun _ h => absurd h List.not_mem_nil
    · rw [List.getElem?_set_ne (Nat.ne_of_lt hlt)] at hb
      exact (hbody n b hn hb).grow fun n => compiledAt_set hends.scopes
  | _ => assumption

end Invariant

/-! ## §4. The functions that write. -/

section Writing

variable {targetClass : TargetClass} {s₀ : CgState}

theorem steps_reading (s : CgState) (parser : BParser) (hs : Steps targetClass s₀ s) :
    Steps targetClass s₀ { s with parser := parser } := .parser parser hs

theorem steps_emit {i : Instruction} (hi : i.IsPlain) : Keeps (Steps targetClass s₀) (emit i) :=
  .modify fun _ hs => .plain hi hs

theorem steps_emitUse {i : Instruction} (use : Use) (hi : i.IsFrame) :
    Keeps (Steps targetClass s₀) (emitUse i use) :=
  .modify fun _ hs => .frame use hi hs

theorem steps_setSawReturn : Keeps (Steps targetClass s₀) setSawReturn :=
  .modify fun _ hs => .sawReturn hs

/-- A literal is in its place after it has been looked for. -/
theorem steps_literalIndex {P : CgState → Prop} {token : BToken}
    (hP : ∀ s, P s → Steps targetClass s₀ s)
    (hadd : ∀ s, P s → Steps targetClass s₀ { s with literals := s.literals ++ [token] }) :
    Triple P (cgLiteralIndex token)
      (fun index s => Steps targetClass s₀ s ∧ s.literals[index]? = some token)
      (Steps targetClass s₀) := by
  refine Triple.modifyGet fun s hs => ?_
  cases hfound : s.literals.findIdx? (· == token) with
  | some index =>
    obtain ⟨hlt, heq, -⟩ := List.findIdx?_eq_some_iff_getElem.mp hfound
    refine ⟨hP s hs, ?_⟩
    show s.literals[index]? = some token
    rw [List.getElem?_eq_getElem hlt]
    exact congrArg some (beq_iff_eq.mp heq)
  | none =>
    refine ⟨hadd s hs, ?_⟩
    show (s.literals ++ [token])[s.literals.length]? = some token
    exact List.getElem?_concat_length

/-- An instruction for the literal that has been looked for. -/
theorem steps_emitNamed {token : BToken} {i : Instruction} {index : Nat}
    (hi : i.literalIndex = some index) (hwants : i.Wants token) :
    Triple (fun s => Steps targetClass s₀ s ∧ s.literals[index]? = some token) (emit i)
      (fun _ => Steps targetClass s₀) (Steps targetClass s₀) :=
  Triple.modify fun _ hs => .named hi hs.2 hwants hs.1

theorem steps_pushLiteralToken {token : BToken} (htoken : token.IsConstant) :
    Keeps (Steps targetClass s₀) (cgEmitPushLiteralToken token) := by
  refine .bind (steps_literalIndex (fun _ hs => hs) fun _ hs => .literal (.inl htoken) hs)
    fun index => ?_
  exact steps_emitNamed rfl htoken

theorem steps_selectorSend (selector : List Char) (argc : Nat) :
    Keeps (Steps targetClass s₀) (cgEmitSelectorSend selector argc) := by
  refine .bind (steps_literalIndex (fun _ hs => hs) fun _ hs => .literal (.inr (.inl rfl)) hs)
    fun index => ?_
  exact steps_emitNamed rfl rfl

/-- What is found is an index of the class. -/
theorem steps_instVarIndex (env : Env) (name : Name) :
    Triple (Steps targetClass s₀) (cgInstVarIndex env name)
      (fun found s => Steps targetClass s₀ s ∧ ∀ index, found = some index →
        ∀ f, env.targetClass = some f → ∃ name, f name = some index)
      (Steps targetClass s₀) := by
  refine Triple.modifyGet fun s hs => ?_
  cases hclass : env.targetClass with
  | some f =>
    refine ⟨hs, fun index hindex g hg => ?_⟩
    obtain rfl := Option.some.inj hg
    exact ⟨name, hindex⟩
  | none =>
    refine ⟨?_, fun _ _ f hf => nomatch hf⟩
    cases indexOfName s.instVarNames name with
    | some index => exact hs
    | none =>
      simp only
      split_ifs
      · exact hs
      · exact .instVarNames _ hs

theorem steps_emitIdentifier (env : Env) (token : BToken) (htoken : token.type = .identifier) :
    Keeps (Steps env.targetClass s₀) (cgEmitIdentifier env token) := by
  unfold cgEmitIdentifier
  refine .ite (fun _ => steps_emit trivial) fun _ => .ite (fun _ => steps_emit trivial) fun _ => ?_
  refine .ite (fun hname => steps_pushLiteralToken ?_) fun _ => ?_
  · exact .inr (.inr (.inr (.inr (.inr ⟨htoken, hname⟩))))
  -- the tables of names in the order they are searched
  split
  · exact steps_emitUse _ trivial
  split
  · exact steps_emitUse _ trivial
  split
  · exact steps_emitUse _ trivial
  split
  · exact steps_emitUse _ trivial
  refine .bind (steps_instVarIndex env token.text) fun found => ?_
  cases found with
  | some index => exact Triple.modify fun s hs => .instVar rfl (hs.2 index rfl) hs.1
  | none =>
    refine .bind (steps_literalIndex (fun _ hs => hs.1)
      fun _ hs => .literal (.inr (.inr rfl)) hs.1) fun index => ?_
    exact steps_emitNamed rfl rfl

theorem steps_emitAssignment (env : Env) (name : Name) {value : Cg Unit}
    (hvalue : Keeps (Steps env.targetClass s₀) value) :
    Keeps (Steps env.targetClass s₀) (cgEmitAssignment env name value) := by
  unfold cgEmitAssignment
  split
  · exact .bind hvalue fun _ => steps_emitUse _ trivial
  split
  · exact .bind hvalue fun _ => steps_emitUse _ trivial
  refine .bind (steps_instVarIndex env name) fun found => ?_
  cases found with
  | none => exact Triple.reject fun _ hs => hs.1
  | some index =>
    -- what the lookup has said does not depend on the state
    intro s hs
    refine Triple.bind hvalue (fun _ => ?_) s hs.1
    exact Triple.modify fun t ht => .instVar rfl (hs.2 index rfl) ht

theorem nilToken_constant : nilToken.IsConstant :=
  .inr (.inr (.inr (.inr (.inr ⟨rfl, .inl rfl⟩))))

theorem steps_endBlock (inBlock : Bool) : Keeps (Steps targetClass s₀) (cgEndBlock inBlock) := by
  refine .get_bind fun s _ => .ite (fun _ => ?_) fun _ => Keeps.pure ()
  refine .bind (steps_pushLiteralToken nilToken_constant) fun _ => ?_
  exact .bind (steps_emit trivial) fun _ => steps_setSawReturn

end Writing

/-! ## §5. Every function. -/

/-- A place has been reserved, and perhaps a body been tried for it. -/
structure PlaceReserved (targetClass : TargetClass) (t : CgState) (index : Nat) (s : CgState) :
    Prop where
  index : index = t.blocks.length
  room : t.blocks.length < s.blocks.length
  reserved : s = { t with blocks := s.blocks }
  steps : Steps targetClass t s

/-- The place that was reserved has a block. -/
def PlaceStored (targetClass : TargetClass) (t : CgState) (index : Nat) (s : CgState) : Prop :=
  Steps targetClass t s ∧ CompiledAt s.blocks index

/-- With some fuel, every function goes by steps. -/
structure StepsBy (fuel : Nat) : Prop where
  primary : ∀ env token s, Keeps (Steps env.targetClass s) (cgEmitPrimaryToken fuel env token)
  compileBlock : ∀ env source index t, Triple (PlaceReserved env.targetClass t index)
    (cgCompileAndStoreBlock fuel env source index)
    (fun _ => PlaceStored env.targetClass t index) (PlaceReserved env.targetClass t index)
  storeBody : ∀ env source index t, Triple (PlaceReserved env.targetClass t index)
    (cgStoreBody fuel env source index)
    (fun _ => PlaceStored env.targetClass t index) (PlaceReserved env.targetClass t index)
  unary : ∀ env s, Keeps (Steps env.targetClass s) (cgParseUnaryExpression fuel env)
  unaryLoop : ∀ targetClass s, Keeps (Steps targetClass s) (cgUnaryLoop fuel)
  binary : ∀ env s, Keeps (Steps env.targetClass s) (cgParseBinaryExpression fuel env)
  binaryLoop : ∀ env s, Keeps (Steps env.targetClass s) (cgBinaryLoop fuel env)
  continuation : ∀ env s,
    Keeps (Steps env.targetClass s) (cgParseExpressionContinuation fuel env)
  keywordLoop : ∀ env current selector argc s,
    Keeps (Steps env.targetClass s) (cgKeywordLoop fuel env current selector argc)
  expression : ∀ env s, Keeps (Steps env.targetClass s) (cgParseExpression fuel env)
  inlineExpression : ∀ env source s,
    Keeps (Steps env.targetClass s) (cgEmitInlineExpression fuel env source)
  inlineStatements : ∀ env source s,
    Keeps (Steps env.targetClass s) (cgEmitInlineStatements fuel env source)
  whileTrue : ∀ env s, Keeps (Steps env.targetClass s) (cgParseWhileTrueStatement fuel env)
  statements : ∀ env s, Keeps (Steps env.targetClass s) (cgParseStatements fuel env)
  endStatement : ∀ env s, Keeps (Steps env.targetClass s) (cgEndStatement fuel env)
  body : ∀ inBlock header targetClass outer closureOffset s, Triple (Steps targetClass s)
    (bcCodegenBody fuel inBlock header targetClass outer closureOffset)
    (fun block t => Steps targetClass s t ∧ block.EndsIn t) (Steps targetClass s)

section Cases

variable {fuel : Nat}

theorem StepsBy.primary_succ (h : StepsBy fuel) (env : Env) (token : BToken) (s : CgState) :
    Keeps (Steps env.targetClass s) (cgEmitPrimaryToken (fuel + 1) env token) := by
  unfold cgEmitPrimaryToken
  refine .ite (fun htype => steps_emitIdentifier env token htype) fun _ => ?_
  refine .ite (fun htype => steps_pushLiteralToken ?_) fun _ => ?_
  · rcases htype with htype | htype | htype | htype
    · exact .inl htype
    · exact .inr (.inl htype)
    · exact .inr (.inr (.inl htype))
    · exact .inr (.inr (.inr (.inl htype)))
  refine .ite (fun _ => ?_) fun _ => .ite (fun _ => ?_) fun _ => .ite (fun _ => ?_)
    fun _ => Keeps.reject
  · refine .bind (h.expression env s) fun _ => .bind (reading_next steps_reading) fun close => ?_
    exact Keeps.require _
  · refine .bind (reading_captureLiteralArray steps_reading fuel) fun text => ?_
    exact steps_pushLiteralToken (.inr (.inr (.inr (.inr (.inl rfl)))))
  · refine .get_bind fun start _ => ?_
    refine .bind (reading_skipBlockLiteral steps_reading fuel 1) fun _ => ?_
    refine .get_bind fun finish _ => .bind (Keeps.require _) fun _ => ?_
    refine .bind (Keeps.require _) fun _ => ?_
    -- the state the place is reserved in
    intro t ht
    refine Triple.bind (P := fun u => u = t) (R := Steps env.targetClass s)
      (Q := fun index u => PlaceReserved env.targetClass t index u) ?_ (fun index => ?_) t rfl
    · refine Triple.modifyGet ?_
      rintro _ rfl
      refine ⟨rfl, ?_, rfl, .reserve (.refl _)⟩
      rw [List.length_append, List.length_singleton]
      omega
    intro u hu
    have hindex := hu.index
    refine Triple.bind ((h.compileBlock env _ index t).imp (fun _ hv => hv) (fun _ _ hv => hv)
      fun _ hv => ht.trans hv.steps) (fun _ => ?_) u hu
    refine .bind (steps_literalIndex (fun _ hv => ht.trans hv.1) fun v hv => ?_) fun _ => ?_
    · refine ht.trans (.blockLiteral ?_ hv.2 hv.1)
      omega
    · exact steps_emitNamed rfl ⟨index, rfl⟩

theorem StepsBy.compileBlock_succ (h : StepsBy fuel) (env : Env) (source : List Char)
    (index : Nat) (t : CgState) : Triple (PlaceReserved env.targetClass t index)
      (cgCompileAndStoreBlock (fuel + 1) env source index)
      (fun _ => PlaceStored env.targetClass t index) (PlaceReserved env.targetClass t index) := by
  unfold cgCompileAndStoreBlock
  refine .bind (h.storeBody env source index t).succeeds fun accepted => ?_
  refine .ite (fun haccepted => ?_) fun haccepted => ?_
  · exact Triple.pure fun _ hs => hs.1 haccepted
  -- the place is still reserved
  cases cgBuildImplicitReturnSource source with
  | none => exact Triple.reject fun _ hs => hs.2 (eq_false_of_ne_true haccepted)
  | some implicitSource =>
    exact (h.storeBody env implicitSource index t).imp
      (fun _ hs => hs.2 (eq_false_of_ne_true haccepted)) (fun _ _ hs => hs) fun _ hs => hs

theorem StepsBy.storeBody_succ (h : StepsBy fuel) (env : Env) (source : List Char)
    (index : Nat) (t : CgState) : Triple (PlaceReserved env.targetClass t index)
      (cgStoreBody (fuel + 1) env source index)
      (fun _ => PlaceStored env.targetClass t index) (PlaceReserved env.targetClass t index) := by
  unfold cgStoreBody
  -- the table of the inner body, which has only grown
  refine .bind (Q := fun block s => ∃ reserved u,
      Steps env.targetClass t { t with blocks := reserved } ∧ t.blocks.length < reserved.length ∧
      Steps env.targetClass (.init source reserved) u ∧ block.EndsIn u ∧
      index = t.blocks.length ∧ s = { t with blocks := u.blocks }) ?_ fun block => ?_
  · intro s hs
    have hrun := h.body true [] env.targetClass env.enclose env.blockOffset
      (.init source s.blocks) (.init source s.blocks) (.refl _)
    have hreserved := hs.reserved
    have hsteps : Steps env.targetClass t { t with blocks := s.blocks } := hreserved ▸ hs.steps
    unfold withSource Attempt.inside
    cases hbody : bcCodegenBody fuel true [] env.targetClass env.enclose env.blockOffset
        (.init source s.blocks) with
    | outOfFuel => trivial
    | rejected u =>
      rw [hbody] at hrun
      refine ⟨hs.index, ?_, ?_, ?_⟩
      · exact Nat.lt_of_lt_of_le hs.room hrun.prefix_blocks.1
      · rw [hreserved]
      · rw [hreserved]
        exact .tried hsteps hrun
    | ok block u =>
      rw [hbody] at hrun
      refine ⟨s.blocks, u, hsteps, hs.room, hrun.1, hrun.2, hs.index, ?_⟩
      rw [hreserved]
  · refine Triple.modify ?_
    rintro _ ⟨reserved, u, hsteps, hroom, hu, hends, rfl, rfl⟩
    refine ⟨.stored (u := u) hroom hends (.refl t) hsteps hu, block, ?_, hends.scopes⟩
    have hlen := hu.prefix_blocks.1
    simp only [CgState.init] at hlen
    exact List.getElem?_set_self (Nat.lt_of_lt_of_le hroom hlen)

theorem StepsBy.continuation_succ (h : StepsBy fuel) (env : Env) (s : CgState) :
    Keeps (Steps env.targetClass s) (cgParseExpressionContinuation (fuel + 1) env) := by
  unfold cgParseExpressionContinuation
  refine .bind (reading_next steps_reading) fun token => ?_
  refine .ite (fun _ => reading_unread steps_reading token) fun _ => ?_
  refine .ite (fun _ => reading_unread steps_reading token) fun _ => ?_
  refine .ite (fun _ => h.continuation env s) fun _ => .ite (fun _ => ?_) fun _ => ?_
  · exact .bind (steps_selectorSend _ _) fun _ => h.continuation env s
  refine .ite (fun _ => ?_) fun _ => .ite (fun _ => ?_) fun _ => Keeps.reject
  · refine .bind (reading_binarySelector steps_reading token) fun selector => ?_
    refine .bind (h.unary env s) fun _ => .bind (steps_selectorSend _ _) fun _ => ?_
    exact h.continuation env s
  · exact .bind (h.keywordLoop env token [] 0 s) fun _ => h.continuation env s

theorem StepsBy.keywordLoop_succ (h : StepsBy fuel) (env : Env) (current : BToken)
    (selector : List Char) (argc : Nat) (s : CgState) :
    Keeps (Steps env.targetClass s) (cgKeywordLoop (fuel + 1) env current selector argc) := by
  unfold cgKeywordLoop
  refine .bind (h.binary env s) fun _ => .bind (reading_next steps_reading) fun maybeNext => ?_
  refine .ite (fun _ => h.keywordLoop env _ _ _ s) fun _ => ?_
  exact .bind (reading_unread steps_reading maybeNext) fun _ => steps_selectorSend _ _

theorem StepsBy.binaryLoop_succ (h : StepsBy fuel) (env : Env) (s : CgState) :
    Keeps (Steps env.targetClass s) (cgBinaryLoop (fuel + 1) env) := by
  unfold cgBinaryLoop
  refine .bind (reading_next steps_reading) fun token => .ite (fun _ => ?_) fun _ =>
    reading_unread steps_reading token
  refine .bind (reading_binarySelector steps_reading token) fun selector => ?_
  refine .bind (h.unary env s) fun _ => .bind (steps_selectorSend _ _) fun _ => ?_
  exact h.binaryLoop env s

theorem StepsBy.unaryLoop_succ (h : StepsBy fuel) (targetClass : TargetClass) (s : CgState) :
    Keeps (Steps targetClass s) (cgUnaryLoop (fuel + 1)) := by
  unfold cgUnaryLoop
  refine .bind (reading_next steps_reading) fun token => .ite (fun _ => ?_) fun _ =>
    reading_unread steps_reading token
  exact .bind (steps_selectorSend _ _) fun _ => h.unaryLoop targetClass s

theorem StepsBy.inlineExpression_succ (h : StepsBy fuel) (env : Env) (source : List Char)
    (s : CgState) :
    Keeps (Steps env.targetClass s) (cgEmitInlineExpression (fuel + 1) env source) := by
  unfold cgEmitInlineExpression
  refine .get_bind fun t _ => .bind (reading_setParser steps_reading _) fun _ => ?_
  refine .bind (h.expression env s).succeeds fun accepted => .ite (fun _ => ?_) fun _ => ?_
  · refine .bind (reading_next steps_reading) fun eof => ?_
    exact .bind (reading_setParser steps_reading _) fun _ => Keeps.require _
  · exact .bind (reading_setParser steps_reading _) fun _ => Keeps.reject

theorem StepsBy.inlineStatements_succ (h : StepsBy fuel) (env : Env) (source : List Char)
    (s : CgState) :
    Keeps (Steps env.targetClass s) (cgEmitInlineStatements (fuel + 1) env source) := by
  unfold cgEmitInlineStatements
  refine .get_bind fun t _ => .bind (reading_setParser steps_reading _) fun _ => ?_
  refine .bind (h.statements env s).succeeds fun accepted => ?_
  exact .bind (reading_setParser steps_reading _) fun _ => Keeps.require _

theorem StepsBy.whileTrue_succ (h : StepsBy fuel) (env : Env) (s : CgState) :
    Keeps (Steps env.targetClass s) (cgParseWhileTrueStatement (fuel + 1) env) := by
  unfold cgParseWhileTrueStatement
  refine .bind (reading_captureBlockSource steps_reading fuel) fun conditionSource => ?_
  refine .bind (reading_next steps_reading) fun keyword => .bind (Keeps.require _) fun _ => ?_
  refine .bind (reading_next steps_reading) fun bodyOpen => .bind (Keeps.require _) fun _ => ?_
  refine .bind (reading_captureBlockSource steps_reading fuel) fun bodySource => ?_
  refine .get_bind fun t _ => .bind (h.inlineExpression env conditionSource s) fun _ => ?_
  -- the jump to patch
  refine .bind (Q := fun place u => Steps env.targetClass s u ∧
      ∃ target, u.code[place]? = some (.jumpIfFalse target))
    (Triple.modifyGet fun u hu => ⟨.plain trivial hu, 0, List.getElem?_concat_length⟩)
    fun exitPatch => ?_
  rintro u ⟨hu, target, hjump⟩
  have hkept : ∀ v, Steps env.targetClass u v → Steps env.targetClass s v ∧
      ∃ target, v.code[exitPatch]? = some (.jumpIfFalse target) := by
    intro v hv
    obtain ⟨j, hj, hsame⟩ := hv.kept_code hjump
    refine ⟨hu.trans hv, ?_⟩
    rcases hsame with rfl | ⟨_, new, -, rfl⟩
    · exact ⟨target, hj⟩
    · exact ⟨new, hj⟩
  refine Triple.bind ((h.inlineStatements env bodySource u).imp (fun _ hv => hv) (fun _ _ hv => hv)
    fun v hv => (hkept v hv).1) (fun _ => ?_) u (.refl u)
  have hjumpBack : Keeps (Steps env.targetClass u) (emit (.jump (byteCount t.code))) :=
    steps_emit trivial
  refine .bind (hjumpBack.imp (fun _ hv => hv) (fun _ => hkept)
    fun v hv => (hkept v hv).1) fun _ => ?_
  refine .bind (Q := fun _ => Steps env.targetClass s) (Triple.modify ?_) fun _ =>
    steps_pushLiteralToken nilToken_constant
  rintro v ⟨hv, old, hold⟩
  exact .jumpTarget _ hold hv

theorem StepsBy.endStatement_succ (h : StepsBy fuel) (env : Env) (s : CgState) :
    Keeps (Steps env.targetClass s) (cgEndStatement (fuel + 1) env) := by
  unfold cgEndStatement
  refine .bind (reading_next steps_reading) fun separator => .ite (fun _ => ?_) fun _ => ?_
  · exact .bind (steps_emit trivial) fun _ => steps_setSawReturn
  · refine .bind (Keeps.require _) fun _ => .bind (steps_emit trivial) fun _ => ?_
    exact h.statements env s

theorem StepsBy.statements_succ (h : StepsBy fuel) (env : Env) (s : CgState) :
    Keeps (Steps env.targetClass s) (cgParseStatements (fuel + 1) env) := by
  unfold cgParseStatements
  refine .bind (reading_next steps_reading) fun token => .ite (fun _ => Keeps.pure ()) fun _ => ?_
  refine .ite (fun _ => h.statements env s) fun _ => .ite (fun _ => ?_) fun _ => ?_
  · refine .bind (h.expression env s) fun _ => .bind (steps_emit ?_) fun _ => ?_
    · split_ifs <;> trivial
    refine .bind steps_setSawReturn fun _ => .bind (reading_next steps_reading) fun eof => ?_
    exact Keeps.require _
  refine .ite (fun _ => ?_) fun _ => .ite (fun _ => ?_) fun _ => ?_
  · refine .get_bind fun saved _ => .bind (h.whileTrue env s).succeeds fun isLoop => ?_
    refine .ite (fun _ => ?_) fun _ => ?_
    · refine .bind (reading_next steps_reading) fun separator => ?_
      refine .ite (fun _ => Keeps.pure ()) fun _ => ?_
      refine .bind (Keeps.require _) fun _ => .bind (steps_emit trivial) fun _ => ?_
      exact h.statements env s
    · refine .bind (reading_setParser steps_reading _) fun _ => ?_
      refine .bind (reading_unread steps_reading token) fun _ => ?_
      exact .bind (h.expression env s) fun _ => h.endStatement env s
  · refine .bind (reading_next steps_reading) fun maybeAssign => .ite (fun _ => ?_) fun _ => ?_
    · refine .bind (steps_emitAssignment env _ (h.expression env s)) fun _ => ?_
      refine .bind (reading_next steps_reading) fun separator => ?_
      refine .ite (fun _ => Keeps.pure ()) fun _ => ?_
      exact .bind (Keeps.require _) fun _ => h.statements env s
    · refine .bind (reading_unread steps_reading maybeAssign) fun _ => ?_
      refine .bind (h.primary env token s) fun _ => ?_
      exact .bind (h.continuation env s) fun _ => h.endStatement env s
  · refine .bind (reading_unread steps_reading token) fun _ => ?_
    exact .bind (h.expression env s) fun _ => h.endStatement env s

theorem StepsBy.body_succ (h : StepsBy fuel) (inBlock : Bool) (header : List Name)
    (targetClass : TargetClass) (outer : List Scope) (closureOffset : Nat) (s : CgState) :
    Triple (Steps targetClass s)
      (bcCodegenBody (fuel + 1) inBlock header targetClass outer closureOffset)
      (fun block t => Steps targetClass s t ∧ block.EndsIn t) (Steps targetClass s) := by
  unfold bcCodegenBody
  refine .bind (reading_bodyArgs steps_reading inBlock header) fun args => ?_
  refine .bind (reading_tempDecls steps_reading) fun temps => ?_
  let env : Env := ⟨⟨args, temps, closureOffset⟩, outer, inBlock, targetClass⟩
  refine .bind (h.statements env s) fun _ => ?_
  refine .bind (steps_endBlock inBlock) fun _ => .get_bind_at fun t ht => ?_
  refine .bind (Triple.imp (Keeps.require (I := fun u => u = t) _) (fun _ hu => hu)
    (fun _ _ hu => hu) ?_) fun _ => Triple.pure ?_
  · rintro _ rfl
    exact ht
  · rintro _ rfl
    exact ⟨ht, rfl, rfl, List.cons_ne_nil _ _⟩

end Cases

/-- **Every function goes by steps**, by induction on the fuel. -/
theorem stepsBy (fuel : Nat) : StepsBy fuel := by
  induction fuel with
  | zero => constructor <;> intros <;> exact Triple.outOfFuel
  | succ fuel h =>
    exact {
      primary := h.primary_succ
      compileBlock := h.compileBlock_succ
      storeBody := h.storeBody_succ
      unary := fun env s => .bind (reading_next steps_reading) fun token =>
        .bind (h.primary env token s) fun _ => h.unaryLoop env.targetClass s
      unaryLoop := h.unaryLoop_succ
      binary := fun env s => .bind (h.unary env s) fun _ => h.binaryLoop env s
      binaryLoop := h.binaryLoop_succ
      continuation := h.continuation_succ
      keywordLoop := h.keywordLoop_succ
      expression := fun env s => .bind (h.binary env s) fun _ => h.continuation env s
      inlineExpression := h.inlineExpression_succ
      inlineStatements := h.inlineStatements_succ
      whileTrue := h.whileTrue_succ
      statements := h.statements_succ
      endStatement := h.endStatement_succ
      body := h.body_succ }

/-! ## §6. Methods. -/

section Methods

variable {fuel : Nat} {header : List Name} {targetClass : TargetClass} {source : List Char}
variable {body : CompiledBody} {s : CgState}

theorem bcCodegenMethod_steps (h : bcCodegenMethod fuel header targetClass source = .ok body s) :
    Steps targetClass (.init source []) s ∧ body.body.EndsIn s ∧ body.blocks = s.blocks := by
  unfold bcCodegenMethod at h
  have hrun := (stepsBy fuel).body false header targetClass [] 0 (.init source []) _ (.refl _)
  cases hbody : bcCodegenBody fuel false header targetClass [] 0 (.init source []) with
  | outOfFuel =>
    rw [hbody] at h
    cases h
  | rejected t =>
    rw [hbody] at h
    cases h
  | ok block t =>
    rw [hbody] at h hrun
    obtain ⟨rfl, rfl⟩ := Tried.ok.inj h
    exact ⟨hrun.1, hrun.2, rfl⟩

/-- **In a method that is accepted every operand names what its instruction is for**, in
the method itself as in its blocks. -/
theorem bcCodegenMethod_bodyIn (h : bcCodegenMethod fuel header targetClass source = .ok body s) :
    BodyIn targetClass body.blocks 0 body.body.bytecodes body.body.literals ∧
      TableFrom targetClass 0 body.blocks := by
  obtain ⟨hsteps, hends, hblocks⟩ := bcCodegenMethod_steps h
  rw [hends.bytecodes, hends.literals, hblocks]
  refine ⟨⟨hsteps.operands .nil, ?_⟩, hsteps.tableFrom⟩
  exact hsteps.literalsIn (Nat.zero_le _) fun _ h => absurd h List.not_mem_nil

end Methods

end LivingObjects.Compiler
