/-
  LivingObjects.Smalltalk.StackDiscipline — the operands of the code that the generator emits.

  The code of a node leaves one value more on the operand stack, whatever the way through
  it, unless it stores to a name that is no temporary of its generator or is a sequence
  without statements.

  `codegen_discipline_iff`: every node that is visited keeps the discipline exactly when every
  name that is assigned is a temporary where it is assigned, and no sequence is empty.
-/
import LivingObjects.Smalltalk.CodeGenerator
import LivingObjects.Smalltalk.OperandStack

namespace LivingObjects.Smalltalk

open Node CodeGenerator

/-! ## §1. What is emitted. -/

theorem byteAt_append (code more : List Nat) (offset : Nat) :
    byteAt (code ++ more) (code.length + offset) = byteAt more offset := by
  rw [byteAt, byteAt, List.getElem?_append_right (Nat.le_add_right _ _), Nat.add_sub_cancel_left]

theorem readU32_append (code more : List Nat) (offset : Nat) :
    readU32 (code ++ more) (code.length + offset) = readU32 more offset := by
  rw [readU32, readU32, Nat.add_assoc code.length offset 1, Nat.add_assoc code.length offset 2,
    Nat.add_assoc code.length offset 3, byteAt_append, byteAt_append, byteAt_append,
    byteAt_append]

/-- Decoding the code that follows another. -/
theorem decode_append (code more : List Nat) (offset : Nat) :
    decode (code ++ more) (code.length + offset) = decode more offset := by
  rw [decode, decode, List.getElem?_append_right (Nat.le_add_right _ _), Nat.add_sub_cancel_left,
    Nat.add_assoc, readU32_append, Nat.add_assoc, readU32_append]

/-- The generator with more bytes. -/
def CodeGenerator.append (more : List Nat) (self : CodeGenerator) : CodeGenerator :=
  { self with bytecodes := self.bytecodes ++ more }

namespace CodeGenerator

variable {self after : CodeGenerator}

theorem append_append (more later : List Nat) :
    (self.append more).append later = self.append (more ++ later) := by
  rw [append, append, append, List.append_assoc]

theorem emitByte_some {value : Nat} (h : self.emitByte value = some after) :
    after = self.append [value] ∧ value < 256 := by
  rw [emitByte] at h
  split at h
  · rename_i hroom
    injection h with h
    exact ⟨h.symm, hroom.2⟩
  · exact nomatch h

theorem emitU32_some {value : Nat} (h : self.emitU32 value = some after) :
    after = self.append [value, 0, 0, 0] ∧ value < 256 := by
  obtain ⟨first, hfirst, h⟩ := Option.bind_eq_some_iff.mp h
  obtain ⟨second, hsecond, h⟩ := Option.bind_eq_some_iff.mp h
  obtain ⟨third, hthird, h⟩ := Option.bind_eq_some_iff.mp h
  obtain ⟨rfl, hvalue⟩ := emitByte_some hfirst
  obtain ⟨rfl, _⟩ := emitByte_some hsecond
  obtain ⟨rfl, _⟩ := emitByte_some hthird
  obtain ⟨rfl, _⟩ := emitByte_some h
  refine ⟨?_, hvalue⟩
  rw [append_append, append_append, append_append]
  rfl

/-- An instruction with one operand. -/
theorem emitOperand_some {opcode value : Nat}
    (h : (do
      let self ← self.emitByte opcode
      self.emitU32 value) = some after) :
    after = self.append [opcode, value, 0, 0, 0] ∧ value < 256 := by
  obtain ⟨first, hfirst, h⟩ := Option.bind_eq_some_iff.mp h
  obtain ⟨rfl, _⟩ := emitByte_some hfirst
  obtain ⟨rfl, hvalue⟩ := emitU32_some h
  rw [append_append]
  exact ⟨rfl, hvalue⟩

theorem emitSendMessage_some {selectorIndex argc : Nat}
    (h : self.emitSendMessage selectorIndex argc = some after) :
    after = self.append [6, selectorIndex, 0, 0, 0, argc, 0, 0, 0] := by
  obtain ⟨first, hfirst, h⟩ := Option.bind_eq_some_iff.mp h
  obtain ⟨second, hsecond, h⟩ := Option.bind_eq_some_iff.mp h
  obtain ⟨rfl, _⟩ := emitByte_some hfirst
  obtain ⟨rfl, _⟩ := emitU32_some hsecond
  obtain ⟨rfl, _⟩ := emitU32_some h
  rw [append_append, append_append]
  rfl

theorem emitJumpIfFalsePlaceholder_some {patchIndex : Nat}
    (h : self.emitJumpIfFalsePlaceholder = some (patchIndex, after)) :
    after = self.append [10, 0, 0, 0, 0] ∧ patchIndex = self.bytecodes.length + 2 := by
  obtain ⟨first, hfirst, h⟩ := Option.bind_eq_some_iff.mp h
  obtain ⟨second, hsecond, h⟩ := Option.bind_eq_some_iff.mp h
  obtain ⟨rfl, _⟩ := emitByte_some hfirst
  obtain ⟨rfl, _⟩ := emitU32_some hsecond
  injection h with h
  injection h with hindex hafter
  refine ⟨hafter.symm.trans (append_append _ _), hindex.symm.trans ?_⟩
  show (self.bytecodes ++ [10]).length + 1 = _
  rw [List.length_append]
  rfl

variable {identical : Literal → Literal → Bool}

theorem addLiteral_some {anObject : Literal} {index : Nat}
    (h : self.addLiteral identical anObject = some (index, after)) :
    ∃ literals, after = { self with literals := literals } := by
  rw [addLiteral] at h
  split at h
  · injection h with h
    injection h with _ hafter
    exact ⟨self.literals, hafter.symm⟩
  · split at h
    · injection h with h
      injection h with _ hafter
      exact ⟨_, hafter.symm⟩
    · exact nomatch h

/-! ## §2. Generators that go on. -/

/-- What is emitted goes from one depth to another, and what was emitted before stays. -/
structure Moves (earlier later : CodeGenerator) (depth last : Nat) : Prop where
  kept : ∃ more, later.bytecodes = earlier.bytecodes ++ more
  segment : Segment later.bytecodes earlier.bytecodes.length depth later.bytecodes.length last

/-- Nothing was emitted. -/
theorem Moves.none {depth : Nat} (h : after.bytecodes = self.bytecodes) :
    Moves self after depth depth :=
  ⟨⟨[], by rw [List.append_nil, h]⟩, by rw [h]; exact .refl _ _ _⟩

theorem Moves.trans {between : CodeGenerator} {depth middle last : Nat}
    (h : Moves self between depth middle) (hnext : Moves between after middle last) :
    Moves self after depth last := by
  obtain ⟨more, hmore⟩ := h.kept
  obtain ⟨later, hlater⟩ := hnext.kept
  refine ⟨⟨more ++ later, by rw [hlater, hmore, List.append_assoc]⟩, ?_⟩
  refine (h.segment.congr ?_).trans hnext.segment
  intro o _ ho
  rw [hlater, List.getElem?_append_left ho]

theorem Moves.shift {depth last : Nat} (h : Moves self after depth last) (k : Nat) :
    Moves self after (depth + k) (last + k) := ⟨h.kept, h.segment.shift k⟩

/-- One instruction behind the code. -/
theorem moves_append (instruction : Instruction) {more : List Nat} {depth last : Nat}
    (hdecode : decode more 0 = some instruction) (hsize : instruction.size = more.length)
    (hneeds : instruction.needs ≤ depth)
    (htargets : ∀ offset, instruction.targets offset = [offset + instruction.size])
    (hlast : instruction.after depth = last) : Moves self (self.append more) depth last := by
  refine ⟨⟨more, rfl⟩, ?_⟩
  have hat : decode (self.append more).bytecodes self.bytecodes.length = some instruction := by
    rw [← hdecode]
    exact decode_append self.bytecodes more 0
  have hsegment := Segment.single hat hneeds (decode_size hdecode) (htargets _)
  rw [hsize] at hsegment
  have hlength : (self.append more).bytecodes.length = self.bytecodes.length + more.length :=
    List.length_append
  rw [hlength, ← hlast]
  exact hsegment

theorem pushLiteral_moves {anObject : Literal}
    (h : self.pushLiteral identical anObject = some after) :
    Moves self after 0 1 ∧ after.temps = self.temps := by
  obtain ⟨⟨index, found⟩, hadd, h⟩ := Option.bind_eq_some_iff.mp h
  obtain ⟨literals, rfl⟩ := addLiteral_some hadd
  obtain ⟨rfl, _⟩ := emitOperand_some h
  have hsame : Moves self { self with literals := literals } 0 0 := .none rfl
  exact ⟨hsame.trans (moves_append (.push 5) rfl rfl (Nat.zero_le _) (fun _ => rfl) rfl), rfl⟩

theorem emitPushSelf_moves (h : self.emitPushSelf = some after) :
    Moves self after 0 1 ∧ after.temps = self.temps := by
  obtain ⟨rfl, _⟩ := emitByte_some h
  exact ⟨moves_append (.push 1) rfl rfl (Nat.zero_le _) (fun _ => rfl) rfl, rfl⟩

theorem resolveNamedVariable_moves {name : List Char}
    (h : self.resolveNamedVariable name = some after) :
    Moves self after 0 1 ∧ after.temps = self.temps := by
  rw [resolveNamedVariable] at h
  split at h
  · obtain ⟨rfl, _⟩ := emitOperand_some h
    exact ⟨moves_append (.pushTemp _) rfl rfl (Nat.zero_le _) (fun _ => rfl) rfl, rfl⟩
  · split at h
    · obtain ⟨rfl, _⟩ := emitOperand_some h
      exact ⟨moves_append (.push 5) rfl rfl (Nat.zero_le _) (fun _ => rfl) rfl, rfl⟩
    · exact emitPushSelf_moves h

/-- A variable of any kind is one value. -/
theorem resolveVariable_moves {name : List Char}
    (h : self.resolveVariable identical name = some after) :
    Moves self after 0 1 ∧ after.temps = self.temps := by
  rw [resolveVariable] at h
  split at h
  · exact emitPushSelf_moves h
  split at h
  · exact emitPushSelf_moves h
  split at h
  · obtain ⟨rfl, _⟩ := emitByte_some h
    exact ⟨moves_append (.push 1) rfl rfl (Nat.zero_le _) (fun _ => rfl) rfl, rfl⟩
  split at h
  · exact pushLiteral_moves h
  split at h
  · exact pushLiteral_moves h
  split at h
  · exact pushLiteral_moves h
  · exact resolveNamedVariable_moves h

theorem emitSendMessage_moves {selectorIndex argc : Nat}
    (h : self.emitSendMessage selectorIndex argc = some after) :
    Moves self after (argc + 1) 1 ∧ after.temps = self.temps := by
  rw [emitSendMessage_some h]
  refine ⟨?_, rfl⟩
  have hread : readU32 [6, selectorIndex, 0, 0, 0, argc, 0, 0, 0] 5 = argc := by
    show argc + 256 * 0 + 65536 * 0 + 16777216 * 0 = argc
    omega
  have hdecode : decode [6, selectorIndex, 0, 0, 0, argc, 0, 0, 0] 0 = some (.send argc) := by
    rw [← hread]
    rfl
  exact moves_append (.send argc) hdecode rfl (Nat.le_refl _) (fun _ => rfl)
    (Nat.add_sub_cancel_left argc 1)

theorem emitPop_moves (h : self.emitPop = some after) :
    Moves self after 1 0 ∧ after.temps = self.temps := by
  obtain ⟨rfl, _⟩ := emitByte_some h
  exact ⟨moves_append .pop rfl rfl (Nat.le_refl _) (fun _ => rfl) rfl, rfl⟩

theorem emitDuplicate_moves (h : self.emitDuplicate = some after) :
    Moves self after 1 2 ∧ after.temps = self.temps := by
  obtain ⟨rfl, _⟩ := emitByte_some h
  exact ⟨moves_append .duplicate rfl rfl (Nat.le_refl _) (fun _ => rfl) rfl, rfl⟩

theorem emitPushClosure_moves {blockIndex : Nat}
    (h : self.emitPushClosure blockIndex = some after) :
    Moves self after 0 1 ∧ after.temps = self.temps := by
  obtain ⟨rfl, _⟩ := emitOperand_some h
  exact ⟨moves_append (.push 5) rfl rfl (Nat.zero_le _) (fun _ => rfl) rfl, rfl⟩

theorem emitStoreTemp_moves {index : Nat} (h : self.emitStoreTemp index = some after) :
    Moves self after 2 1 ∧ after.temps = self.temps := by
  obtain ⟨rfl, _⟩ := emitOperand_some h
  have hneeds : 1 ≤ 2 := by decide
  exact ⟨moves_append (.storeTemp _) rfl rfl hneeds (fun _ => rfl) rfl, rfl⟩

/-- Either return ends the code that it follows. -/
theorem emitAnyReturn_moves {opcode : Nat} (hopcode : opcode = 7 ∨ opcode = 16)
    (h : self.emitByte opcode = some after) :
    Moves self after 1 1 ∧ after.temps = self.temps := by
  obtain ⟨rfl, _⟩ := emitByte_some h
  refine ⟨⟨⟨_, rfl⟩, ?_⟩, rfl⟩
  have hdecode : decode (self.append [opcode]).bytecodes self.bytecodes.length = some .return := by
    have hat := decode_append self.bytecodes [opcode] 0
    rcases hopcode with rfl | rfl
    · exact hat
    · exact hat
  have hlength : (self.append [opcode]).bytecodes.length = self.bytecodes.length + 1 :=
    List.length_append
  rw [hlength]
  exact Segment.ends hdecode rfl (Nat.le_refl _)

/-- Patching the operand of the exit test. -/
theorem patch_placeholder (pre rest : List Nat) (value : Nat) :
    ((((pre ++ 10 :: 0 :: 0 :: 0 :: 0 :: rest).set (pre.length + 1) value).set
      (pre.length + 2) 0).set (pre.length + 3) 0).set (pre.length + 4) 0 =
      pre ++ 10 :: value :: 0 :: 0 :: 0 :: rest := by
  induction pre with
  | nil => rfl
  | cons byte pre ih => exact congrArg (byte :: ·) ih

/-- The code of a loop, between the condition and what is emitted behind it. -/
theorem loop_moves {test opened body popped jumped : CodeGenerator} {exitPatch : Nat}
    (hcondition : Moves self test 0 1)
    (hopened : test.emitJumpIfFalsePlaceholder = some (exitPatch, opened))
    (hbody : Moves opened body 0 1) (hpopped : body.emitPop = some popped)
    (hjumped : popped.emitJumpTo self.bytecodeCount = some jumped)
    (hpatched : jumped.patchU32At exitPatch jumped.bytecodeCount = some after) :
    Moves self after 0 0 ∧ after.temps = body.temps := by
  obtain ⟨rfl, rfl⟩ := emitJumpIfFalsePlaceholder_some hopened
  obtain ⟨rfl, _⟩ := emitByte_some hpopped
  obtain ⟨rfl, _⟩ := emitOperand_some hjumped
  obtain ⟨condition, htest⟩ := hcondition.kept
  obtain ⟨inner, hinner⟩ := hbody.kept
  have hends : body.bytecodes = test.bytecodes ++ 10 :: 0 :: 0 :: 0 :: 0 :: inner := by
    rw [hinner]
    exact List.append_assoc ..
  -- what the patch leaves
  have hcode : after.bytecodes = test.bytecodes ++ 10 :: (body.bytecodes.length + 6) :: 0 :: 0 ::
      0 :: (inner ++ [11, 8, self.bytecodes.length, 0, 0, 0]) ∧ after.temps = body.temps := by
    rw [patchU32At] at hpatched
    split at hpatched
    · injection hpatched with hpatched
      rw [← hpatched]
      refine ⟨?_, rfl⟩
      have hbytes : (append [8, self.bytecodeCount, 0, 0, 0] (append [11] body)).bytecodes =
          test.bytecodes ++ 10 :: 0 :: 0 :: 0 :: 0 ::
            (inner ++ [11, 8, self.bytecodes.length, 0, 0, 0]) := by
        show body.bytecodes ++ [11] ++ [8, self.bytecodes.length, 0, 0, 0] = _
        rw [hends, List.append_assoc, List.append_assoc]
        rfl
      have hcount : (append [8, self.bytecodeCount, 0, 0, 0] (append [11] body)).bytecodeCount =
          body.bytecodes.length + 6 := by
        show (body.bytecodes ++ [11] ++ [8, self.bytecodes.length, 0, 0, 0]).length = _
        rw [List.length_append, List.length_append]
        rfl
      rw [hcount]
      show ((((_ : List Nat).set (test.bytecodes.length + 1) _).set _ 0).set _ 0).set _ 0 = _
      rw [hbytes]
      exact patch_placeholder _ _ _
    · exact nomatch hpatched
  obtain ⟨hcode, htemps⟩ := hcode
  refine ⟨⟨⟨condition ++ 10 :: (body.bytecodes.length + 6) :: 0 :: 0 :: 0 ::
    (inner ++ [11, 8, self.bytecodes.length, 0, 0, 0]), ?_⟩, ?_⟩, htemps⟩
  · rw [hcode, htest, List.append_assoc]
  have hbodyLength : body.bytecodes.length = test.bytecodes.length + (5 + inner.length) := by
    rw [hends, List.length_append]
    simp only [List.length_cons]
    omega
  have hlength : after.bytecodes.length = body.bytecodes.length + 6 := by
    rw [hcode, List.length_append, hbodyLength]
    simp only [List.length_cons, List.length_append, List.length_nil]
    omega
  have hexit : decode after.bytecodes test.bytecodes.length =
      some (.jumpIf (body.bytecodes.length + 6)) := by
    rw [hcode]
    refine (decode_append _ _ 0).trans ?_
    show some (Instruction.jumpIf (body.bytecodes.length + 6 + 256 * 0 + 65536 * 0 +
      16777216 * 0)) = _
    rfl
  obtain ⟨pre, hplace, hsplit⟩ : ∃ pre, pre.length = body.bytecodes.length ∧
      after.bytecodes = pre ++ [11, 8, self.bytecodes.length, 0, 0, 0] := by
    refine ⟨test.bytecodes ++ 10 :: (body.bytecodes.length + 6) :: 0 :: 0 :: 0 :: inner, ?_, ?_⟩
    · rw [List.length_append, hbodyLength]
      simp only [List.length_cons]
      omega
    · rw [hcode, List.append_assoc]
      rfl
  have hpop : decode after.bytecodes body.bytecodes.length = some .pop := by
    rw [hsplit, ← hplace]
    exact decode_append _ _ 0
  have hjump : decode after.bytecodes (body.bytecodes.length + 1) =
      some (.jump self.bytecodes.length) := by
    rw [hsplit, ← hplace]
    exact decode_append _ _ 1
  have hfirst : Segment after.bytecodes self.bytecodes.length 0 test.bytecodes.length 1 := by
    refine hcondition.segment.congr ?_
    intro o _ ho
    rw [hcode, List.getElem?_append_left ho]
  have hsecond : Segment after.bytecodes (test.bytecodes.length + 5) 0 body.bytecodes.length 1 := by
    have hopenedLength : (append [10, 0, 0, 0, 0] test).bytecodes.length =
        test.bytecodes.length + 5 := List.length_append
    rw [← hopenedLength]
    refine hbody.segment.congr ?_
    intro o ho ho'
    rw [hopenedLength] at ho
    obtain ⟨k, rfl⟩ : ∃ k, o = test.bytecodes.length + (5 + k) :=
      ⟨o - test.bytecodes.length - 5, by omega⟩
    have hk : k < inner.length := by omega
    rw [hcode, hends, List.getElem?_append_right (Nat.le_add_right _ _),
      List.getElem?_append_right (Nat.le_add_right _ _), Nat.add_sub_cancel_left, Nat.add_comm 5 k]
    show (inner ++ _)[k]? = inner[k]?
    exact List.getElem?_append_left hk
  rw [hlength]
  exact Segment.loop hfirst hexit hsecond hpop hjump

end CodeGenerator

/-! ## §3. Settled nodes. -/

mutual

/-- The temporaries of the generator behind a node: a sequence declares its own. -/
def Node.tempsAfter : Node → List (List Char) → List (List Char)
  | messageNode receiver selector arguments, temps =>
    if isWhileTrueMessage receiver selector arguments then
      bodyTempsAfter arguments (receiver.inlineTempsAfter temps)
    else allTempsAfter arguments (receiver.tempsAfter temps)
  | assignmentNode _ value, temps => value.tempsAfter temps
  | returnNode expression, temps => expression.tempsAfter temps
  | sequenceNode temporaries statements, _ => allTempsAfter statements temporaries
  | _, temps => temps

def Node.inlineTempsAfter : Node → List (List Char) → List (List Char)
  | blockNode _ _ statements, temps => allTempsAfter statements temps
  | _, temps => temps

def bodyTempsAfter : List Node → List (List Char) → List (List Char)
  | body :: _, temps => body.inlineTempsAfter temps
  | [], temps => temps

def allTempsAfter : List Node → List (List Char) → List (List Char)
  | [], temps => temps
  | node :: nodes, temps => allTempsAfter nodes (node.tempsAfter temps)

end

mutual

/-- **Settled nodes:** every name that is assigned is one of the temporaries that its generator
has there, and every sequence has a statement.  The blocks of a loop belong to the
generator around them; any other block has its own. -/
def Node.Settled : Node → List (List Char) → Prop
  | messageNode receiver selector arguments, temps =>
    if isWhileTrueMessage receiver selector arguments then
      receiver.InlineSettled temps ∧ BodySettled arguments (receiver.inlineTempsAfter temps)
    else receiver.Settled temps ∧ AllSettled arguments (receiver.tempsAfter temps)
  | blockNode _ temporaries statements, _ => AllSettled statements temporaries
  | assignmentNode target value, temps =>
    value.Settled temps ∧ ∀ name, target = variableNode name → name ∈ value.tempsAfter temps
  | returnNode expression, temps => expression.Settled temps
  | sequenceNode temporaries statements, _ => statements ≠ [] ∧ AllSettled statements temporaries
  | _, _ => True

def Node.InlineSettled : Node → List (List Char) → Prop
  | blockNode _ _ statements, temps => AllSettled statements temps
  | _, _ => True

def BodySettled : List Node → List (List Char) → Prop
  | body :: _, temps => body.InlineSettled temps
  | [], _ => True

def AllSettled : List Node → List (List Char) → Prop
  | [], _ => True
  | node :: nodes, temps => node.Settled temps ∧ AllSettled nodes (node.tempsAfter temps)

end

/-! ## §4. What a visit emits. -/

namespace CodeGenerator

variable {self after : CodeGenerator} {identical : Literal → Literal → Bool}

/-- The generator of a block, when it has compiled the block. -/
def compileBlock (identical : Literal → Literal → Bool) (arguments temporaries : List (List Char))
    (statements : List Node) : Option CodeGenerator := do
  let blockGen := (forBlock.arguments arguments).temporaries temporaries
  let blockGen ← if statements.isEmpty then blockGen.pushLiteral identical (.value .nil)
    else visitStatements identical statements blockGen
  blockGen.emitReturn

/-- The visit of a block: it is compiled, and its closure is pushed. -/
theorem visitNode_block {arguments temporaries : List (List Char)} {statements : List Node} :
    visitNode identical (blockNode arguments temporaries statements) self =
      (compileBlock identical arguments temporaries statements).bind fun blockGen =>
        (self.addLiteral identical (.block blockGen.bytecodes blockGen.literals blockGen.temps
          blockGen.args)).bind fun (blockIndex, self) => self.emitPushClosure blockIndex := by
  rw [visitNode, compileBlock]
  cases statements.isEmpty with
  | true =>
    rw [if_pos rfl, if_pos rfl]
    exact (Option.bind_assoc ..).symm
  | false =>
    rw [if_neg Bool.false_ne_true, if_neg Bool.false_ne_true]
    exact (Option.bind_assoc ..).symm

/-- A store to a name that is a temporary. -/
theorem storeVariable_some {name : List Char} (hname : name ∈ self.temps)
    (h : self.storeVariable name = some after) :
    ∃ index, self.tempIndexOf name = some index ∧ self.emitStoreTemp index = some after := by
  rw [storeVariable] at h
  cases hindex : self.tempIndexOf name with
  | none =>
    have hfree := List.findIdx?_eq_none_iff.mp hindex name hname
    exact absurd (beq_self_eq_true name) (by rw [hfree]; decide)
  | some index =>
    rw [hindex] at h
    exact ⟨index, rfl, h⟩

mutual

theorem visitNode_moves : (node : Node) → {self after : CodeGenerator} →
    visitNode identical node self = some after → node.Settled self.temps →
    Moves self after 0 1 ∧ after.temps = node.tempsAfter self.temps
  | nil, _, _, h, _ => nomatch h
  | literalNode _ _, _, _, h, _ => pushLiteral_moves h
  | literalArrayNode _, _, _, h, _ => nomatch h
  | variableNode _, _, _, h, _ => resolveVariable_moves h
  | messageNode receiver selector arguments, self, after, h, hsettled => by
    rw [visitNode] at h
    rw [Node.Settled] at hsettled
    rw [Node.tempsAfter]
    cases hloop : isWhileTrueMessage receiver selector arguments with
    | true =>
      rw [hloop] at h hsettled
      obtain ⟨test, htest, h⟩ := Option.bind_eq_some_iff.mp h
      obtain ⟨⟨exitPatch, opened⟩, hopened, h⟩ := Option.bind_eq_some_iff.mp h
      obtain ⟨body, hbody, h⟩ := Option.bind_eq_some_iff.mp h
      obtain ⟨popped, hpopped, h⟩ := Option.bind_eq_some_iff.mp h
      obtain ⟨jumped, hjumped, h⟩ := Option.bind_eq_some_iff.mp h
      obtain ⟨patched, hpatched, h⟩ := Option.bind_eq_some_iff.mp h
      obtain ⟨hcondition, htemps⟩ := visitInlineBlock_moves receiver htest hsettled.1
      have hopenedTemps : opened.temps = receiver.inlineTempsAfter self.temps := by
        rw [(emitJumpIfFalsePlaceholder_some hopened).1]
        exact htemps
      have hsettledBody := hsettled.2
      rw [← hopenedTemps] at hsettledBody
      obtain ⟨hinner, hinnerTemps⟩ := visitLoopBody_moves arguments hbody hsettledBody
      obtain ⟨hmoves, hloopTemps⟩ :=
        loop_moves hcondition hopened hinner hpopped hjumped hpatched
      obtain ⟨hpush, hpushTemps⟩ := pushLiteral_moves h
      refine ⟨hmoves.trans hpush, ?_⟩
      rw [hpushTemps, hloopTemps, hinnerTemps, hopenedTemps]
      rfl
    | false =>
      rw [hloop] at h hsettled
      obtain ⟨first, hfirst, h⟩ := Option.bind_eq_some_iff.mp h
      obtain ⟨second, hsecond, h⟩ := Option.bind_eq_some_iff.mp h
      obtain ⟨⟨selectorIndex, third⟩, hthird, h⟩ := Option.bind_eq_some_iff.mp h
      obtain ⟨literals, rfl⟩ := addLiteral_some hthird
      obtain ⟨hreceiver, htemps⟩ := visitNode_moves receiver hfirst hsettled.1
      have hsettledArgs := hsettled.2
      rw [← htemps] at hsettledArgs
      obtain ⟨harguments, htempsArgs⟩ := visitMessageArgs_moves arguments hsecond hsettledArgs
      obtain ⟨hsend, htempsSend⟩ := emitSendMessage_moves h
      have hsame : Moves second { second with literals := literals } (arguments.length + 1)
        (arguments.length + 1) := .none rfl
      have hshift := harguments.shift 1
      rw [Nat.zero_add] at hshift
      exact ⟨((hreceiver.trans hshift).trans hsame).trans hsend,
        htempsSend.trans (htempsArgs.trans (by rw [htemps]; rfl))⟩
  | blockNode arguments temporaries statements, self, after, h, _ => by
    -- the generator of the block is another one
    rw [visitNode_block] at h
    obtain ⟨compiled, _, h⟩ := Option.bind_eq_some_iff.mp h
    obtain ⟨⟨blockIndex, stored⟩, hstored, h⟩ := Option.bind_eq_some_iff.mp h
    obtain ⟨literals, rfl⟩ := addLiteral_some hstored
    obtain ⟨hpush, htemps⟩ := emitPushClosure_moves h
    have hsame : Moves self { self with literals := literals } 0 0 := .none rfl
    exact ⟨hsame.trans hpush, htemps⟩
  | assignmentNode target value, self, after, h, hsettled => by
    rw [visitNode] at h
    obtain ⟨first, hfirst, h⟩ := Option.bind_eq_some_iff.mp h
    obtain ⟨second, hsecond, h⟩ := Option.bind_eq_some_iff.mp h
    obtain ⟨hvalue, htemps⟩ := visitNode_moves value hfirst hsettled.1
    obtain ⟨hduplicate, htempsDuplicate⟩ := emitDuplicate_moves hsecond
    cases target with
    | variableNode name =>
      have hname : name ∈ second.temps := by
        rw [htempsDuplicate, htemps]
        exact hsettled.2 name rfl
      obtain ⟨index, _, hstore⟩ := storeVariable_some hname h
      obtain ⟨hmoves, htempsStore⟩ := emitStoreTemp_moves hstore
      exact ⟨(hvalue.trans hduplicate).trans hmoves,
        htempsStore.trans (htempsDuplicate.trans htemps)⟩
    | _ => exact nomatch h
  | returnNode expression, self, after, h, hsettled => by
    rw [visitNode] at h
    obtain ⟨first, hfirst, h⟩ := Option.bind_eq_some_iff.mp h
    obtain ⟨hvalue, htemps⟩ := visitNode_moves expression hfirst hsettled
    split at h
    · obtain ⟨hreturn, htempsReturn⟩ := emitAnyReturn_moves (.inr rfl) h
      exact ⟨hvalue.trans hreturn, htempsReturn.trans htemps⟩
    · obtain ⟨hreturn, htempsReturn⟩ := emitAnyReturn_moves (.inl rfl) h
      exact ⟨hvalue.trans hreturn, htempsReturn.trans htemps⟩
  | sequenceNode temporaries statements, self, after, h, hsettled => by
    rw [visitNode] at h
    split at h
    · rename_i hempty
      exact absurd (List.isEmpty_iff.mp hempty) hsettled.1
    · obtain ⟨hmoves, htemps⟩ := visitStatements_moves statements h hsettled.2
      exact ⟨⟨hmoves.kept, hmoves.segment⟩, htemps⟩

theorem visitInlineBlock_moves : (node : Node) → {self after : CodeGenerator} →
    visitInlineBlock identical node self = some after → node.InlineSettled self.temps →
    Moves self after 0 1 ∧ after.temps = node.inlineTempsAfter self.temps
  | blockNode _ _ statements, self, after, h, hsettled => by
    rw [visitInlineBlock] at h
    split at h
    · rename_i hempty
      rw [Node.inlineTempsAfter, List.isEmpty_iff.mp hempty]
      exact pushLiteral_moves h
    · exact visitStatements_moves statements h hsettled
  | nil, _, _, h, _ | literalNode _ _, _, _, h, _ | literalArrayNode _, _, _, h, _
  | variableNode _, _, _, h, _ | messageNode _ _ _, _, _, h, _ | assignmentNode _ _, _, _, h, _
  | returnNode _, _, _, h, _ | sequenceNode _ _, _, _, h, _ => nomatch h

theorem visitLoopBody_moves : (nodes : List Node) → {self after : CodeGenerator} →
    visitLoopBody identical nodes self = some after → BodySettled nodes self.temps →
    Moves self after 0 1 ∧ after.temps = bodyTempsAfter nodes self.temps
  | body :: _, _, _, h, hsettled => visitInlineBlock_moves body h hsettled
  | [], _, _, h, _ => nomatch h

theorem visitMessageArgs_moves : (nodes : List Node) → {self after : CodeGenerator} →
    visitMessageArgs identical nodes self = some after → AllSettled nodes self.temps →
    Moves self after 0 nodes.length ∧ after.temps = allTempsAfter nodes self.temps
  | [], self, after, h, _ => by
    injection h with h
    rw [← h]
    exact ⟨.none rfl, rfl⟩
  | argument :: arguments, self, after, h, hsettled => by
    rw [visitMessageArgs] at h
    obtain ⟨first, hfirst, h⟩ := Option.bind_eq_some_iff.mp h
    obtain ⟨hargument, htemps⟩ := visitNode_moves argument hfirst hsettled.1
    have hlater := hsettled.2
    rw [← htemps] at hlater
    obtain ⟨hmoves, hafter⟩ := visitMessageArgs_moves arguments h hlater
    have hshift := hmoves.shift 1
    rw [Nat.zero_add] at hshift
    exact ⟨hargument.trans hshift, by rw [hafter, htemps]; rfl⟩

theorem visitStatements_moves : (nodes : List Node) → {self after : CodeGenerator} →
    visitStatements identical nodes self = some after → AllSettled nodes self.temps →
    Moves self after 0 1 ∧ after.temps = allTempsAfter nodes self.temps
  | [], _, _, h, _ => nomatch h
  | statement :: statements, self, after, h, hsettled => by
    rw [visitStatements] at h
    obtain ⟨first, hfirst, h⟩ := Option.bind_eq_some_iff.mp h
    obtain ⟨hstatement, htemps⟩ := visitNode_moves statement hfirst hsettled.1
    split at h
    · rename_i hempty
      injection h with h
      rw [← h, allTempsAfter, List.isEmpty_iff.mp hempty]
      exact ⟨hstatement, htemps⟩
    · obtain ⟨popped, hpopped, h⟩ := Option.bind_eq_some_iff.mp h
      obtain ⟨hpop, htempsPop⟩ := emitPop_moves hpopped
      have hlater := hsettled.2
      rw [← htemps, ← htempsPop] at hlater
      obtain ⟨hmoves, hafter⟩ := visitStatements_moves statements h hlater
      refine ⟨(hstatement.trans hpop).trans hmoves, ?_⟩
      rw [hafter, htempsPop, htemps]
      rfl

end

/-! ## §5. What is asked of a visit. -/

/-- The bytecodes of a store: with a value on top they end with the value still there, and with
the temporary set to it. -/
def Stores (code : List Nat) (start finish index : Nat) : Prop :=
  ∀ stack temps value,
    Within code start finish ⟨start, value :: stack, temps⟩
      ⟨finish, value :: stack, Function.update temps index value⟩ ∧
    ∀ c, Within code start finish ⟨start, value :: stack, temps⟩ c → c.offset = finish →
      c.stack = value :: stack ∧ c.temps = Function.update temps index value

/-- **What a visit of a node is to emit.**  The code leaves one value, keeps the discipline, and
can be followed by a return; an assignment stores to the temporary that its name has; the
code of a block is disciplined by itself. -/
structure WellVisited (identical : Literal → Literal → Bool) (node : Node)
    (before later : CodeGenerator) : Prop where
  operands : Disciplined later.bytecodes before.bytecodes.length later.bytecodes.length
  returned : ∀ last, later.emitReturn = some last →
    Returns last.bytecodes before.bytecodes.length
  stored : ∀ name value, node = assignmentNode (variableNode name) value →
    ∀ valued, visitNode identical value before = some valued →
      ∃ index, valued.tempIndexOf name = some index ∧
        Stores later.bytecodes valued.bytecodes.length later.bytecodes.length index
  compiled : ∀ arguments temporaries statements,
    node = blockNode arguments temporaries statements →
      ∀ block, compileBlock identical arguments temporaries statements = some block →
        Returns block.bytecodes 0

/-- A node is visited as it should be, if it is visited. -/
def VisitedWell (identical : Literal → Literal → Bool) (node : Node) (before : CodeGenerator) :
    Prop :=
  ∀ later, visitNode identical node before = some later → WellVisited identical node before later

mutual

/-- While a node is visited, it and every node in it are visited as they should be. -/
def EachVisit (identical : Literal → Literal → Bool) : Node → CodeGenerator → Prop
  | messageNode receiver selector arguments, before =>
    VisitedWell identical (messageNode receiver selector arguments) before ∧
      if isWhileTrueMessage receiver selector arguments then
        EachInline identical receiver before ∧
          ∀ test, visitInlineBlock identical receiver before = some test →
            ∀ exitPatch opened, test.emitJumpIfFalsePlaceholder = some (exitPatch, opened) →
              EachBody identical arguments opened
      else
        EachVisit identical receiver before ∧
          ∀ first, visitNode identical receiver before = some first →
            EachArgument identical arguments first
  | blockNode arguments temporaries statements, before =>
    VisitedWell identical (blockNode arguments temporaries statements) before ∧
      EachStatement identical statements
        ((forBlock.arguments arguments).temporaries temporaries)
  | assignmentNode target value, before =>
    VisitedWell identical (assignmentNode target value) before ∧ EachVisit identical value before
  | returnNode expression, before =>
    VisitedWell identical (returnNode expression) before ∧ EachVisit identical expression before
  | sequenceNode temporaries statements, before =>
    VisitedWell identical (sequenceNode temporaries statements) before ∧
      EachStatement identical statements (before.temporaries temporaries)
  | nil, before => VisitedWell identical nil before
  | literalNode value token, before => VisitedWell identical (literalNode value token) before
  | literalArrayNode elements, before => VisitedWell identical (literalArrayNode elements) before
  | variableNode name, before => VisitedWell identical (variableNode name) before

def EachInline (identical : Literal → Literal → Bool) : Node → CodeGenerator → Prop
  | blockNode _ _ statements, before => EachStatement identical statements before
  | _, _ => True

def EachBody (identical : Literal → Literal → Bool) : List Node → CodeGenerator → Prop
  | body :: _, before => EachInline identical body before
  | [], _ => True

def EachArgument (identical : Literal → Literal → Bool) : List Node → CodeGenerator → Prop
  | [], _ => True
  | argument :: arguments, before =>
    EachVisit identical argument before ∧
      ∀ first, visitNode identical argument before = some first →
        EachArgument identical arguments first

def EachStatement (identical : Literal → Literal → Bool) : List Node → CodeGenerator → Prop
  | [], _ => True
  | statement :: statements, before =>
    EachVisit identical statement before ∧
      ∀ first, visitNode identical statement before = some first →
        ∀ popped, first.emitPop = some popped → EachStatement identical statements popped

end

/-! ## §6. Settled nodes are visited well. -/

theorem Moves.disciplined (h : Moves self after 0 1) :
    Disciplined after.bytecodes self.bytecodes.length after.bytecodes.length :=
  h.segment.disciplined

theorem Moves.returns (h : Moves self after 0 1) {last : CodeGenerator}
    (hreturn : after.emitReturn = some last) : Returns last.bytecodes self.bytecodes.length := by
  obtain ⟨rfl, _⟩ := emitByte_some hreturn
  have hsegment : Segment (after.append [7]).bytecodes self.bytecodes.length 0
      after.bytecodes.length 1 := by
    refine h.segment.congr ?_
    intro o _ ho
    exact List.getElem?_append_left ho
  have hdecode : decode (after.append [7]).bytecodes after.bytecodes.length = some .return :=
    decode_append after.bytecodes [7] 0
  exact hsegment.disciplined.returns hdecode List.length_append

/-- The bytecodes of a store, one instruction after the other. -/
theorem stores_append {index : Nat} :
    Stores ((self.append [12]).append [5, index, 0, 0, 0]).bytecodes self.bytecodes.length
      ((self.append [12]).append [5, index, 0, 0, 0]).bytecodes.length index := by
  have hcode : ((self.append [12]).append [5, index, 0, 0, 0]).bytecodes =
      self.bytecodes ++ [12, 5, index, 0, 0, 0] := List.append_assoc ..
  rw [hcode, List.length_append]
  have hduplicate := decode_append self.bytecodes [12, 5, index, 0, 0, 0] 0
  have hstore := decode_append self.bytecodes [12, 5, index, 0, 0, 0] 1
  have hread : decode [12, 5, index, 0, 0, 0] 1 = some (.storeTemp index) := by
    show some (Instruction.storeTemp (index + 256 * 0 + 65536 * 0 + 16777216 * 0)) = _
    rfl
  rw [hread] at hstore
  intro stack temps value
  refine ⟨?_, ?_⟩
  · refine .step (.step .refl (Nat.le_refl _) (Nat.lt_add_of_pos_right (Nat.succ_pos _))
      ⟨hduplicate, List.mem_singleton_self _, .duplicate⟩) (Nat.le_succ _)
      (Nat.add_lt_add_left (show 1 < 6 by decide) _) ?_
    exact ⟨hstore, List.mem_singleton_self _, .storeTemp⟩
  · intro c hrun hend
    have hplaces : (c.offset = self.bytecodes.length ∧ c.stack = value :: stack ∧ c.temps = temps) ∨
        (c.offset = self.bytecodes.length + 1 ∧ c.stack = value :: value :: stack ∧
          c.temps = temps) ∨
        (c.offset = self.bytecodes.length + 6 ∧ c.stack = value :: stack ∧
          c.temps = Function.update temps index value) := by
      clear hend
      induction hrun with
      | refl => exact .inl ⟨rfl, rfl, rfl⟩
      | @step d e _ hlower hupper hstep ih =>
        replace hupper : d.offset < self.bytecodes.length + 6 := hupper
        obtain ⟨hdecode, hnext, heffect⟩ := hstep
        rcases ih with ⟨hoffset, hstack, htemps⟩ | ⟨hoffset, hstack, htemps⟩ | ⟨hoffset, _⟩
        · rw [hoffset] at hdecode hnext
          injection hdecode.symm.trans hduplicate with hsame
          rw [hsame] at hnext heffect
          rw [hstack, htemps] at heffect
          cases heffect
          exact .inr (.inl ⟨List.mem_singleton.mp hnext, rfl, rfl⟩)
        · rw [hoffset] at hdecode hnext
          injection hdecode.symm.trans hstore with hsame
          rw [hsame] at hnext heffect
          rw [hstack, htemps] at heffect
          cases heffect
          exact .inr (.inr ⟨List.mem_singleton.mp hnext, rfl, rfl⟩)
        · omega
    replace hend : c.offset = self.bytecodes.length + 6 := hend
    rcases hplaces with ⟨hoffset, _⟩ | ⟨hoffset, _⟩ | ⟨_, hstack, htemps⟩
    · omega
    · omega
    · exact ⟨hstack, htemps⟩

/-- A block whose statements are settled, by itself. -/
theorem compileBlock_returns {arguments temporaries : List (List Char)} {statements : List Node}
    {block : CodeGenerator}
    (h : compileBlock identical arguments temporaries statements = some block)
    (hsettled : AllSettled statements temporaries) : Returns block.bytecodes 0 := by
  rw [compileBlock] at h
  split at h
  · obtain ⟨first, hfirst, h⟩ := Option.bind_eq_some_iff.mp h
    exact (pushLiteral_moves hfirst).1.returns h
  · obtain ⟨first, hfirst, h⟩ := Option.bind_eq_some_iff.mp h
    exact (visitStatements_moves statements hfirst hsettled).1.returns h

/-- A settled node is visited well. -/
theorem Settled.visitedWell {node : Node} (hsettled : node.Settled self.temps) :
    VisitedWell identical node self := by
  intro later h
  obtain ⟨hmoves, _⟩ := visitNode_moves node h hsettled
  refine ⟨hmoves.disciplined, fun last hlast => hmoves.returns hlast, ?_, ?_⟩
  · intro name value hnode valued hvalued
    subst hnode
    rw [visitNode] at h
    obtain ⟨first, hfirst, h⟩ := Option.bind_eq_some_iff.mp h
    obtain rfl := Option.some.inj (hvalued.symm.trans hfirst)
    obtain ⟨second, hsecond, h⟩ := Option.bind_eq_some_iff.mp h
    obtain ⟨_, htemps⟩ := visitNode_moves value hvalued hsettled.1
    have hsame := (emitDuplicate_moves hsecond).2
    have hname : name ∈ second.temps := by
      rw [hsame, htemps]
      exact hsettled.2 name rfl
    obtain ⟨index, hindex, hstore⟩ := storeVariable_some hname h
    refine ⟨index, ?_, ?_⟩
    · rw [tempIndexOf, ← hsame]
      exact hindex
    · obtain ⟨rfl, _⟩ := emitByte_some hsecond
      obtain ⟨rfl, _⟩ := emitOperand_some hstore
      exact stores_append
  · intro arguments temporaries statements hnode block hblock
    subst hnode
    exact compileBlock_returns hblock hsettled

mutual

theorem eachVisit_of_settled : (node : Node) → {self : CodeGenerator} →
    node.Settled self.temps → EachVisit identical node self
  | nil, _, hsettled | literalNode _ _, _, hsettled | literalArrayNode _, _, hsettled
  | variableNode _, _, hsettled => Settled.visitedWell hsettled
  | messageNode receiver selector arguments, self, hsettled => by
    refine ⟨Settled.visitedWell hsettled, ?_⟩
    rw [Node.Settled] at hsettled
    cases hloop : isWhileTrueMessage receiver selector arguments with
    | true =>
      rw [hloop] at hsettled
      refine ⟨eachInline_of_settled receiver hsettled.1, ?_⟩
      intro test htest exitPatch opened hopened
      refine eachBody_of_settled arguments ?_
      rw [(emitJumpIfFalsePlaceholder_some hopened).1]
      show BodySettled arguments test.temps
      rw [(visitInlineBlock_moves receiver htest hsettled.1).2]
      exact hsettled.2
    | false =>
      rw [hloop] at hsettled
      refine ⟨eachVisit_of_settled receiver hsettled.1, ?_⟩
      intro first hfirst
      refine eachArgument_of_settled arguments ?_
      rw [(visitNode_moves receiver hfirst hsettled.1).2]
      exact hsettled.2
  | blockNode _ _ statements, _, hsettled =>
    ⟨Settled.visitedWell hsettled, eachStatement_of_settled statements hsettled⟩
  | assignmentNode _ value, _, hsettled =>
    ⟨Settled.visitedWell hsettled, eachVisit_of_settled value hsettled.1⟩
  | returnNode expression, _, hsettled =>
    ⟨Settled.visitedWell hsettled, eachVisit_of_settled expression hsettled⟩
  | sequenceNode _ statements, _, hsettled =>
    ⟨Settled.visitedWell hsettled, eachStatement_of_settled statements hsettled.2⟩

theorem eachInline_of_settled : (node : Node) → {self : CodeGenerator} →
    node.InlineSettled self.temps → EachInline identical node self
  | blockNode _ _ statements, _, hsettled => eachStatement_of_settled statements hsettled
  | nil, _, _ | literalNode _ _, _, _ | literalArrayNode _, _, _ | variableNode _, _, _
  | messageNode _ _ _, _, _ | assignmentNode _ _, _, _ | returnNode _, _, _
  | sequenceNode _ _, _, _ => trivial

theorem eachBody_of_settled : (nodes : List Node) → {self : CodeGenerator} →
    BodySettled nodes self.temps → EachBody identical nodes self
  | body :: _, _, hsettled => eachInline_of_settled body hsettled
  | [], _, _ => trivial

theorem eachArgument_of_settled : (nodes : List Node) → {self : CodeGenerator} →
    AllSettled nodes self.temps → EachArgument identical nodes self
  | [], _, _ => trivial
  | argument :: arguments, self, hsettled => by
    refine ⟨eachVisit_of_settled argument hsettled.1, ?_⟩
    intro first hfirst
    refine eachArgument_of_settled arguments ?_
    rw [(visitNode_moves argument hfirst hsettled.1).2]
    exact hsettled.2

theorem eachStatement_of_settled : (nodes : List Node) → {self : CodeGenerator} →
    AllSettled nodes self.temps → EachStatement identical nodes self
  | [], _, _ => trivial
  | statement :: statements, self, hsettled => by
    refine ⟨eachVisit_of_settled statement hsettled.1, ?_⟩
    intro first hfirst popped hpopped
    refine eachStatement_of_settled statements ?_
    rw [(emitPop_moves hpopped).2, (visitNode_moves statement hfirst hsettled.1).2]
    exact hsettled.2

end

/-! ## §7. Only settled nodes are visited well. -/

/-- A visit that emits nothing leaves no value. -/
theorem Disciplined.nonempty {code : List Nat} {offset : Nat} :
    ¬ Disciplined code offset offset := by
  intro h
  obtain ⟨depth, hlast, hruns⟩ := h
  obtain ⟨operands, hstack, hlength, _⟩ := hruns [] (fun _ => 0) _ .refl
  rw [List.append_nil] at hstack
  have hempty : operands = [] := hstack.symm
  rw [hempty] at hlength
  exact absurd (hlength.trans hlast) (by decide)

mutual

theorem settled_of_eachVisit : (node : Node) → {self after : CodeGenerator} →
    visitNode identical node self = some after → EachVisit identical node self →
    node.Settled self.temps
  | nil, _, _, h, _ => nomatch h
  | literalArrayNode _, _, _, h, _ => nomatch h
  | literalNode _ _, _, _, _, _ => trivial
  | variableNode _, _, _, _, _ => trivial
  | messageNode receiver selector arguments, self, after, h, heach => by
    rw [visitNode] at h
    have hparts := heach.2
    rw [Node.Settled]
    cases hloop : isWhileTrueMessage receiver selector arguments with
    | true =>
      rw [hloop] at h hparts
      obtain ⟨test, htest, h⟩ := Option.bind_eq_some_iff.mp h
      obtain ⟨⟨exitPatch, opened⟩, hopened, h⟩ := Option.bind_eq_some_iff.mp h
      obtain ⟨body, hbody, h⟩ := Option.bind_eq_some_iff.mp h
      have hreceiver := settled_of_eachInline receiver htest hparts.1
      refine ⟨hreceiver, ?_⟩
      have hsettled := settled_of_eachBody arguments hbody (hparts.2 _ htest _ _ hopened)
      rw [(emitJumpIfFalsePlaceholder_some hopened).1] at hsettled
      replace hsettled : BodySettled arguments test.temps := hsettled
      rw [(visitInlineBlock_moves receiver htest hreceiver).2] at hsettled
      exact hsettled
    | false =>
      rw [hloop] at h hparts
      obtain ⟨first, hfirst, h⟩ := Option.bind_eq_some_iff.mp h
      obtain ⟨second, hsecond, h⟩ := Option.bind_eq_some_iff.mp h
      have hreceiver := settled_of_eachVisit receiver hfirst hparts.1
      refine ⟨hreceiver, ?_⟩
      have hsettled := settled_of_eachArgument arguments hsecond (hparts.2 _ hfirst)
      rw [(visitNode_moves receiver hfirst hreceiver).2] at hsettled
      exact hsettled
  | blockNode arguments temporaries statements, self, after, h, heach => by
    rw [visitNode_block] at h
    obtain ⟨block, hblock, _⟩ := Option.bind_eq_some_iff.mp h
    rw [compileBlock] at hblock
    split at hblock
    · rename_i hempty
      rw [Node.Settled, List.isEmpty_iff.mp hempty]
      exact trivial
    · obtain ⟨first, hfirst, _⟩ := Option.bind_eq_some_iff.mp hblock
      exact settled_of_eachStatement statements hfirst heach.2
  | assignmentNode target value, self, after, h, heach => by
    obtain ⟨hwell, hvalue⟩ := heach
    obtain ⟨_, _, hstored, _⟩ := hwell after h
    rw [visitNode] at h
    obtain ⟨first, hfirst, h⟩ := Option.bind_eq_some_iff.mp h
    have hsettled := settled_of_eachVisit value hfirst hvalue
    refine ⟨hsettled, ?_⟩
    intro name htarget
    obtain ⟨index, hindex, _⟩ := hstored name value (by rw [htarget]) first hfirst
    rw [← (visitNode_moves value hfirst hsettled).2]
    obtain ⟨hbound, hfound, _⟩ := List.findIdx?_eq_some_iff_getElem.mp hindex
    rw [← beq_iff_eq.mp hfound]
    exact List.getElem_mem hbound
  | returnNode expression, self, after, h, heach => by
    rw [visitNode] at h
    obtain ⟨first, hfirst, _⟩ := Option.bind_eq_some_iff.mp h
    exact settled_of_eachVisit expression hfirst heach.2
  | sequenceNode temporaries statements, self, after, h, heach => by
    obtain ⟨hwell, hstatements⟩ := heach
    have hdisciplined := (hwell after h).operands
    rw [visitNode] at h
    split at h
    · injection h with h
      rw [← h] at hdisciplined
      exact absurd hdisciplined Disciplined.nonempty
    · rename_i hne
      have hne : statements ≠ [] := fun heq => hne (List.isEmpty_iff.mpr heq)
      exact ⟨hne, settled_of_eachStatement statements h hstatements⟩

theorem settled_of_eachInline : (node : Node) → {self after : CodeGenerator} →
    visitInlineBlock identical node self = some after → EachInline identical node self →
    node.InlineSettled self.temps
  | blockNode _ _ statements, self, after, h, heach => by
    rw [visitInlineBlock] at h
    split at h
    · rename_i hempty
      rw [Node.InlineSettled, List.isEmpty_iff.mp hempty]
      exact trivial
    · exact settled_of_eachStatement statements h heach
  | nil, _, _, h, _ | literalNode _ _, _, _, h, _ | literalArrayNode _, _, _, h, _
  | variableNode _, _, _, h, _ | messageNode _ _ _, _, _, h, _ | assignmentNode _ _, _, _, h, _
  | returnNode _, _, _, h, _ | sequenceNode _ _, _, _, h, _ => nomatch h

theorem settled_of_eachBody : (nodes : List Node) → {self after : CodeGenerator} →
    visitLoopBody identical nodes self = some after → EachBody identical nodes self →
    BodySettled nodes self.temps
  | body :: _, _, _, h, heach => settled_of_eachInline body h heach
  | [], _, _, h, _ => nomatch h

theorem settled_of_eachArgument : (nodes : List Node) → {self after : CodeGenerator} →
    visitMessageArgs identical nodes self = some after → EachArgument identical nodes self →
    AllSettled nodes self.temps
  | [], _, _, _, _ => trivial
  | argument :: arguments, self, after, h, heach => by
    rw [visitMessageArgs] at h
    obtain ⟨first, hfirst, h⟩ := Option.bind_eq_some_iff.mp h
    have hargument := settled_of_eachVisit argument hfirst heach.1
    refine ⟨hargument, ?_⟩
    have hsettled := settled_of_eachArgument arguments h (heach.2 _ hfirst)
    rw [(visitNode_moves argument hfirst hargument).2] at hsettled
    exact hsettled

theorem settled_of_eachStatement : (nodes : List Node) → {self after : CodeGenerator} →
    visitStatements identical nodes self = some after → EachStatement identical nodes self →
    AllSettled nodes self.temps
  | [], _, _, h, _ => nomatch h
  | statement :: statements, self, after, h, heach => by
    rw [visitStatements] at h
    obtain ⟨first, hfirst, h⟩ := Option.bind_eq_some_iff.mp h
    have hstatement := settled_of_eachVisit statement hfirst heach.1
    refine ⟨hstatement, ?_⟩
    split at h
    · rename_i hempty
      rw [List.isEmpty_iff.mp hempty]
      exact trivial
    · obtain ⟨popped, hpopped, h⟩ := Option.bind_eq_some_iff.mp h
      have hsettled := settled_of_eachStatement statements h (heach.2 _ hfirst _ hpopped)
      rw [(emitPop_moves hpopped).2, (visitNode_moves statement hfirst hstatement).2] at hsettled
      exact hsettled

end

/-! ## §8. The discipline of the generator. -/

/-- **Every node of a visited tree keeps the discipline exactly when the tree is settled.** -/
theorem codegen_discipline_iff {identical : Literal → Literal → Bool} {node : Node}
    {self after : CodeGenerator} (h : visitNode identical node self = some after) :
    EachVisit identical node self ↔ node.Settled self.temps :=
  ⟨settled_of_eachVisit node h, eachVisit_of_settled node⟩

/-- The literals of a test are the same where they are numbers that are. -/
def sameInteger : Literal → Literal → Bool
  | .value (.integer m), .value (.integer n) => m == n
  | _, _ => false

/-- The assignment `count := 3`. -/
def countAssignment : Node :=
  assignmentNode (variableNode "count".toList)
    (literalNode (.integer 3) (Smalltalk.integer ['3'] 3))

/-- `count := 3` to a temporary. -/
theorem count_assignment_kept :
    EachVisit sameInteger countAssignment (new.temporaries ["count".toList]) := by
  have h : visitNode sameInteger countAssignment (new.temporaries ["count".toList]) =
      some { new with
        bytecodes := [0, 0, 0, 0, 0, 12, 5, 0, 0, 0, 0]
        literals := [.value (.integer 3)]
        temps := ["count".toList] } := rfl
  refine (codegen_discipline_iff h).mpr ⟨trivial, ?_⟩
  intro name hname
  injection hname with hname
  rw [← hname]
  exact List.mem_singleton_self _

/-- `count := 3` to an instance variable: three values stay, and nothing is stored. -/
theorem count_assignment_lost :
    visitNode sameInteger countAssignment new =
      some { new with
        bytecodes := [0, 0, 0, 0, 0, 12, 3]
        literals := [.value (.integer 3)] } ∧
    ¬ Disciplined [0, 0, 0, 0, 0, 12, 3] 0 7 ∧
    ¬ EachVisit sameInteger countAssignment new := by
  have h : visitNode sameInteger countAssignment new =
      some { new with
        bytecodes := [0, 0, 0, 0, 0, 12, 3]
        literals := [.value (.integer 3)] } := rfl
  refine ⟨h, ?_, ?_⟩
  · intro hdisciplined
    obtain ⟨depth, hlast, hruns⟩ := hdisciplined
    have hpush : decode [0, 0, 0, 0, 0, 12, 3] 0 = some (.push 5) := rfl
    have hduplicate : decode [0, 0, 0, 0, 0, 12, 3] 5 = some .duplicate := rfl
    have hself : decode [0, 0, 0, 0, 0, 12, 3] 6 = some (.push 1) := rfl
    have hrun : Within [0, 0, 0, 0, 0, 12, 3] 0 7 ⟨0, [], fun _ => 0⟩
        ⟨7, [9, 3, 3], fun _ => 0⟩ := by
      have hfirst : Step [0, 0, 0, 0, 0, 12, 3] ⟨0, [], fun _ => 0⟩ ⟨5, [3], fun _ => 0⟩ :=
        ⟨hpush, List.mem_singleton_self _, .push⟩
      have hsecond : Step [0, 0, 0, 0, 0, 12, 3] ⟨5, [3], fun _ => 0⟩ ⟨6, [3, 3], fun _ => 0⟩ :=
        ⟨hduplicate, List.mem_singleton_self _, .duplicate⟩
      have hthird : Step [0, 0, 0, 0, 0, 12, 3] ⟨6, [3, 3], fun _ => 0⟩
          ⟨7, [9, 3, 3], fun _ => 0⟩ := ⟨hself, List.mem_singleton_self _, .push⟩
      have hone := Within.step (@Within.refl _ 0 7 _) (Nat.zero_le _) (by decide) hfirst
      have htwo := hone.step (Nat.zero_le _) (by decide) hsecond
      exact htwo.step (Nat.zero_le _) (by decide) hthird
    obtain ⟨operands, hstack, hlength, _⟩ := hruns [] (fun _ => 0) _ hrun
    rw [List.append_nil] at hstack
    rw [← hstack, hlast] at hlength
    exact absurd hlength (by decide)
  · intro heach
    have hsettled := settled_of_eachVisit countAssignment h heach
    have hmember : "count".toList ∈ ([] : List (List Char)) := hsettled.2 _ rfl
    exact nomatch hmember

end CodeGenerator

end LivingObjects.Smalltalk
