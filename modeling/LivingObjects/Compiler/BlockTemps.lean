/-
  LivingObjects.Compiler.BlockTemps — the temporaries of a block and its frame.

  The compiler numbers a block's temporaries behind its arguments, and the frame keeps no
  room for the arguments there.  The slots of what is declared around the block are in
  the frame; its own temporaries are as long as their places, moved up by the number of
  arguments, stay below the number of temporaries.
-/
import LivingObjects.Compiler.Frames

namespace LivingObjects.Compiler

open LivingObjects.Lib
open LivingObjects.Stack

/-! ## §1. Operands. -/

/-- Pushes and pops of the operand stack. -/
inductive Operands (s : Vm) (stack : List Nat) : Vm → List Nat → Prop
  | refl : Operands s stack s stack
  | push {s' : Vm} {stack' : List Nat} (h : Operands s stack s' stack') (hroom : 0 < s'.sp)
      (v : Nat) : Operands s stack (s'.push v) (v :: stack')
  | pop {s' : Vm} {stack' : List Nat} {v : Nat} (h : Operands s stack s' (v :: stack')) :
      Operands s stack { s' with sp := s'.sp + 1 } stack'

/-- They leave the frame as it is. -/
theorem Operands.chain {s s' : Vm} {a : Activation} {rest : List Activation} {stack : List Nat}
    (h : Operands s a.stack s' stack) (hchain : Chain s (a :: rest)) :
    Chain s' ({ a with stack := stack } :: rest) := by
  induction h with
  | refl => exact hchain
  | push hrun hroom v ih => exact ih.push hroom v
  | pop hrun ih => exact ih.pop (show _ = [_] ++ _ from rfl)

theorem Operands.temp {s s' : Vm} {a : Activation} {rest : List Activation} {stack : List Nat}
    (h : Operands s a.stack s' stack) (hchain : Chain s (a :: rest)) {n : Nat}
    (hn : n < a.temps.length) : frameTemp s'.mem s'.fp n = frameTemp s.mem s.fp n := by
  have hafter := h.chain hchain
  have hheld : Stack.Held s.mem s.sp _ a := hchain.held.1
  have hheld' : Stack.Held s'.mem s'.sp _ { a with stack := stack } := hafter.held.1
  have hfp : s.fp = a.fpAt s.sp := hchain.fp
  have hfp' : s'.fp = ({ a with stack := stack } : Activation).fpAt s'.sp := hafter.fp
  rw [hfp, hfp', hheld.temp hn, hheld'.temp hn]

/-! ## §2. What a use of a name reaches. -/

def Use.name : Use → Name
  | .read name => name
  | .assign name => name

/-- A use of a name in a block goes to a temporary of the block, or out of it. -/
theorem Use.target_cases {own : Scope} {outer : List Scope} {u : Use} {v : Variable}
    (h : u.target own outer = some v) :
    (∃ i, cgTempIndex own u.name = some i ∧ v = ⟨0, true, i⟩) ∨
      ∃ w : Variable, w.Declared outer ∧ v = w.inward := by
  have houter : ∀ {name}, (outerTemp outer name).map Variable.inward = some v →
      ∃ w : Variable, w.Declared outer ∧ v = w.inward := by
    intro name hname
    obtain ⟨w, hw, rfl⟩ := Option.map_eq_some_iff.mp hname
    exact ⟨w, (outerTemp_declared hw).1, rfl⟩
  cases u with
  | read name =>
    simp only [Use.target] at h
    split at h
    · rename_i i hi
      exact Or.inl ⟨i, hi, (Option.some.inj h).symm⟩
    · split at h
      · cases h
      · split at h
        · rename_i w hw
          exact Or.inr ⟨w, (outerArg_declared hw).1, (Option.some.inj h).symm⟩
        · exact Or.inr (houter h)
  | assign name =>
    simp only [Use.target] at h
    split at h
    · rename_i i hi
      exact Or.inl ⟨i, hi, (Option.some.inj h).symm⟩
    · exact Or.inr (houter h)

/-- A name of an own temporary goes to it. -/
theorem Use.target_own {own : Scope} {outer : List Scope} {u : Use} {i : Nat}
    (h : cgTempIndex own u.name = some i) : u.target own outer = some ⟨0, true, i⟩ := by
  cases u <;> simp only [Use.target, Use.name] at h ⊢ <;> rw [h]

/-! ## §3. Temporaries inside the frame. -/

/-- **Block temporaries stay inside the frame**: in every frame of the block, whatever its
code has stored, the temporaries its code reads and writes are in the frame, no pushes and
pops change them, and distinct variables have distinct slots. -/
def StaysInside (b : CompiledBlock) : Prop :=
  (∀ code stores vals a, FrameRun code b.scopes stores vals a →
    ∀ i ∈ b.bytecodes, ∀ n, i.tempSlot = some n → n < a.temps.length ∧
      ∀ s s' rest stack, Chain s (a :: rest) → Operands s a.stack s' stack →
        frameTemp s'.mem s'.fp n = frameTemp s.mem s.fp n) ∧
    ∀ v w : Variable, v.Declared b.scopes → w.Declared b.scopes →
      v.slot b.scopes = w.slot b.scopes → v = w

/-- The code names no temporary of its own too far up for the arguments. -/
def OwnTempsFit (b : CompiledBlock) : Prop :=
  ∀ own outer, b.scopes = own :: outer → ∀ u ∈ b.uses, ∀ i,
    cgTempIndex own u.name = some i → own.args.length + i < own.temps.length

/-- Methods whose number says how many temporaries they have. -/
def numberedCode : Nat → CompiledMethod := fun m => ⟨m, 0, 0⟩

/-- Every nesting of scopes has a frame. -/
theorem exists_frame (own : Scope) (outer : List Scope) (vals : Event → Nat) :
    ∃ stores a, FrameRun numberedCode (own :: outer) stores vals a := by
  induction outer generalizing own vals with
  | nil => exact ⟨_, _, @FrameRun.method numberedCode own vals own.temps.length 0 0 rfl⟩
  | cons o rest ih =>
    obtain ⟨stores, maker, hmaker⟩ := ih o fun e => vals e.inward
    exact ⟨_, _, @FrameRun.block numberedCode own (o :: rest) stores vals maker
      ⟨0, 0, own.temps.length, maker.args.reverse ++ maker.temps⟩ 0 0 hmaker rfl rfl⟩

/-- The temporaries of the block's code are in the frame exactly when the condition holds. -/
theorem BlockOf.staysInside_iff {b : CompiledBlock} {own : Scope} {outer : List Scope}
    (h : BlockOf b own outer) : StaysInside b ↔ OwnTempsFit b := by
  have hscopes := h.scopes
  constructor
  · rintro ⟨hinside, -⟩ own' outer' hsame u hu i hi
    obtain ⟨rfl, rfl⟩ := List.cons.inj (hscopes.symm.trans hsame)
    obtain ⟨ins, hins⟩ : ∃ ins, u.instruction own outer = some ins := by
      unfold Use.instruction
      rw [Use.target_own hi]
      exact ⟨_, rfl⟩
    obtain ⟨v, hv, hslot⟩ := Use.instruction_slot hins
    obtain rfl := Option.some.inj ((Use.target_own hi).symm.trans hv)
    obtain ⟨stores, a, hframe⟩ := exists_frame own outer fun _ => 0
    have hlt := (hinside numberedCode stores _ a (hscopes ▸ hframe) ins
      (h.code.written u hu ins hins) _ hslot).1
    have hslotOf : (⟨0, true, i⟩ : Variable).slot (own :: outer)
        = own.closureOffset + (own.args.length + i) := rfl
    rw [hframe.temps_length h.nested, hslotOf] at hlt
    omega
  · intro hfit
    refine ⟨fun code stores vals a hframe ins hins n hn => ?_, fun v w hv hw hslot => ?_⟩
    · rw [hscopes] at hframe
      obtain ⟨u, hu, hof⟩ := h.code.used ins hins (by rw [hn]; exact Option.some_ne_none n)
      obtain ⟨v, hv, hslot⟩ := Use.instruction_slot hof
      obtain rfl := Option.some.inj (hn.symm.trans hslot)
      have hlt : v.slot (own :: outer) < a.temps.length := by
        rw [hframe.temps_length h.nested]
        rcases Use.target_cases hv with ⟨i, hi, rfl⟩ | ⟨w, hw, rfl⟩
        · have hroom := hfit own outer hscopes u hu i hi
          show own.closureOffset + (own.args.length + i) < _
          omega
        · have hbelow := Variable.slot_lt h.nested hw
          rw [Variable.inward_slot]
          omega
      exact ⟨hlt, fun s s' rest stack hchain hops => hops.temp hchain hlt⟩
    · rw [hscopes] at hv hw hslot
      exact Variable.slot_inj h.nested hv hw hslot

/-- A place of the table that has been left empty has no code. -/
theorem empty_staysInside : StaysInside .empty ∧ OwnTempsFit .empty :=
  ⟨⟨fun _ _ _ _ _ _ hi => absurd hi List.not_mem_nil, fun v w hv => by
    obtain ⟨s, hat, -⟩ := hv
    cases hat⟩, fun _ _ hscopes => by cases hscopes⟩

/-- **Block temporaries and the frame.**  Of the blocks of every method the compiler accepts,
those whose code names no own temporary too far up stay inside their frames, and no others. -/
theorem blockTemps_inside_iff {fuel : Nat} {header : List Name} {targetClass : TargetClass}
    {source : List Char} {compiled : CompiledBody} {s : CgState}
    (h : bcCodegenMethod fuel header targetClass source = .ok compiled s) {b : CompiledBlock}
    (hb : b ∈ compiled.blocks) : StaysInside b ↔ OwnTempsFit b := by
  rcases bcCodegenMethod_table h b hb with rfl | ⟨own, outer, hblock⟩
  · exact iff_of_true empty_staysInside.1 empty_staysInside.2
  · exact hblock.staysInside_iff

/-! ## §4. Two methods. -/

/-- The blocks of a method that is accepted. -/
def acceptedBlocks (fuel : Nat) (source : String) : Option (List CompiledBlock) :=
  match bcCodegenMethod fuel [] none source.toList with
  | .ok compiled _ => some compiled.blocks
  | _ => none

theorem acceptedBlocks_some {fuel : Nat} {source : String} {blocks : List CompiledBlock}
    (h : acceptedBlocks fuel source = some blocks) :
    ∃ compiled s, bcCodegenMethod fuel [] none source.toList = .ok compiled s
      ∧ compiled.blocks = blocks := by
  unfold acceptedBlocks at h
  cases hrun : bcCodegenMethod fuel [] none source.toList with
  | ok compiled s =>
    rw [hrun] at h
    exact ⟨compiled, s, rfl, Option.some.inj h⟩
  | rejected s =>
    rw [hrun] at h
    cases h
  | outOfFuel =>
    rw [hrun] at h
    cases h

/-- A block with a temporary. -/
def tempBlock : CompiledBlock where
  bytecodes := [.pushLiteral 0, .storeTemp 0, .pushTemp 0, .ret]
  argCount := 0
  tempCount := 1
  literals := [{ type := .integer, text := ['3'], intValue := 3 }]
  scopes := [⟨[], [['t']], 0⟩, ⟨[], [], 0⟩]
  uses := [.assign ['t'], .read ['t']]

/-- A block with an argument and a temporary, which has the slot behind the frame's only one. -/
def argTempBlock : CompiledBlock where
  bytecodes := [.pushArg 0, .storeTemp 1, .pushTemp 1, .ret]
  argCount := 1
  tempCount := 1
  literals := []
  scopes := [⟨[['x']], [['t']], 0⟩, ⟨[], [], 0⟩]
  uses := [.read ['x'], .assign ['t'], .read ['t']]

theorem tempBlock_inside : ∃ compiled s, bcCodegenMethod 20 [] none
      "^ [| t | t := 3. t] value".toList = .ok compiled s ∧
    tempBlock ∈ compiled.blocks ∧ StaysInside tempBlock := by
  obtain ⟨compiled, s, hrun, hblocks⟩ := acceptedBlocks_some
    (show acceptedBlocks 20 "^ [| t | t := 3. t] value" = some [tempBlock] by decide +kernel)
  have hmem : tempBlock ∈ compiled.blocks := by
    rw [hblocks]
    exact List.mem_cons_self
  refine ⟨compiled, s, hrun, hmem, (blockTemps_inside_iff hrun hmem).mpr ?_⟩
  rintro own outer hscopes u hu i hi
  obtain ⟨rfl, rfl⟩ := List.cons.inj hscopes
  have hlt : i < 1 := indexOfName_lt hi
  show 0 + i < 1
  omega

theorem argTempBlock_outside : ∃ compiled s, bcCodegenMethod 20 [] none
      "^ [:x | | t | t := x. t] value: 3".toList = .ok compiled s ∧
    argTempBlock ∈ compiled.blocks ∧ ¬StaysInside argTempBlock := by
  obtain ⟨compiled, s, hrun, hblocks⟩ := acceptedBlocks_some
    (show acceptedBlocks 20 "^ [:x | | t | t := x. t] value: 3" = some [argTempBlock]
      by decide +kernel)
  have hmem : argTempBlock ∈ compiled.blocks := by
    rw [hblocks]
    exact List.mem_cons_self
  refine ⟨compiled, s, hrun, hmem, ?_⟩
  rintro ⟨hinside, -⟩
  obtain ⟨stores, a, hframe⟩ := exists_frame ⟨[['x']], [['t']], 0⟩ [⟨[], [], 0⟩] fun _ => 0
  have hlt := (hinside _ _ _ a hframe (.pushTemp 1) (by decide) 1 rfl).1
  rw [hframe.temps_length ⟨rfl, rfl⟩] at hlt
  exact absurd hlt (by decide)

end LivingObjects.Compiler
