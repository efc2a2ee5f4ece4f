/-
  LivingObjects.Smalltalk.OperandStack — bytecodes on an operand stack.

  The bytecodes as `interpret` runs them, for what they do with the operands and the
  temporaries of one frame.  A send gives any value back, and both ways of a conditional jump
  are open.

  A segment of code goes from one depth to another: `Segment` says so for every offset in it,
  and segments are put together in sequence and to loops.
-/
import Mathlib

namespace LivingObjects.Smalltalk

/-! ## §1. Instructions. -/

inductive Instruction where
  /-- A value that does not depend on the operands, with the size of the instruction. -/
  | push (size : Nat)
  | pushTemp (index : Nat)
  | storeInstVar (index : Nat)
  | storeTemp (index : Nat)
  | send (argCount : Nat)
  | return
  | jump (offset : Nat)
  | jumpIf (offset : Nat)
  | pop
  | duplicate
deriving DecidableEq, Repr

def byteAt (code : List Nat) (offset : Nat) : Nat := code[offset]?.getD 0

/-- `read_u32`. -/
def readU32 (code : List Nat) (offset : Nat) : Nat :=
  byteAt code offset + 256 * byteAt code (offset + 1) + 65536 * byteAt code (offset + 2) +
    16777216 * byteAt code (offset + 3)

/-- The instruction at an offset. -/
def decode (code : List Nat) (offset : Nat) : Option Instruction :=
  match code[offset]? with
  | some 0 | some 1 | some 14 | some 15 | some 18 => some (.push 5)
  | some 2 => some (.pushTemp (readU32 code (offset + 1)))
  | some 3 | some 17 => some (.push 1)
  | some 4 => some (.storeInstVar (readU32 code (offset + 1)))
  | some 5 => some (.storeTemp (readU32 code (offset + 1)))
  | some 6 => some (.send (readU32 code (offset + 5)))
  | some 7 | some 13 | some 16 => some .return
  | some 8 => some (.jump (readU32 code (offset + 1)))
  | some 9 | some 10 => some (.jumpIf (readU32 code (offset + 1)))
  | some 11 => some .pop
  | some 12 => some .duplicate
  | _ => none

namespace Instruction

def size : Instruction → Nat
  | push size => size
  | pushTemp _ | storeInstVar _ | storeTemp _ | jump _ | jumpIf _ => 5
  | send _ => 9
  | .return | pop | duplicate => 1

/-- The operands that an instruction reads or takes. -/
def needs : Instruction → Nat
  | push _ | pushTemp _ | jump _ => 0
  | storeInstVar _ | storeTemp _ | .return | jumpIf _ | pop | duplicate => 1
  | send argCount => argCount + 1

/-- The depth behind an instruction. -/
def after : Instruction → Nat → Nat
  | push _, depth | pushTemp _, depth | duplicate, depth => depth + 1
  | storeInstVar _, depth | storeTemp _, depth | jumpIf _, depth | pop, depth => depth - 1
  | send argCount, depth => depth - argCount
  | jump _, depth | .return, depth => depth

/-- Where an instruction at an offset goes on. -/
def targets : Instruction → Nat → List Nat
  | .return, _ => []
  | jump target, _ => [target]
  | jumpIf target, offset => [offset + 5, target]
  | instruction, offset => [offset + instruction.size]

end Instruction

/-! ## §2. Running. -/

/-- A frame while its code runs: values are words. -/
structure Config where
  offset : Nat
  stack : List Nat
  temps : Nat → Nat

/-- One instruction on the operands and the temporaries. -/
inductive Effect : Instruction → List Nat → (Nat → Nat) → List Nat → (Nat → Nat) → Prop
  | push {size value : Nat} {stack : List Nat} {temps : Nat → Nat} :
      Effect (.push size) stack temps (value :: stack) temps
  | pushTemp {index : Nat} {stack : List Nat} {temps : Nat → Nat} :
      Effect (.pushTemp index) stack temps (temps index :: stack) temps
  | storeInstVar {index value : Nat} {stack : List Nat} {temps : Nat → Nat} :
      Effect (.storeInstVar index) (value :: stack) temps stack temps
  | storeTemp {index value : Nat} {stack : List Nat} {temps : Nat → Nat} :
      Effect (.storeTemp index) (value :: stack) temps stack (Function.update temps index value)
  | send {argCount value : Nat} {operands stack : List Nat} {temps : Nat → Nat}
      (h : operands.length = argCount + 1) :
      Effect (.send argCount) (operands ++ stack) temps (value :: stack) temps
  | jump {target : Nat} {stack : List Nat} {temps : Nat → Nat} :
      Effect (.jump target) stack temps stack temps
  | jumpIf {target value : Nat} {stack : List Nat} {temps : Nat → Nat} :
      Effect (.jumpIf target) (value :: stack) temps stack temps
  | pop {value : Nat} {stack : List Nat} {temps : Nat → Nat} :
      Effect .pop (value :: stack) temps stack temps
  | duplicate {value : Nat} {stack : List Nat} {temps : Nat → Nat} :
      Effect .duplicate (value :: stack) temps (value :: value :: stack) temps

/-- One step of the code. -/
inductive Step (code : List Nat) : Config → Config → Prop
  | intro {c : Config} {instruction : Instruction} {next : Nat} {stack : List Nat}
      {temps : Nat → Nat} (hdecode : decode code c.offset = some instruction)
      (hnext : next ∈ instruction.targets c.offset)
      (heffect : Effect instruction c.stack c.temps stack temps) :
      Step code c ⟨next, stack, temps⟩

/-- A run from some place on, until it leaves a part of the code. -/
inductive Within (code : List Nat) (start finish : Nat) (c : Config) : Config → Prop
  | refl : Within code start finish c c
  | step {d e : Config} (h : Within code start finish c d) (hstart : start ≤ d.offset)
      (hfinish : d.offset < finish) (hstep : Step code d e) : Within code start finish c e

/-- **Discipline of a part of the code.**  From any operands and temporaries, every offset in
it has one depth whatever the way there, no instruction takes an operand that the part has not
pushed, and behind it there is one value more. -/
def Disciplined (code : List Nat) (start finish : Nat) : Prop :=
  ∃ depth : Nat → Nat, depth finish = 1 ∧
    ∀ stack temps c, Within code start finish ⟨start, stack, temps⟩ c →
      ∃ operands, c.stack = operands ++ stack ∧ operands.length = depth c.offset ∧
        (c.offset = finish ∨ (start ≤ c.offset ∧ c.offset < finish) ∧
          ∃ instruction, decode code c.offset = some instruction ∧
            instruction.needs ≤ operands.length)

/-- **Discipline of a code that is run on an empty stack:** the same, and the return at its end
finds one value. -/
def Returns (code : List Nat) (start : Nat) : Prop :=
  ∃ depth : Nat → Nat, ∀ temps c, Within code start code.length ⟨start, [], temps⟩ c →
    c.stack.length = depth c.offset ∧ c.offset < code.length ∧
      ∃ instruction, decode code c.offset = some instruction ∧
        instruction.needs ≤ c.stack.length ∧
        (c.offset + 1 = code.length → instruction = .return ∧ c.stack.length = 1)

/-! ## §3. Segments. -/

/-- What is known at an offset of a segment: the instruction there has its operands and ends in
the segment, and the offsets it goes on to have the depth behind it. -/
structure Flows (code : List Nat) (depthAt : Nat → Option Nat) (start finish offset depth : Nat) :
    Prop where
  lower : start ≤ offset
  upper : offset < finish
  next : ∃ instruction, decode code offset = some instruction ∧
    offset + instruction.size ≤ finish ∧ instruction.needs ≤ depth ∧
    ∀ target ∈ instruction.targets offset, depthAt target = some (instruction.after depth)

/-- Code that goes from one depth to another. -/
def Segment (code : List Nat) (start depth finish last : Nat) : Prop :=
  ∃ depthAt : Nat → Option Nat, depthAt start = some depth ∧
    ∀ offset d, depthAt offset = some d →
      offset = finish ∧ d = last ∨ Flows code depthAt start finish offset d

namespace Segment

variable {code : List Nat} {start depth finish last : Nat}

theorem le (h : Segment code start depth finish last) : start ≤ finish := by
  obtain ⟨depthAt, hstart, hflows⟩ := h
  rcases hflows _ _ hstart with ⟨heq, _⟩ | hflow
  · exact Nat.le_of_eq heq
  · exact Nat.le_of_lt hflow.upper

theorem refl (code : List Nat) (offset depth : Nat) :
    Segment code offset depth offset depth := by
  refine ⟨fun o => if o = offset then some depth else none, if_pos rfl, ?_⟩
  intro o d hd
  dsimp only at hd
  split at hd
  · injection hd with hd
    exact .inl ⟨‹_›, hd.symm⟩
  · exact nomatch hd

/-- One instruction that goes on behind itself. -/
theorem single {instruction : Instruction} (hdecode : decode code start = some instruction)
    (hneeds : instruction.needs ≤ depth) (hsize : 0 < instruction.size)
    (htargets : instruction.targets start = [start + instruction.size]) :
    Segment code start depth (start + instruction.size) (instruction.after depth) := by
  have hne : start ≠ start + instruction.size := by omega
  refine ⟨fun o => if o = start then some depth
    else if o = start + instruction.size then some (instruction.after depth) else none,
    if_pos rfl, ?_⟩
  intro o d hd
  dsimp only at hd
  by_cases hfirst : o = start
  · rw [if_pos hfirst] at hd
    injection hd with hd
    subst hfirst hd
    refine .inr ⟨Nat.le_refl _, by omega, instruction, hdecode, Nat.le_refl _, hneeds, ?_⟩
    intro target htarget
    rw [htargets, List.mem_singleton] at htarget
    rw [htarget, if_neg hne.symm, if_pos rfl]
  · rw [if_neg hfirst] at hd
    split at hd
    · injection hd with hd
      exact .inl ⟨‹_›, hd.symm⟩
    · exact nomatch hd

/-- A return ends a segment at any depth. -/
theorem ends {instruction : Instruction} (hdecode : decode code start = some instruction)
    (hreturn : instruction = .return) (hdepth : 1 ≤ depth) :
    Segment code start depth (start + 1) last := by
  subst hreturn
  refine ⟨fun o => if o = start then some depth else none, if_pos rfl, ?_⟩
  intro o d hd
  dsimp only at hd
  split at hd
  · rename_i heq
    injection hd with hd
    subst heq hd
    exact .inr ⟨Nat.le_refl _, Nat.lt_succ_self _, _, hdecode, Nat.le_refl _, hdepth, nofun⟩
  · exact nomatch hd

/-- One segment behind another. -/
theorem trans {middle between : Nat} (h : Segment code start depth middle between)
    (hnext : Segment code middle between finish last) :
    Segment code start depth finish last := by
  have hle := h.le
  have hle' := hnext.le
  obtain ⟨first, hfirst, hflows⟩ := h
  obtain ⟨second, hsecond, hflows'⟩ := hnext
  have hbound : ∀ {o d}, first o = some d → o < middle ∨ o = middle ∧ d = between := by
    intro o d hd
    rcases hflows o d hd with hend | hflow
    · exact .inr hend
    · exact .inl hflow.upper
  have hjoin : ∀ {o d}, first o = some d →
      (if o < middle then first o else second o) = some d := by
    intro o d hd
    rcases hbound hd with hlt | ⟨rfl, rfl⟩
    · rw [if_pos hlt, hd]
    · rw [if_neg (Nat.lt_irrefl _), hsecond]
  have hlater : ∀ {o d}, second o = some d → middle ≤ o := by
    intro o d hd
    rcases hflows' o d hd with ⟨heq, _⟩ | hflow
    · omega
    · exact hflow.lower
  refine ⟨fun o => if o < middle then first o else second o, hjoin hfirst, ?_⟩
  intro o d hd
  dsimp only at hd
  by_cases hlt : o < middle
  · rw [if_pos hlt] at hd
    rcases hflows o d hd with ⟨heq, _⟩ | ⟨hstart, _, instruction, hdecode, hsize, hneeds, hnext⟩
    · omega
    · exact .inr ⟨hstart, by omega, instruction, hdecode, by omega, hneeds,
        fun target htarget => hjoin (hnext target htarget)⟩
  · rw [if_neg hlt] at hd
    rcases hflows' o d hd with hend | ⟨hstart, hfinish, instruction, hdecode, hsize, hneeds, hnext⟩
    · exact .inl hend
    · refine .inr ⟨by omega, hfinish, instruction, hdecode, hsize, hneeds, ?_⟩
      intro target htarget
      have htarget := hnext target htarget
      have hge := hlater htarget
      rw [if_neg (by omega), htarget]

/-- A loop: the exit test takes the value of the condition, and the value of the body is
dropped before the jump back. -/
theorem loop {test body : Nat} (hcondition : Segment code start depth test (depth + 1))
    (htest : decode code test = some (.jumpIf (body + 6)))
    (hbody : Segment code (test + 5) depth body (depth + 1))
    (hpop : decode code body = some .pop) (hjump : decode code (body + 1) = some (.jump start)) :
    Segment code start depth (body + 6) depth := by
  have hle := hcondition.le
  have hle' := hbody.le
  obtain ⟨first, hfirst, hflows⟩ := hcondition
  obtain ⟨second, hsecond, hflows'⟩ := hbody
  have hne : start ≠ test := by
    intro heq
    rcases hflows _ _ hfirst with ⟨_, hd⟩ | hflow
    · omega
    · have := hflow.upper
      omega
  -- the depth at every offset of the loop, piece by piece
  have hjoined : ∃ depthAt : Nat → Option Nat,
      (∀ o, o < test → depthAt o = first o) ∧ depthAt test = some (depth + 1) ∧
      (∀ o, test < o → o < test + 5 → depthAt o = none) ∧
      (∀ o, test + 5 ≤ o → o < body → depthAt o = second o) ∧
      depthAt body = some (depth + 1) ∧ depthAt (body + 1) = some depth ∧
      depthAt (body + 6) = some depth ∧
      ∀ o, body < o → o ≠ body + 1 → o ≠ body + 6 → depthAt o = none := by
    refine ⟨fun o => if o < test then first o else if o = test then some (depth + 1)
      else if o < test + 5 then none else if o < body then second o
      else if o = body then some (depth + 1) else if o = body + 1 then some depth
      else if o = body + 6 then some depth else none, ?_, ?_, ?_, ?_, ?_, ?_, ?_, ?_⟩
    · intro o ho
      exact if_pos ho
    · dsimp only
      rw [if_neg (Nat.lt_irrefl _), if_pos rfl]
    · intro o ho ho'
      dsimp only
      rw [if_neg (by omega), if_neg (by omega), if_pos ho']
    · intro o ho ho'
      dsimp only
      rw [if_neg (by omega), if_neg (by omega), if_neg (by omega), if_pos ho']
    · dsimp only
      rw [if_neg (by omega), if_neg (by omega), if_neg (by omega), if_neg (Nat.lt_irrefl _),
        if_pos rfl]
    · dsimp only
      rw [if_neg (by omega), if_neg (by omega), if_neg (by omega), if_neg (by omega),
        if_neg (by omega), if_pos rfl]
    · dsimp only
      rw [if_neg (by omega), if_neg (by omega), if_neg (by omega), if_neg (by omega),
        if_neg (by omega), if_neg (by omega), if_pos rfl]
    · intro o ho hone hsix
      dsimp only
      rw [if_neg (by omega), if_neg (by omega), if_neg (by omega), if_neg (by omega),
        if_neg (by omega), if_neg hone, if_neg hsix]
  obtain ⟨depthAt, hone, htwo, hgap, hthree, hfour, hfive, hsix, hrest⟩ := hjoined
  have hfirstAt : ∀ {o d}, first o = some d → depthAt o = some d := by
    intro o d hd
    rcases hflows o d hd with ⟨rfl, rfl⟩ | hflow
    · exact htwo
    · rw [hone o hflow.upper, hd]
  have hsecondAt : ∀ {o d}, second o = some d → depthAt o = some d := by
    intro o d hd
    rcases hflows' o d hd with ⟨rfl, rfl⟩ | hflow
    · exact hfour
    · rw [hthree o hflow.lower hflow.upper, hd]
  refine ⟨depthAt, hfirstAt hfirst, ?_⟩
  intro o d hd
  by_cases hcondition : o < test
  · rw [hone o hcondition] at hd
    rcases hflows o d hd with ⟨heq, _⟩ | ⟨hlower, _, instruction, hdecode, hsize, hneeds, hnext⟩
    · omega
    · exact .inr ⟨hlower, by omega, instruction, hdecode, by omega, hneeds,
        fun target htarget => hfirstAt (hnext target htarget)⟩
  by_cases htestAt : o = test
  · rw [htestAt, htwo] at hd
    injection hd with hd
    subst htestAt hd
    refine .inr ⟨hle, by omega, _, htest, ?_, Nat.succ_le_succ (Nat.zero_le _), ?_⟩
    · show o + 5 ≤ _
      omega
    · intro target htarget
      rcases List.mem_cons.mp htarget with rfl | htarget
      · exact hsecondAt hsecond
      · rw [List.mem_singleton.mp htarget]
        exact hsix
  by_cases hbetween : o < test + 5
  · rw [hgap o (by omega) hbetween] at hd
    exact nomatch hd
  by_cases hinner : o < body
  · rw [hthree o (by omega) hinner] at hd
    rcases hflows' o d hd with ⟨heq, _⟩ | ⟨hlower, _, instruction, hdecode, hsize, hneeds, hnext⟩
    · omega
    · exact .inr ⟨by omega, by omega, instruction, hdecode, by omega, hneeds,
        fun target htarget => hsecondAt (hnext target htarget)⟩
  by_cases hbodyAt : o = body
  · rw [hbodyAt, hfour] at hd
    injection hd with hd
    subst hbodyAt hd
    refine .inr ⟨by omega, by omega, _, hpop, ?_, Nat.succ_le_succ (Nat.zero_le _), ?_⟩
    · show o + 1 ≤ _
      omega
    · intro target htarget
      rw [List.mem_singleton.mp htarget]
      exact hfive
  by_cases hjumpAt : o = body + 1
  · rw [hjumpAt, hfive] at hd
    injection hd with hd
    subst hd
    rw [hjumpAt]
    refine .inr ⟨by omega, by omega, _, hjump, ?_, Nat.zero_le _, ?_⟩
    · show body + 1 + 5 ≤ _
      omega
    · intro target htarget
      rw [List.mem_singleton.mp htarget]
      exact hfirstAt hfirst
  by_cases hend : o = body + 6
  · rw [hend, hsix] at hd
    injection hd with hd
    exact .inl ⟨hend, hd.symm⟩
  · rw [hrest o (by omega) hjumpAt hend] at hd
    exact nomatch hd

end Segment

theorem decode_size {code : List Nat} {offset : Nat} {instruction : Instruction}
    (h : decode code offset = some instruction) : 0 < instruction.size := by
  rw [decode] at h
  split at h <;> cases h <;> exact Nat.succ_pos _

/-- The bytes of an instruction are its own. -/
theorem decode_congr {code other : List Nat} {offset finish : Nat} {instruction : Instruction}
    (hdecode : decode code offset = some instruction)
    (hsize : offset + instruction.size ≤ finish)
    (hsame : ∀ o, offset ≤ o → o < finish → other[o]? = code[o]?) :
    decode other offset = some instruction := by
  have hpositive : 0 < instruction.size := decode_size hdecode
  have hread : ∀ k, offset + k + 4 ≤ finish →
      readU32 other (offset + k) = readU32 code (offset + k) := by
    intro k hk
    rw [readU32, readU32, byteAt, byteAt, byteAt, byteAt, byteAt, byteAt, byteAt, byteAt,
      hsame _ (by omega) (by omega), hsame _ (by omega) (by omega),
      hsame _ (by omega) (by omega), hsame _ (by omega) (by omega)]
  rw [decode, hsame offset (Nat.le_refl _) (by omega)]
  rw [decode] at hdecode
  split at hdecode <;> cases hdecode
  all_goals first
    | rfl
    | exact congrArg (some ∘ Instruction.pushTemp) (hread 1 hsize)
    | exact congrArg (some ∘ Instruction.storeInstVar) (hread 1 hsize)
    | exact congrArg (some ∘ Instruction.storeTemp) (hread 1 hsize)
    | exact congrArg (some ∘ Instruction.send) (hread 5 hsize)
    | exact congrArg (some ∘ Instruction.jump) (hread 1 hsize)
    | exact congrArg (some ∘ Instruction.jumpIf) (hread 1 hsize)

theorem Segment.congr {code other : List Nat} {start depth finish last : Nat}
    (h : Segment code start depth finish last)
    (hsame : ∀ o, start ≤ o → o < finish → other[o]? = code[o]?) :
    Segment other start depth finish last := by
  obtain ⟨depthAt, hstart, hflows⟩ := h
  refine ⟨depthAt, hstart, ?_⟩
  intro o d hd
  rcases hflows o d hd with hend | ⟨hlower, hupper, instruction, hdecode, hsize, hneeds, hnext⟩
  · exact .inl hend
  · have hother := decode_congr hdecode hsize fun o ho => hsame o (by omega)
    exact .inr ⟨hlower, hupper, instruction, hother, hsize, hneeds, hnext⟩

/-! ## §4. Running a segment. -/

/-- An instruction that has its operands leaves the values below them alone. -/
theorem Effect.frame {instruction : Instruction} {operands base stack : List Nat}
    {temps temps' : Nat → Nat} (h : Effect instruction (operands ++ base) temps stack temps')
    (hneeds : instruction.needs ≤ operands.length) :
    ∃ left, stack = left ++ base ∧ left.length = instruction.after operands.length := by
  obtain ⟨full, hfull⟩ : ∃ full, operands ++ base = full := ⟨_, rfl⟩
  rw [hfull] at h
  -- what an instruction takes is the first of the operands
  have htop : ∀ {value : Nat} {rest : List Nat}, full = value :: rest → 1 ≤ operands.length →
      ∃ left, operands = value :: left ∧ rest = left ++ base := by
    intro value rest heq hlength
    cases operands with
    | nil => exact absurd hlength (by decide)
    | cons top left =>
      obtain ⟨rfl, hrest⟩ := List.cons.inj (hfull.trans heq)
      exact ⟨left, rfl, hrest.symm⟩
  cases h with
  | push => exact ⟨_ :: operands, by rw [← hfull]; rfl, rfl⟩
  | pushTemp => exact ⟨_ :: operands, by rw [← hfull]; rfl, rfl⟩
  | jump => exact ⟨operands, hfull.symm, rfl⟩
  | storeInstVar | storeTemp | jumpIf | pop =>
    obtain ⟨left, rfl, hrest⟩ := htop rfl hneeds
    exact ⟨left, hrest, rfl⟩
  | duplicate =>
    obtain ⟨left, rfl, hrest⟩ := htop rfl hneeds
    exact ⟨_ :: _ :: left, by rw [hrest]; rfl, rfl⟩
  | @send argCount value taken rest temps hlength =>
    replace hneeds : argCount + 1 ≤ operands.length := hneeds
    obtain ⟨left, rfl, hrest⟩ : ∃ left, operands = taken ++ left ∧ rest = left ++ base := by
      rcases List.append_eq_append_iff.mp hfull with ⟨more, htaken, hbase⟩ | ⟨more, hop, hrest⟩
      · have hmore : more = [] := by
          rw [htaken, List.length_append] at hlength
          exact List.length_eq_zero_iff.mp (by omega)
        rw [hmore, List.append_nil] at htaken
        rw [hmore, List.nil_append] at hbase
        exact ⟨[], by rw [htaken, List.append_nil], hbase.symm⟩
      · exact ⟨more, hop, hrest⟩
    refine ⟨value :: left, by rw [hrest]; rfl, ?_⟩
    rw [List.length_append, List.length_cons]
    show _ = taken.length + left.length - argCount
    omega

theorem Segment.disciplined {code : List Nat} {start finish : Nat}
    (h : Segment code start 0 finish 1) : Disciplined code start finish := by
  obtain ⟨depthAt, hstart, hflows⟩ := h
  refine ⟨fun o => if o = finish then 1 else (depthAt o).getD 0, if_pos rfl, ?_⟩
  intro stack temps c hrun
  have hdepth : ∃ operands, c.stack = operands ++ stack ∧
      depthAt c.offset = some operands.length := by
    induction hrun with
    | refl => exact ⟨[], rfl, hstart⟩
    | step _ hlower hupper hstep ih =>
      obtain ⟨operands, hstack, hdepth⟩ := ih
      obtain ⟨hdecode, hnext, heffect⟩ := hstep
      rcases hflows _ _ hdepth with ⟨heq, _⟩ | hflow
      · omega
      · obtain ⟨instruction, hdecode', _, hneeds, htargets⟩ := hflow.next
        injection hdecode.symm.trans hdecode' with hsame
        subst hsame
        rw [hstack] at heffect
        obtain ⟨left, hleft, hlength⟩ := heffect.frame hneeds
        exact ⟨left, hleft, by rw [hlength]; exact htargets _ hnext⟩
  obtain ⟨operands, hstack, hdepth⟩ := hdepth
  refine ⟨operands, hstack, ?_⟩
  rcases hflows _ _ hdepth with ⟨heq, hlength⟩ | hflow
  · refine ⟨?_, .inl heq⟩
    dsimp only
    rw [if_pos heq, hlength]
  · obtain ⟨instruction, hdecode, _, hneeds, _⟩ := hflow.next
    have hne : c.offset ≠ finish := Nat.ne_of_lt hflow.upper
    refine ⟨?_, .inr ⟨⟨hflow.lower, hflow.upper⟩, instruction, hdecode, hneeds⟩⟩
    dsimp only
    rw [if_neg hne, hdepth]
    rfl

/-- Below what an instruction needs, more operands stay. -/
theorem Instruction.after_add {instruction : Instruction} {depth : Nat} (k : Nat)
    (h : instruction.needs ≤ depth) :
    instruction.after (depth + k) = instruction.after depth + k := by
  cases instruction with
  | push | pushTemp | duplicate => exact Nat.add_right_comm depth k 1
  | jump | «return» => rfl
  | storeInstVar | storeTemp | jumpIf | pop =>
    replace h : 1 ≤ depth := h
    show depth + k - 1 = depth - 1 + k
    omega
  | send argCount =>
    replace h : argCount + 1 ≤ depth := h
    show depth + k - argCount = depth - argCount + k
    omega

theorem Segment.shift {code : List Nat} {start depth finish last : Nat}
    (h : Segment code start depth finish last) (k : Nat) :
    Segment code start (depth + k) finish (last + k) := by
  obtain ⟨depthAt, hstart, hflows⟩ := h
  refine ⟨fun o => (depthAt o).map (· + k), ?_, ?_⟩
  · dsimp only
    rw [hstart]
    rfl
  · intro o d hd
    obtain ⟨inner, hinner, rfl⟩ := Option.map_eq_some_iff.mp hd
    rcases hflows o inner hinner with ⟨heq, hlast⟩ | ⟨hlower, hupper, instruction, hdecode, hsize,
      hneeds, hnext⟩
    · exact .inl ⟨heq, by rw [hlast]⟩
    · refine .inr ⟨hlower, hupper, instruction, hdecode, hsize, by omega, ?_⟩
      intro target htarget
      rw [hnext target htarget, Instruction.after_add k hneeds]
      rfl

/-- Nothing goes on behind a return. -/
theorem Within.before_return {code : List Nat} {start finish : Nat} {c d : Config}
    (hreturn : decode code finish = some .return) (h : Within code start (finish + 1) c d) :
    Within code start finish c d := by
  induction h with
  | refl => exact .refl
  | @step d e _ hlower hupper hstep ih =>
    refine .step ih hlower ?_ hstep
    obtain ⟨hdecode, hnext, _⟩ := hstep
    have hne : d.offset ≠ finish := by
      intro heq
      rw [heq] at hdecode
      injection hdecode.symm.trans hreturn with hsame
      rw [hsame] at hnext
      exact nomatch hnext
    omega

/-- A disciplined code with a return behind it. -/
theorem Disciplined.returns {code : List Nat} {start finish : Nat}
    (h : Disciplined code start finish) (hreturn : decode code finish = some .return)
    (hlength : code.length = finish + 1) : Returns code start := by
  obtain ⟨depth, hlast, hruns⟩ := h
  refine ⟨depth, ?_⟩
  intro temps c hrun
  rw [hlength] at hrun
  obtain ⟨operands, hstack, hdepth, hplace⟩ := hruns [] temps c (hrun.before_return hreturn)
  rw [List.append_nil] at hstack
  rw [hstack, hlength]
  rcases hplace with heq | ⟨⟨_, hupper⟩, instruction, hdecode, hneeds⟩
  · have hone : operands.length = 1 := by
      rw [hdepth, heq, hlast]
    rw [heq]
    exact ⟨heq ▸ hdepth, Nat.lt_succ_self _, .return, hreturn, Nat.le_of_eq hone.symm,
      fun _ => ⟨rfl, hone⟩⟩
  · refine ⟨hdepth, by omega, instruction, hdecode, hneeds, ?_⟩
    intro hend
    omega

end LivingObjects.Smalltalk
