/-
  LivingObjects.Compiler.Scopes — the numbering of the variables of nested blocks.

  The slots of a block's frame are numbered through its scopes from the outside in: for
  each scope its arguments, then its temporaries.  Every variable has a slot of its own
  in this numbering, and the variables around a block have theirs below the block's.
-/
import LivingObjects.Compiler.Codegen

namespace LivingObjects.Compiler

open LivingObjects.Lib

/-! ## §1. Nested scopes. -/

/-- Where the slots of the blocks of a scope begin. -/
def Scope.nextOffset (s : Scope) : Nat := s.closureOffset + s.args.length + s.temps.length

/-- The scopes of a body, its own first; the last one is that of the method. -/
def Nested : List Scope → Prop
  | [] => True
  | [s] => s.closureOffset = 0
  | s :: outer :: rest => s.closureOffset = outer.nextOffset ∧ Nested (outer :: rest)

theorem Nested.tail {s : Scope} {outer : List Scope} (h : Nested (s :: outer)) : Nested outer := by
  cases outer with
  | nil => trivial
  | cons o rest => exact h.2

/-- What the scopes around a scope declare. -/
def slotsOf (outer : List Scope) : Nat := (outer.map fun s => s.args.length + s.temps.length).sum

theorem Nested.offset {s : Scope} {outer : List Scope} (h : Nested (s :: outer)) :
    s.closureOffset = slotsOf outer := by
  induction outer generalizing s with
  | nil => exact h
  | cons o rest ih =>
    obtain ⟨hoffset, hrest⟩ := h
    have hsum : slotsOf (o :: rest) = o.args.length + o.temps.length + slotsOf rest :=
      List.sum_cons
    rw [hoffset, Scope.nextOffset, ih hrest, hsum]
    omega

/-! ## §2. Variables and their slots. -/

/-- A variable of the scopes: how far out it is declared, and where. -/
structure Variable where
  depth : Nat
  isTemp : Bool
  index : Nat
deriving DecidableEq, Repr

/-- The same variable, seen from a scope further in. -/
def Variable.inward (v : Variable) : Variable := { v with depth := v.depth + 1 }

def Scope.count (s : Scope) (isTemp : Bool) : Nat := if isTemp then s.temps.length else s.args.length

def Scope.slot (s : Scope) (isTemp : Bool) (index : Nat) : Nat :=
  s.closureOffset + (if isTemp then s.args.length + index else index)

/-- The variable exists. -/
def Variable.Declared (scopes : List Scope) (v : Variable) : Prop :=
  ∃ s, scopes[v.depth]? = some s ∧ v.index < s.count v.isTemp

/-- Its slot in the frames of the innermost scope. -/
def Variable.slot (scopes : List Scope) (v : Variable) : Nat :=
  match scopes[v.depth]? with
  | some s => s.slot v.isTemp v.index
  | none => 0

@[simp] theorem Variable.inward_slot (s : Scope) (outer : List Scope) (v : Variable) :
    v.inward.slot (s :: outer) = v.slot outer := rfl

theorem Variable.inward_declared {s : Scope} {outer : List Scope} {v : Variable} :
    v.inward.Declared (s :: outer) ↔ v.Declared outer := Iff.rfl

theorem Scope.slot_bounds {s : Scope} {isTemp : Bool} {index : Nat} (h : index < s.count isTemp) :
    s.closureOffset ≤ s.slot isTemp index ∧ s.slot isTemp index < s.nextOffset := by
  cases isTemp with
  | false =>
    have h' : index < s.args.length := h
    show _ ≤ s.closureOffset + index ∧ s.closureOffset + index < _
    unfold Scope.nextOffset
    omega
  | true =>
    have h' : index < s.temps.length := h
    show _ ≤ s.closureOffset + (s.args.length + index) ∧ s.closureOffset + (s.args.length + index) < _
    unfold Scope.nextOffset
    omega

/-- Within a scope the slots are distinct. -/
theorem Scope.slot_inj {s : Scope} {isTemp isTemp' : Bool} {index index' : Nat}
    (h : index < s.count isTemp) (h' : index' < s.count isTemp')
    (hslot : s.slot isTemp index = s.slot isTemp' index') : isTemp = isTemp' ∧ index = index' := by
  cases isTemp <;> cases isTemp' <;> simp only [Scope.slot, Scope.count, if_true, if_false,
    Bool.false_eq_true] at h h' hslot
  · exact ⟨rfl, by omega⟩
  · omega
  · omega
  · exact ⟨rfl, by omega⟩

/-- **What is declared around a scope lies below its slots.** -/
theorem Variable.slot_lt {s : Scope} {outer : List Scope} (h : Nested (s :: outer)) {v : Variable}
    (hv : v.Declared outer) : v.slot outer < s.closureOffset := by
  induction outer generalizing s v with
  | nil =>
    obtain ⟨o, hat, -⟩ := hv
    cases hat
  | cons o rest ih =>
    obtain ⟨hoffset, hrest⟩ := h
    obtain ⟨t, hat, hindex⟩ := hv
    rw [hoffset]
    cases hdepth : v.depth with
    | zero =>
      rw [hdepth, List.getElem?_cons_zero] at hat
      obtain rfl := Option.some.inj hat
      unfold Variable.slot
      rw [hdepth, List.getElem?_cons_zero]
      exact (Scope.slot_bounds hindex).2
    | succ d =>
      have hrestVar : ({ v with depth := d } : Variable).Declared rest := by
        refine ⟨t, ?_, hindex⟩
        rw [hdepth, List.getElem?_cons_succ] at hat
        exact hat
      have hlt := ih hrest hrestVar
      have hslot : v.slot (o :: rest) = ({ v with depth := d } : Variable).slot rest := by
        unfold Variable.slot
        rw [hdepth, List.getElem?_cons_succ]
      have hle : o.closureOffset ≤ o.nextOffset := by
        unfold Scope.nextOffset
        omega
      omega

/-- **Distinct variables have distinct slots.** -/
theorem Variable.slot_inj {scopes : List Scope} (h : Nested scopes) {v w : Variable}
    (hv : v.Declared scopes) (hw : w.Declared scopes) (hslot : v.slot scopes = w.slot scopes) :
    v = w := by
  induction scopes generalizing v w with
  | nil =>
    obtain ⟨o, hat, -⟩ := hv
    cases hat
  | cons s outer ih =>
    obtain ⟨vdepth, vtemp, vindex⟩ := v
    obtain ⟨wdepth, wtemp, windex⟩ := w
    cases vdepth with
    | zero =>
      obtain ⟨t, hat, hindex⟩ := hv
      obtain rfl := Option.some.inj hat
      cases wdepth with
      | zero =>
        obtain ⟨t, hat', hindex'⟩ := hw
        obtain rfl := Option.some.inj hat'
        obtain ⟨rfl, rfl⟩ := Scope.slot_inj hindex hindex' hslot
        rfl
      | succ d =>
        have hlt := Variable.slot_lt h (v := ⟨d, wtemp, windex⟩) hw
        have hle : s.closureOffset ≤ s.slot vtemp vindex := (Scope.slot_bounds hindex).1
        have hslot' : s.slot vtemp vindex = (⟨d, wtemp, windex⟩ : Variable).slot outer := hslot
        omega
    | succ d =>
      cases wdepth with
      | zero =>
        obtain ⟨t, hat, hindex⟩ := hw
        obtain rfl := Option.some.inj hat
        have hlt := Variable.slot_lt h (v := ⟨d, vtemp, vindex⟩) hv
        have hle : s.closureOffset ≤ s.slot wtemp windex := (Scope.slot_bounds hindex).1
        have hslot' : (⟨d, vtemp, vindex⟩ : Variable).slot outer = s.slot wtemp windex := hslot
        omega
      | succ e =>
        have hsame := ih h.tail (v := ⟨d, vtemp, vindex⟩) (w := ⟨e, wtemp, windex⟩) hv hw hslot
        injection hsame with hdepth htemp hindex
        rw [hdepth, htemp, hindex]

/-! ## §3. What a name denotes. -/

theorem indexOfName_lt {names : List Name} {name : Name} {i : Nat}
    (h : indexOfName names name = some i) : i < names.length := by
  unfold indexOfName at h
  exact (List.findIdx?_eq_some_iff_getElem.mp h).1

/-- The variable that `cg_outer_temp_slot` finds. -/
def outerTemp : List Scope → Name → Option Variable
  | [], _ => none
  | scope :: outer, name =>
    match indexOfName scope.temps name with
    | some index => some ⟨0, true, index⟩
    | none => (outerTemp outer name).map Variable.inward

/-- The variable that `cg_outer_arg_slot` finds. -/
def outerArg : List Scope → Name → Option Variable
  | [], _ => none
  | scope :: outer, name =>
    match indexOfName scope.args name with
    | some index => some ⟨0, false, index⟩
    | none => (outerArg outer name).map Variable.inward

theorem cgOuterTempSlot_eq (scopes : List Scope) (name : Name) :
    cgOuterTempSlot scopes name = (outerTemp scopes name).map (Variable.slot scopes) := by
  induction scopes with
  | nil => rfl
  | cons s outer ih =>
    rw [cgOuterTempSlot, outerTemp]
    cases indexOfName s.temps name with
    | some i => exact congrArg some (Nat.add_assoc _ _ _)
    | none =>
      show cgOuterTempSlot outer name = _
      rw [ih, Option.map_map]
      rfl

theorem cgOuterArgSlot_eq (scopes : List Scope) (name : Name) :
    cgOuterArgSlot scopes name = (outerArg scopes name).map (Variable.slot scopes) := by
  induction scopes with
  | nil => rfl
  | cons s outer ih =>
    rw [cgOuterArgSlot, outerArg]
    cases indexOfName s.args name with
    | some i => rfl
    | none =>
      show cgOuterArgSlot outer name = _
      rw [ih, Option.map_map]
      rfl

theorem outerTemp_declared {scopes : List Scope} {name : Name} {v : Variable}
    (h : outerTemp scopes name = some v) : v.Declared scopes ∧ v.isTemp = true := by
  induction scopes generalizing v with
  | nil => cases h
  | cons s outer ih =>
    rw [outerTemp] at h
    cases hindex : indexOfName s.temps name with
    | some i =>
      rw [hindex] at h
      obtain rfl := Option.some.inj h
      exact ⟨⟨s, rfl, indexOfName_lt hindex⟩, rfl⟩
    | none =>
      rw [hindex] at h
      obtain ⟨w, hw, rfl⟩ := Option.map_eq_some_iff.mp h
      exact ih hw

theorem outerArg_declared {scopes : List Scope} {name : Name} {v : Variable}
    (h : outerArg scopes name = some v) : v.Declared scopes ∧ v.isTemp = false := by
  induction scopes generalizing v with
  | nil => cases h
  | cons s outer ih =>
    rw [outerArg] at h
    cases hindex : indexOfName s.args name with
    | some i =>
      rw [hindex] at h
      obtain rfl := Option.some.inj h
      exact ⟨⟨s, rfl, indexOfName_lt hindex⟩, rfl⟩
    | none =>
      rw [hindex] at h
      obtain ⟨w, hw, rfl⟩ := Option.map_eq_some_iff.mp h
      exact ih hw

/-- The variable a use of a name in a block goes to, in a slot of the block's frame; an
argument of the block itself has none. -/
def Use.target (own : Scope) (outer : List Scope) : Use → Option Variable
  | .read name =>
    match cgTempIndex own name with
    | some index => some ⟨0, true, index⟩
    | none =>
      if (cgArgIndex own name).isSome then none
      else
        match outerArg outer name with
        | some v => some v.inward
        | none => (outerTemp outer name).map Variable.inward
  | .assign name =>
    match cgTempIndex own name with
    | some index => some ⟨0, true, index⟩
    | none => (outerTemp outer name).map Variable.inward

/-- A use goes to a variable that is declared. -/
theorem Use.target_declared {own : Scope} {outer : List Scope} {u : Use} {v : Variable}
    (h : u.target own outer = some v) : v.Declared (own :: outer) := by
  have hown : ∀ {name i}, cgTempIndex own name = some i →
      (⟨0, true, i⟩ : Variable).Declared (own :: outer) := fun hi =>
    ⟨own, rfl, indexOfName_lt hi⟩
  have houter : ∀ {name}, (outerTemp outer name).map Variable.inward = some v →
      v.Declared (own :: outer) := by
    intro name hname
    obtain ⟨w, hw, rfl⟩ := Option.map_eq_some_iff.mp hname
    exact (outerTemp_declared hw).1
  cases u with
  | read name =>
    simp only [Use.target] at h
    split at h
    · rename_i i hi
      obtain rfl := Option.some.inj h
      exact hown hi
    · split at h
      · cases h
      · split at h
        · rename_i w hw
          obtain rfl := Option.some.inj h
          exact (outerArg_declared hw).1
        · exact houter h
  | assign name =>
    simp only [Use.target] at h
    split at h
    · rename_i i hi
      obtain rfl := Option.some.inj h
      exact hown hi
    · exact houter h

end LivingObjects.Compiler
