/-
  LivingObjects.Compiler.Resolution — which declaration a name denotes.

  A read looks through the arguments of all the scopes around a block before it looks
  through their temporaries, an assignment looks through temporaries only, and the tables
  keep 31 bytes of a name.  `resolution_iff` says for which declarations every name
  denotes its innermost one all the same; `shadowed_argument` is a temporary that an
  argument further out hides.
-/
import LivingObjects.Compiler.Scopes

namespace LivingObjects.Compiler

open LivingObjects.Lib

/-! ## §1. Declarations. -/

/-- A scope, with the names as the source has them. -/
structure Declared where
  args : List Name
  temps : List Name

def Declared.names (d : Declared) (isTemp : Bool) : List Name := if isTemp then d.temps else d.args

def Declared.Declares (d : Declared) (name : Name) : Prop := name ∈ d.args ∨ name ∈ d.temps

/-- The tables of nested scopes, the innermost first. -/
def scopesOf : List Declared → List Scope
  | [] => []
  | d :: outer =>
    { args := d.args.map nameField
      temps := d.temps.map nameField
      closureOffset := slotsOf (scopesOf outer) } :: scopesOf outer

/-- A body: that of the method has no scope around it. -/
def envOf (own : Declared) (outer : List Declared) (targetClass : TargetClass) : Env :=
  { scope :=
      { args := own.args.map nameField
        temps := own.temps.map nameField
        closureOffset := slotsOf (scopesOf outer) }
    outer := scopesOf outer
    inBlock := !outer.isEmpty
    targetClass := targetClass }

/-- The names that are no variables. -/
def Reserved (name : Name) : Prop :=
  name = "self".toList ∨ name = "super".toList ∨ name = "thisContext".toList ∨
    name = "nil".toList ∨ name = "true".toList ∨ name = "false".toList

/-! ## §2. Lexical scope. -/

/-- The variable is a declaration of the name, and no scope further in has one. -/
def Innermost (scopes : List Declared) (name : Name) (v : Variable) : Prop :=
  (∃ d, scopes[v.depth]? = some d ∧ (d.names v.isTemp)[v.index]? = some name) ∧
    ∀ d ∈ scopes.take v.depth, ¬ d.Declares name

/-- The slot of a variable that is not an argument of the body itself. -/
def frameSlot (env : Env) (v : Variable) : Nat :=
  if v.depth = 0 ∧ v.isTemp then cgLocalTempSlot env v.index else v.slot env.enclose

def readInstruction (env : Env) (v : Variable) : Instruction :=
  if v.depth = 0 ∧ v.isTemp = false then .pushArg v.index else .pushTemp (frameSlot env v)

/-- An instance variable if there is one, else a global. -/
def readOther (env : Env) (name : Name) : Cg Unit := do
  match ← cgInstVarIndex env name with
  | some index => emit (.pushInstVar index)
  | none =>
    let index ← cgLiteralIndex { makeToken .classRef with text := name }
    emit (.pushGlobal index)

def assignOther (env : Env) (name : Name) (value : Cg Unit) : Cg Unit := do
  match ← cgInstVarIndex env name with
  | some index =>
    value
    emit (.storeInstVar index)
  | none => .reject

section Claims

variable (own : Declared) (outer : List Declared) (targetClass : TargetClass) (name : Name)

/-- A read of the name follows lexical scope. -/
structure ReadsInnermost : Prop where
  declared : (∃ d ∈ own :: outer, d.Declares name) →
    ∃ v, Innermost (own :: outer) name v ∧ ∀ token : BToken, token.text = name →
      cgEmitIdentifier (envOf own outer targetClass) token
        = emitUse (readInstruction (envOf own outer targetClass) v) (.read name)
  undeclared : (∀ d ∈ own :: outer, ¬ d.Declares name) → ¬ Reserved name →
    ∀ token : BToken, token.text = name →
      cgEmitIdentifier (envOf own outer targetClass) token
        = readOther (envOf own outer targetClass) name

/-- So does an assignment, where the compiler accepts it. -/
structure AssignsInnermost : Prop where
  declared : (∃ d ∈ own :: outer, d.Declares name) →
    (∃ v, Innermost (own :: outer) name v ∧ ∀ value : Cg Unit,
      cgEmitAssignment (envOf own outer targetClass) name value = (do
        value
        emitUse (.storeTemp (frameSlot (envOf own outer targetClass) v)) (.assign name))) ∨
    ∀ value s, cgEmitAssignment (envOf own outer targetClass) name value s = .rejected s
  undeclared : (∀ d ∈ own :: outer, ¬ d.Declares name) → ∀ value : Cg Unit,
    cgEmitAssignment (envOf own outer targetClass) name value
      = assignOther (envOf own outer targetClass) name value

end Claims

/-- **The declarations for which the order of the searches does not matter.** -/
structure Unshadowed (own : Declared) (outer : List Declared) (targetClass : TargetClass) :
    Prop where
  /-- The tables hold the names. -/
  short : ∀ d ∈ own :: outer, ∀ name, d.Declares name → name.length ≤ 31
  unreserved : ∀ d ∈ own :: outer, ∀ name, d.Declares name → ¬ Reserved name
  /-- A temporary around the body that has a namesake among the arguments further out has one
  among those up to its own scope. -/
  reads : ∀ name, ¬ own.Declares name → ∀ near t far, outer = near ++ t :: far →
    name ∈ t.temps → (∃ a ∈ far, name ∈ a.args) → ∃ a ∈ near ++ [t], name ∈ a.args
  /-- A name whose innermost declaration is an argument is that of no temporary further out
  and of no instance variable. -/
  assigns : ∀ name near a far, own :: outer = near ++ a :: far →
    (∀ d ∈ near, ¬ d.Declares name) → name ∈ a.args → name ∉ a.temps →
    (∀ d ∈ far, name ∉ d.temps) ∧ ∃ index, targetClass = some index ∧ index name = none

/-! ## §3. The searches. -/

/-- The search of one kind of names, scope by scope. -/
def findVariable (isTemp : Bool) : List (List Name) → Name → Option Variable
  | [], _ => none
  | names :: rest, name =>
    match indexOfName names name with
    | some index => some ⟨0, isTemp, index⟩
    | none => (findVariable isTemp rest name).map Variable.inward

/-- What the compiler has of the names of one kind. -/
def tables (scopes : List Declared) (isTemp : Bool) : List (List Name) :=
  scopes.map fun d => (d.names isTemp).map nameField

theorem outerTemp_eq (scopes : List Declared) (name : Name) :
    outerTemp (scopesOf scopes) name = findVariable true (tables scopes true) name := by
  induction scopes with
  | nil => rfl
  | cons d outer ih =>
    rw [scopesOf, outerTemp, ih]
    rfl

theorem outerArg_eq (scopes : List Declared) (name : Name) :
    outerArg (scopesOf scopes) name = findVariable false (tables scopes false) name := by
  induction scopes with
  | nil => rfl
  | cons d outer ih =>
    rw [scopesOf, outerArg, ih]
    rfl

theorem indexOfName_eq_none {names : List Name} {name : Name} :
    indexOfName names name = none ↔ name ∉ names := by
  unfold indexOfName
  rw [List.findIdx?_eq_none_iff]
  constructor
  · intro h hmem
    have hat := h name hmem
    simp at hat
  · intro h x hx
    have hne : x ≠ name := fun heq => h (heq ▸ hx)
    simpa using hne

theorem indexOfName_get {names : List Name} {name : Name} {i : Nat}
    (h : indexOfName names name = some i) : names[i]? = some name := by
  unfold indexOfName at h
  obtain ⟨hlt, hat, -⟩ := List.findIdx?_eq_some_iff_getElem.mp h
  rw [List.getElem?_eq_getElem hlt, beq_iff_eq.mp hat]

theorem findVariable_eq_none {isTemp : Bool} {tables : List (List Name)} {name : Name} :
    findVariable isTemp tables name = none ↔ ∀ names ∈ tables, name ∉ names := by
  induction tables with
  | nil => simp [findVariable]
  | cons names rest ih =>
    rw [findVariable, List.forall_mem_cons]
    cases hindex : indexOfName names name with
    | none =>
      have hno := indexOfName_eq_none.mp hindex
      simp [ih, hno]
    | some i =>
      have hmem := List.mem_of_getElem? (indexOfName_get hindex)
      simp [hmem]

/-- The first scope that has the name is where it is found. -/
theorem findVariable_append {isTemp : Bool} {near far : List (List Name)} {names : List Name}
    {name : Name} {i : Nat} (hnear : ∀ ns ∈ near, name ∉ ns)
    (hi : indexOfName names name = some i) :
    findVariable isTemp (near ++ names :: far) name = some ⟨near.length, isTemp, i⟩ := by
  induction near with
  | nil =>
    rw [List.nil_append, findVariable, hi]
    rfl
  | cons ns near ih =>
    obtain ⟨hfirst, hrest⟩ := List.forall_mem_cons.mp hnear
    rw [List.cons_append, findVariable, indexOfName_eq_none.mpr hfirst]
    show Option.map _ (findVariable isTemp (near ++ names :: far) name) = _
    rw [ih hrest]
    rfl

/-- The variable of a read. -/
def searchRead (own : Declared) (outer : List Declared) (name : Name) : Option Variable :=
  match indexOfName (own.temps.map nameField) name with
  | some index => some ⟨0, true, index⟩
  | none =>
  match indexOfName (own.args.map nameField) name with
  | some index => some ⟨0, false, index⟩
  | none =>
  match findVariable false (tables outer false) name with
  | some v => some v.inward
  | none => (findVariable true (tables outer true) name).map Variable.inward

/-- The variable of an assignment. -/
def searchAssign (own : Declared) (outer : List Declared) (name : Name) : Option Variable :=
  match indexOfName (own.temps.map nameField) name with
  | some index => some ⟨0, true, index⟩
  | none => (findVariable true (tables outer true) name).map Variable.inward

section Search

variable {own : Declared} {outer : List Declared} {targetClass : TargetClass} {name : Name}

theorem cgEmitIdentifier_eq (hname : ¬ Reserved name) {token : BToken} (htext : token.text = name) :
    cgEmitIdentifier (envOf own outer targetClass) token
      = match searchRead own outer name with
        | some v => emitUse (readInstruction (envOf own outer targetClass) v) (.read name)
        | none => readOther (envOf own outer targetClass) name := by
  subst htext
  unfold Reserved at hname
  simp only [not_or] at hname
  obtain ⟨hself, hsuper, hcontext, hnil, htrue, hfalse⟩ := hname
  have hargs : cgOuterArgSlot (scopesOf outer) token.text
      = (findVariable false (tables outer false) token.text).map (Variable.slot (scopesOf outer)) := by
    rw [cgOuterArgSlot_eq, outerArg_eq]
  have htemps : cgOuterTempSlot (scopesOf outer) token.text
      = (findVariable true (tables outer true) token.text).map (Variable.slot (scopesOf outer)) := by
    rw [cgOuterTempSlot_eq, outerTemp_eq]
  unfold cgEmitIdentifier
  dsimp only
  rw [if_neg (not_or.mpr ⟨hself, hsuper⟩), if_neg hcontext,
    if_neg (not_or.mpr ⟨hnil, not_or.mpr ⟨htrue, hfalse⟩⟩)]
  unfold searchRead
  show (match indexOfName (own.temps.map nameField) token.text with
    | some index => _
    | none => _) = _
  cases indexOfName (own.temps.map nameField) token.text with
  | some i => rfl
  | none =>
    show (match indexOfName (own.args.map nameField) token.text with
      | some index => _
      | none => _) = _
    cases indexOfName (own.args.map nameField) token.text with
    | some i => rfl
    | none =>
      show (match cgOuterArgSlot (scopesOf outer) token.text with
        | some slot => _
        | none => _) = _
      rw [hargs]
      cases findVariable false (tables outer false) token.text with
      | some v => rfl
      | none =>
        show (match cgOuterTempSlot (scopesOf outer) token.text with
          | some slot => _
          | none => _) = _
        rw [htemps]
        cases findVariable true (tables outer true) token.text with
        | some v => rfl
        | none => rfl

theorem cgEmitAssignment_eq (value : Cg Unit) :
    cgEmitAssignment (envOf own outer targetClass) name value
      = match searchAssign own outer name with
        | some v => (do
            value
            emitUse (.storeTemp (frameSlot (envOf own outer targetClass) v)) (.assign name))
        | none => assignOther (envOf own outer targetClass) name value := by
  have htemps : cgOuterTempSlot (scopesOf outer) name
      = (findVariable true (tables outer true) name).map (Variable.slot (scopesOf outer)) := by
    rw [cgOuterTempSlot_eq, outerTemp_eq]
  unfold cgEmitAssignment searchAssign
  show (match indexOfName (own.temps.map nameField) name with
    | some index => _
    | none => _) = _
  cases indexOfName (own.temps.map nameField) name with
  | some i => rfl
  | none =>
    show (match cgOuterTempSlot (scopesOf outer) name with
      | some slot => _
      | none => _) = _
    rw [htemps]
    cases findVariable true (tables outer true) name with
    | some v => rfl
    | none => rfl

end Search

/-! ## §4. Slots. -/

theorem scopesOf_nested (scopes : List Declared) : Nested (scopesOf scopes) := by
  induction scopes with
  | nil => trivial
  | cons d outer ih =>
    cases outer with
    | nil => rfl
    | cons o rest =>
      refine ⟨?_, ih⟩
      show slotsOf (scopesOf (o :: rest)) = slotsOf (scopesOf rest) + _ + _
      rw [scopesOf, slotsOf, List.map_cons, List.sum_cons]
      show _ + slotsOf (scopesOf rest) = _
      omega

theorem scopesOf_getElem? (scopes : List Declared) (n : Nat) (isTemp : Bool) :
    ((scopesOf scopes)[n]?).map (Scope.count · isTemp)
      = (scopes[n]?).map fun d => (d.names isTemp).length := by
  induction scopes generalizing n with
  | nil => rfl
  | cons d outer ih =>
    cases n with
    | zero => cases isTemp <;> simp [scopesOf, Scope.count, Declared.names]
    | succ n => exact ih n

theorem Innermost.declared {scopes : List Declared} {name : Name} {v : Variable}
    (h : Innermost scopes name v) : v.Declared (scopesOf scopes) := by
  obtain ⟨⟨d, hd, hname⟩, -⟩ := h
  have hcount := scopesOf_getElem? scopes v.depth v.isTemp
  rw [hd] at hcount
  obtain ⟨s, hs, hlength⟩ := Option.map_eq_some_iff.mp hcount
  refine ⟨s, hs, ?_⟩
  rw [hlength]
  exact (List.getElem?_eq_some_iff.mp hname).1

/-- The slot tells the variable in a block. -/
theorem frameSlot_eq {own : Declared} {outer : List Declared} (targetClass : TargetClass)
    (hblock : outer ≠ []) (v : Variable) :
    frameSlot (envOf own outer targetClass) v = v.slot (scopesOf (own :: outer)) := by
  unfold frameSlot
  split
  · next h =>
    obtain ⟨hdepth, htemp⟩ := h
    have hin : (envOf own outer targetClass).inBlock = true := by
      cases outer with
      | nil => exact absurd rfl hblock
      | cons _ _ => rfl
    unfold cgLocalTempSlot Variable.slot
    rw [hdepth, if_pos hin]
    show _ = Scope.slot _ v.isTemp v.index
    rw [htemp]
    exact Nat.add_assoc _ _ _
  · rfl

theorem frameSlot_inj {own : Declared} {outer : List Declared} {targetClass : TargetClass}
    (hblock : outer ≠ []) {v w : Variable} (hv : v.Declared (scopesOf (own :: outer)))
    (hw : w.Declared (scopesOf (own :: outer)))
    (hslot : frameSlot (envOf own outer targetClass) v = frameSlot (envOf own outer targetClass) w) :
    v = w := by
  rw [frameSlot_eq targetClass hblock, frameSlot_eq targetClass hblock] at hslot
  exact Variable.slot_inj (scopesOf_nested _) hv hw hslot

/-! ## §5. What the code shows. -/

/-- The code and the uses after a run from the start. -/
def written (m : Cg Unit) : Option (List Instruction × List Use) :=
  match m (.init [] []) with
  | .ok _ s => some (s.code, s.uses)
  | _ => none

theorem written_emitUse (i : Instruction) (u : Use) : written (emitUse i u) = some ([i], [u]) := rfl

/-- Instance variables and globals leave no use. -/
theorem written_readOther (env : Env) (name : Name) :
    ∃ i, written (readOther env name) = some ([i], []) := by
  cases hclass : env.targetClass with
  | none =>
    refine ⟨.pushInstVar 0, ?_⟩
    unfold written readOther cgInstVarIndex
    rw [hclass]
    rfl
  | some index =>
    cases hindex : index name with
    | some i =>
      refine ⟨.pushInstVar i, ?_⟩
      unfold written readOther cgInstVarIndex
      rw [hclass]
      simp only [hindex]
      rfl
    | none =>
      refine ⟨.pushGlobal 0, ?_⟩
      unfold written readOther cgInstVarIndex
      rw [hclass]
      simp only [hindex]
      rfl

theorem written_reserved (env : Env) {name : Name} (h : Reserved name) :
    ∃ i, written (cgEmitIdentifier env { makeToken .identifier with text := name })
      = some ([i], []) := by
  rcases h with rfl | rfl | rfl | rfl | rfl | rfl
  all_goals exact ⟨_, rfl⟩

theorem reserved_length {name : Name} (h : Reserved name) : name.length ≤ 31 := by
  rcases h with rfl | rfl | rfl | rfl | rfl | rfl
  all_goals decide

theorem not_mem_map_nameField {names : List Name} {name : Name} (h : 31 < name.length) :
    name ∉ names.map nameField := by
  intro hmem
  obtain ⟨full, -, hfull⟩ := List.mem_map.mp hmem
  have hle : (nameField full).length ≤ 31 := by
    unfold nameField
    rw [List.length_take]
    exact Nat.min_le_left 31 _
  rw [hfull] at hle
  omega

theorem map_nameField {names : List Name} (h : ∀ name ∈ names, name.length ≤ 31) :
    names.map nameField = names := by
  refine (List.map_congr_left fun name hname => ?_).trans (List.map_id names)
  exact List.take_of_length_le (h name hname)

/-! ## §6. The innermost declaration. -/

theorem exists_innermost {scopes : List Declared} {name : Name}
    (h : ∃ d ∈ scopes, d.Declares name) :
    ∃ near a far, scopes = near ++ a :: far ∧ a.Declares name ∧
      ∀ d ∈ near, ¬ d.Declares name := by
  induction scopes with
  | nil =>
    obtain ⟨d, hd, -⟩ := h
    cases hd
  | cons d rest ih =>
    by_cases hd : d.Declares name
    · exact ⟨[], d, rest, rfl, hd, fun x hx => by cases hx⟩
    · have hrest : ∃ x ∈ rest, x.Declares name := by
        obtain ⟨x, hx, hname⟩ := h
        rcases List.mem_cons.mp hx with rfl | hx
        · exact absurd hname hd
        · exact ⟨x, hx, hname⟩
      obtain ⟨near, a, far, rfl, ha, hnear⟩ := ih hrest
      exact ⟨d :: near, a, far, rfl, ha, List.forall_mem_cons.mpr ⟨hd, hnear⟩⟩

theorem innermost_of_split {near far : List Declared} {a : Declared} {name : Name}
    {isTemp : Bool} {i : Nat} (hnear : ∀ d ∈ near, ¬ d.Declares name)
    (hi : (a.names isTemp)[i]? = some name) :
    Innermost (near ++ a :: far) name ⟨near.length, isTemp, i⟩ := by
  constructor
  · refine ⟨a, ?_, hi⟩
    show (near ++ a :: far)[near.length]? = some a
    rw [List.getElem?_append_right (Nat.le_refl _), Nat.sub_self]
    rfl
  · show ∀ d ∈ (near ++ a :: far).take near.length, ¬ d.Declares name
    rw [List.take_left']
    · exact hnear
    · rfl

theorem innermost_own {own : Declared} (outer : List Declared) {name : Name} {isTemp : Bool}
    {i : Nat} (hi : indexOfName (own.names isTemp) name = some i) :
    Innermost (own :: outer) name ⟨0, isTemp, i⟩ :=
  @innermost_of_split [] outer own name isTemp i (fun d hd => (by cases hd)) (indexOfName_get hi)

/-- It is in the first scope that declares the name. -/
theorem Innermost.depth_eq {near far : List Declared} {a : Declared} {name : Name} {v : Variable}
    (h : Innermost (near ++ a :: far) name v) (hnear : ∀ d ∈ near, ¬ d.Declares name)
    (ha : a.Declares name) : v.depth = near.length ∧ (a.names v.isTemp)[v.index]? = some name := by
  obtain ⟨⟨d, hd, hname⟩, hfirst⟩ := h
  have hdeclares : d.Declares name := by
    have hmem := List.mem_of_getElem? hname
    cases htemp : v.isTemp with
    | false =>
      rw [htemp] at hmem
      exact Or.inl hmem
    | true =>
      rw [htemp] at hmem
      exact Or.inr hmem
  have hdepth : v.depth = near.length := by
    rcases Nat.lt_trichotomy v.depth near.length with hlt | heq | hgt
    · rw [List.getElem?_append_left hlt] at hd
      exact absurd hdeclares (hnear d (List.mem_of_getElem? hd))
    · exact heq
    · refine absurd ha (hfirst a ?_)
      rw [List.mem_take_iff_getElem]
      refine ⟨near.length, ?_, ?_⟩
      · rw [List.length_append, List.length_cons]
        omega
      · rw [List.getElem_append_right (Nat.le_refl _)]
        simp
  rw [hdepth, List.getElem?_append_right (Nat.le_refl _), Nat.sub_self] at hd
  obtain rfl := Option.some.inj hd
  exact ⟨hdepth, hname⟩

/-- The names of one kind, as the compiler has them when they are short. -/
theorem tables_eq {scopes : List Declared} (isTemp : Bool)
    (hshort : ∀ d ∈ scopes, ∀ name, d.Declares name → name.length ≤ 31) :
    tables scopes isTemp = scopes.map fun d => d.names isTemp := by
  refine List.map_congr_left fun d hd => map_nameField fun name hname => hshort d hd name ?_
  cases isTemp with
  | false => exact Or.inl hname
  | true => exact Or.inr hname

/-! ## §7. When every name denotes its innermost declaration. -/

section Exact

variable {own : Declared} {outer : List Declared} {targetClass : TargetClass}

/-- With short names the searches look at the names as they are written. -/
structure Searches (own : Declared) (outer : List Declared) : Prop where
  read : ∀ name, searchRead own outer name =
    match indexOfName own.temps name with
    | some index => some ⟨0, true, index⟩
    | none =>
    match indexOfName own.args name with
    | some index => some ⟨0, false, index⟩
    | none =>
    match findVariable false (outer.map fun d => d.names false) name with
    | some v => some v.inward
    | none => (findVariable true (outer.map fun d => d.names true) name).map Variable.inward
  assign : ∀ name, searchAssign own outer name =
    match indexOfName own.temps name with
    | some index => some ⟨0, true, index⟩
    | none => (findVariable true (outer.map fun d => d.names true) name).map Variable.inward

theorem searches (hshort : ∀ d ∈ own :: outer, ∀ name, d.Declares name → name.length ≤ 31) :
    Searches own outer := by
  obtain ⟨hown, houter⟩ := List.forall_mem_cons.mp hshort
  have hargs := map_nameField fun name hname => hown name (Or.inl hname)
  have htemps := map_nameField fun name hname => hown name (Or.inr hname)
  constructor
  · intro name
    unfold searchRead
    rw [hargs, htemps, tables_eq false houter, tables_eq true houter]
  · intro name
    unfold searchAssign
    rw [htemps, tables_eq true houter]

theorem forall_names {scopes : List Declared} {isTemp : Bool} {name : Name}
    (h : ∀ d ∈ scopes, name ∉ d.names isTemp) :
    ∀ names ∈ scopes.map (fun d => d.names isTemp), name ∉ names := by
  intro names hnames
  obtain ⟨d, hd, rfl⟩ := List.mem_map.mp hnames
  exact h d hd

theorem find_split {near far : List Declared} {a : Declared} {isTemp : Bool} {name : Name}
    {i : Nat} (hnear : ∀ d ∈ near, name ∉ d.names isTemp)
    (hi : indexOfName (a.names isTemp) name = some i) :
    findVariable isTemp ((near ++ a :: far).map fun d => d.names isTemp) name
      = some ⟨near.length, isTemp, i⟩ := by
  rw [List.map_append, List.map_cons, findVariable_append (forall_names hnear) hi, List.length_map]

theorem mem_indexOfName {names : List Name} {name : Name} (h : name ∈ names) :
    ∃ i, indexOfName names name = some i := by
  cases hi : indexOfName names name with
  | some i => exact ⟨i, rfl⟩
  | none => exact absurd h (indexOfName_eq_none.mp hi)

/-- A read finds the innermost declaration. -/
theorem Unshadowed.searchRead (h : Unshadowed own outer targetClass) {name : Name}
    (hdeclared : ∃ d ∈ own :: outer, d.Declares name) :
    ∃ v, searchRead own outer name = some v ∧ Innermost (own :: outer) name v := by
  rw [(searches h.short).read]
  cases htemp : indexOfName own.temps name with
  | some i => exact ⟨_, rfl, innermost_own outer htemp⟩
  | none =>
  cases harg : indexOfName own.args name with
  | some i => exact ⟨_, rfl, innermost_own outer harg⟩
  | none =>
  have hown : ¬ own.Declares name := by
    rintro (hmem | hmem)
    · exact indexOfName_eq_none.mp harg hmem
    · exact indexOfName_eq_none.mp htemp hmem
  have houter : ∃ d ∈ outer, d.Declares name := by
    obtain ⟨d, hd, hname⟩ := hdeclared
    rcases List.mem_cons.mp hd with rfl | hd
    · exact absurd hname hown
    · exact ⟨d, hd, hname⟩
  obtain ⟨near, a, far, rfl, ha, hnear⟩ := exists_innermost houter
  have hin : ∀ {isTemp i}, indexOfName (a.names isTemp) name = some i →
      Innermost (own :: (near ++ a :: far)) name ⟨near.length + 1, isTemp, i⟩ := fun hi =>
    @innermost_of_split (own :: near) far a name _ _ (List.forall_mem_cons.mpr ⟨hown, hnear⟩)
      (indexOfName_get hi)
  by_cases hargs : name ∈ a.args
  · obtain ⟨i, hi⟩ := mem_indexOfName hargs
    have hfind := @find_split near far a false name i
      (fun d hd hmem => hnear d hd (Or.inl hmem)) hi
    refine ⟨⟨near.length + 1, false, i⟩, ?_, hin hi⟩
    dsimp only
    rw [hfind]
    rfl
  · -- no argument further out, or one would be here too
    obtain ⟨i, hi⟩ := mem_indexOfName (ha.resolve_left hargs)
    have hnone : findVariable false ((near ++ a :: far).map fun d => d.names false) name = none := by
      refine findVariable_eq_none.mpr (forall_names fun d hd hmem => ?_)
      rcases List.mem_append.mp hd with hd | hd
      · exact hnear d hd (Or.inl hmem)
      rcases List.mem_cons.mp hd with rfl | hd
      · exact hargs hmem
      obtain ⟨x, hx, hname⟩ := h.reads name hown near a far rfl (ha.resolve_left hargs)
        ⟨d, hd, hmem⟩
      rcases List.mem_append.mp hx with hx | hx
      · exact hnear x hx (Or.inl hname)
      · obtain rfl := List.mem_singleton.mp hx
        exact hargs hname
    have hfind := @find_split near far a true name i
      (fun d hd hmem => hnear d hd (Or.inr hmem)) hi
    refine ⟨⟨near.length + 1, true, i⟩, ?_, hin hi⟩
    dsimp only
    rw [hnone, hfind]
    rfl

/-- An assignment finds it too, or there is nothing to assign to. -/
theorem Unshadowed.searchAssign (h : Unshadowed own outer targetClass) {name : Name}
    (hdeclared : ∃ d ∈ own :: outer, d.Declares name) :
    (∃ v, searchAssign own outer name = some v ∧ Innermost (own :: outer) name v) ∨
      (searchAssign own outer name = none ∧
        ∃ index, targetClass = some index ∧ index name = none) := by
  rw [(searches h.short).assign]
  cases htemp : indexOfName own.temps name with
  | some i => exact Or.inl ⟨_, rfl, innermost_own outer htemp⟩
  | none =>
  have hown : name ∉ own.temps := indexOfName_eq_none.mp htemp
  dsimp only
  obtain ⟨near, a, far, hsplit, ha, hnear⟩ := exists_innermost hdeclared
  by_cases htemps : name ∈ a.temps
  · -- the scope lies around the body
    obtain ⟨i, hi⟩ := mem_indexOfName htemps
    have hin : Innermost (own :: outer) name ⟨near.length, true, i⟩ := by
      rw [hsplit]
      exact innermost_of_split hnear (indexOfName_get hi)
    cases near with
    | nil =>
      obtain ⟨rfl, rfl⟩ := List.cons.inj hsplit
      exact absurd htemps hown
    | cons d near =>
      obtain ⟨rfl, htail⟩ := List.cons.inj hsplit
      obtain rfl : outer = near ++ a :: far := htail
      have hfind := @find_split near far a true name i
        (fun x hx hmem => hnear x (List.mem_cons_of_mem _ hx) (Or.inr hmem)) hi
      refine Or.inl ⟨_, ?_, hin⟩
      rw [hfind]
      rfl
  · obtain ⟨hfar, hclass⟩ := h.assigns name near a far hsplit hnear (ha.resolve_right htemps) htemps
    refine Or.inr ⟨?_, hclass⟩
    have hnone : ∀ d ∈ own :: outer, name ∉ d.temps := by
      intro d hd hmem
      rw [hsplit] at hd
      rcases List.mem_append.mp hd with hd | hd
      · exact hnear d hd (Or.inr hmem)
      rcases List.mem_cons.mp hd with rfl | hd
      · exact htemps hmem
      · exact hfar d hd hmem
    rw [findVariable_eq_none.mpr (forall_names fun d hd => hnone d (List.mem_cons_of_mem _ hd))]
    rfl

/-- What no scope declares is found in none. -/
theorem Unshadowed.search_none (h : Unshadowed own outer targetClass) {name : Name}
    (hnone : ∀ d ∈ own :: outer, ¬ d.Declares name) :
    LivingObjects.Compiler.searchRead own outer name = none ∧
      LivingObjects.Compiler.searchAssign own outer name = none := by
  obtain ⟨hown, houter⟩ := List.forall_mem_cons.mp hnone
  have htemps : indexOfName own.temps name = none :=
    indexOfName_eq_none.mpr fun hmem => hown (Or.inr hmem)
  have hargs : indexOfName own.args name = none :=
    indexOfName_eq_none.mpr fun hmem => hown (Or.inl hmem)
  have houterArgs : findVariable false (outer.map fun d => d.names false) name = none :=
    findVariable_eq_none.mpr (forall_names fun d hd hmem => houter d hd (Or.inl hmem))
  have houterTemps : findVariable true (outer.map fun d => d.names true) name = none :=
    findVariable_eq_none.mpr (forall_names fun d hd hmem => houter d hd (Or.inr hmem))
  constructor
  · rw [(searches h.short).read, htemps, hargs, houterArgs, houterTemps]
    rfl
  · rw [(searches h.short).assign, htemps, houterTemps]
    rfl

theorem Unshadowed.readsInnermost (h : Unshadowed own outer targetClass) (name : Name) :
    ReadsInnermost own outer targetClass name := by
  constructor
  · intro hdeclared
    obtain ⟨v, hsearch, hin⟩ := h.searchRead hdeclared
    refine ⟨v, hin, fun token htext => ?_⟩
    obtain ⟨d, hd, hname⟩ := hdeclared
    rw [cgEmitIdentifier_eq (h.unreserved d hd name hname) htext, hsearch]
  · intro hnone hreserved token htext
    rw [cgEmitIdentifier_eq hreserved htext, (h.search_none hnone).1]

theorem Unshadowed.assignsInnermost (h : Unshadowed own outer targetClass) (name : Name) :
    AssignsInnermost own outer targetClass name := by
  constructor
  · intro hdeclared
    rcases h.searchAssign hdeclared with ⟨v, hsearch, hin⟩ | ⟨hsearch, index, hclass, hindex⟩
    · refine Or.inl ⟨v, hin, fun value => ?_⟩
      rw [cgEmitAssignment_eq, hsearch]
    · refine Or.inr fun value s => ?_
      rw [cgEmitAssignment_eq, hsearch]
      show assignOther (envOf own outer targetClass) name value s = .rejected s
      have hat : cgInstVarIndex (envOf own outer targetClass) name s = .ok none s := by
        unfold cgInstVarIndex envOf
        rw [hclass]
        simp only [Attempt.modifyGet, hindex]
      exact Attempt.bind_ok hat
  · intro hnone value
    rw [cgEmitAssignment_eq, (h.search_none hnone).2]

/-- Reads alone tell that the names are short and no reserved words. -/
theorem ReadsInnermost.short {name : Name} (h : ReadsInnermost own outer targetClass name)
    (hdeclared : ∃ d ∈ own :: outer, d.Declares name) : name.length ≤ 31 ∧ ¬ Reserved name := by
  obtain ⟨v, -, hemit⟩ := h.declared hdeclared
  have hcode := congrArg written (hemit { makeToken .identifier with text := name } rfl)
  rw [written_emitUse] at hcode
  have hreserved : ¬ Reserved name := by
    intro hname
    obtain ⟨i, hi⟩ := written_reserved (envOf own outer targetClass) hname
    rw [hi] at hcode
    cases hcode
  refine ⟨Nat.le_of_not_lt fun hlong => ?_, hreserved⟩
  -- the tables have no such name
  have hnone : LivingObjects.Compiler.searchRead own outer name = none := by
    have hno : ∀ names : List Name, indexOfName (names.map nameField) name = none := fun names =>
      indexOfName_eq_none.mpr (not_mem_map_nameField hlong)
    have hfind : ∀ isTemp, findVariable isTemp (tables outer isTemp) name = none := by
      intro isTemp
      refine findVariable_eq_none.mpr fun names hnames => ?_
      obtain ⟨d, -, rfl⟩ := List.mem_map.mp hnames
      exact not_mem_map_nameField hlong
    unfold LivingObjects.Compiler.searchRead
    rw [hno, hno, hfind, hfind]
    rfl
  rw [cgEmitIdentifier_eq hreserved rfl, hnone] at hcode
  obtain ⟨i, hi⟩ := written_readOther (envOf own outer targetClass) name
  rw [hi] at hcode
  cases hcode

/-- No argument further out is found before a temporary. -/
theorem ReadsInnermost.reads (hshort : ∀ d ∈ own :: outer, ∀ name, d.Declares name → name.length ≤ 31)
    {name : Name} (h : ReadsInnermost own outer targetClass name) (hown : ¬ own.Declares name)
    {near far : List Declared} {t : Declared} (houter : outer = near ++ t :: far)
    (htemp : name ∈ t.temps) (hfar : ∃ a ∈ far, name ∈ a.args) :
    ∃ a ∈ near ++ [t], name ∈ a.args := by
  by_contra hnone
  have hblock : outer ≠ [] := by
    rw [houter]
    exact List.append_ne_nil_of_right_ne_nil _ (List.cons_ne_nil _ _)
  have hmem : t ∈ outer := by
    rw [houter]
    exact List.mem_append_right _ List.mem_cons_self
  have hdeclared : ∃ d ∈ own :: outer, d.Declares name :=
    ⟨t, List.mem_cons_of_mem _ hmem, Or.inr htemp⟩
  have hreserved := (h.short hdeclared).2
  obtain ⟨v, hin, hemit⟩ := h.declared hdeclared
  have hcode := congrArg written (hemit { makeToken .identifier with text := name } rfl)
  -- the read goes to an argument
  obtain ⟨w, hw⟩ : ∃ w, findVariable false (outer.map fun d => d.names false) name = some w := by
    cases hfind : findVariable false (outer.map fun d => d.names false) name with
    | some w => exact ⟨w, rfl⟩
    | none =>
      obtain ⟨a, ha, harg⟩ := hfar
      refine absurd harg (findVariable_eq_none.mp hfind a.args (List.mem_map.mpr ⟨a, ?_, rfl⟩))
      rw [houter]
      exact List.mem_append_right _ (List.mem_cons_of_mem _ ha)
  have hsearch : LivingObjects.Compiler.searchRead own outer name = some w.inward := by
    rw [(searches hshort).read,
      indexOfName_eq_none.mpr fun hmem => hown (Or.inr hmem),
      indexOfName_eq_none.mpr fun hmem => hown (Or.inl hmem), hw]
  rw [cgEmitIdentifier_eq hreserved rfl, hsearch, written_emitUse, written_emitUse] at hcode
  have hwtemp : w.isTemp = false ∧ w.inward.Declared (scopesOf (own :: outer)) := by
    have heq := outerArg_eq outer name
    rw [tables_eq false (List.forall_mem_cons.mp hshort).2, hw] at heq
    have hdecl := outerArg_declared heq
    exact ⟨hdecl.2, hdecl.1⟩
  have hv : v.depth ≠ 0 := by
    intro hzero
    obtain ⟨⟨d, hd, hname⟩, -⟩ := hin
    rw [hzero] at hd
    obtain rfl := Option.some.inj hd
    refine hown ?_
    have hmem' := List.mem_of_getElem? hname
    cases hkind : v.isTemp with
    | false =>
      rw [hkind] at hmem'
      exact Or.inl hmem'
    | true =>
      rw [hkind] at hmem'
      exact Or.inr hmem'
  have hslot : frameSlot (envOf own outer targetClass) w.inward
      = frameSlot (envOf own outer targetClass) v := by
    have hread := (Prod.mk.inj (Option.some.inj hcode)).1
    have hinstr := (List.cons.inj hread).1
    unfold readInstruction at hinstr
    rw [if_neg (fun hz => Nat.succ_ne_zero _ hz.1), if_neg (fun hz => hv hz.1)] at hinstr
    exact Instruction.pushTemp.inj hinstr
  obtain rfl := frameSlot_inj hblock hwtemp.2 hin.declared hslot
  -- which is further out than the temporary
  obtain ⟨⟨d, hd, hname⟩, hfirst⟩ := hin
  have hd' : outer[w.depth]? = some d := hd
  have harg : name ∈ d.args := by
    have hmem' := List.mem_of_getElem? hname
    rw [show w.inward.isTemp = false from hwtemp.1] at hmem'
    exact hmem'
  have hle : w.depth ≤ near.length := by
    refine Nat.le_of_not_lt fun hlt => hfirst t ?_ (Or.inr htemp)
    show t ∈ (own :: outer).take (w.depth + 1)
    rw [List.take_succ_cons, houter]
    refine List.mem_cons_of_mem _ (List.mem_take_iff_getElem.mpr ⟨near.length, ?_, ?_⟩)
    · rw [List.length_append, List.length_cons]
      omega
    · rw [List.getElem_append_right (Nat.le_refl _)]
      simp
  refine hnone ⟨d, ?_, harg⟩
  rw [houter] at hd'
  rcases Nat.lt_or_eq_of_le hle with hlt | heq
  · rw [List.getElem?_append_left hlt] at hd'
    exact List.mem_append_left _ (List.mem_of_getElem? hd')
  · rw [heq, List.getElem?_append_right (Nat.le_refl _), Nat.sub_self] at hd'
    obtain rfl := Option.some.inj hd'
    exact List.mem_append_right _ List.mem_cons_self

/-- An assignment with no code for its value: it is rejected where the class has no such
variable, and leaves no use where there is one. -/
theorem written_assignOther (env : Env) (name : Name) :
    (written (assignOther env name (pure ())) = none ∧
      ∃ index, env.targetClass = some index ∧ index name = none) ∨
    ∃ i, written (assignOther env name (pure ())) = some ([i], []) := by
  cases hclass : env.targetClass with
  | none =>
    refine Or.inr ⟨.storeInstVar 0, ?_⟩
    unfold written assignOther cgInstVarIndex
    rw [hclass]
    rfl
  | some index =>
    cases hindex : index name with
    | some i =>
      refine Or.inr ⟨.storeInstVar i, ?_⟩
      unfold written assignOther cgInstVarIndex
      rw [hclass]
      simp only [hindex]
      rfl
    | none =>
      refine Or.inl ⟨?_, index, rfl, hindex⟩
      unfold written assignOther cgInstVarIndex
      rw [hclass]
      simp only [hindex]
      rfl

theorem written_assign (slot : Nat) (name : Name) :
    written ((pure () : Cg Unit) >>= fun _ => emitUse (.storeTemp slot) (.assign name))
      = some ([.storeTemp slot], [.assign name]) := rfl

/-- A name that is only an argument where it is innermost is assigned nowhere else. -/
theorem AssignsInnermost.assigns
    (hshort : ∀ d ∈ own :: outer, ∀ name, d.Declares name → name.length ≤ 31) {name : Name}
    (h : AssignsInnermost own outer targetClass name) {near far : List Declared} {a : Declared}
    (hsplit : own :: outer = near ++ a :: far) (hnear : ∀ d ∈ near, ¬ d.Declares name)
    (harg : name ∈ a.args) (htemp : name ∉ a.temps) :
    (∀ d ∈ far, name ∉ d.temps) ∧ ∃ index, targetClass = some index ∧ index name = none := by
  have ha : a ∈ own :: outer := by
    rw [hsplit]
    exact List.mem_append_right _ List.mem_cons_self
  -- the innermost declaration is an argument
  have hkind : ∀ v, Innermost (own :: outer) name v → v.isTemp = false := by
    intro v hin
    rw [hsplit] at hin
    obtain ⟨-, hname⟩ := hin.depth_eq hnear (Or.inl harg)
    cases hv : v.isTemp with
    | false => rfl
    | true =>
      rw [hv] at hname
      exact absurd (List.mem_of_getElem? hname) htemp
  have hown : name ∉ own.temps := by
    intro hmem
    cases near with
    | nil =>
      obtain ⟨rfl, -⟩ := List.cons.inj hsplit
      exact htemp hmem
    | cons d near =>
      obtain ⟨rfl, -⟩ := List.cons.inj hsplit
      exact hnear _ List.mem_cons_self (Or.inr hmem)
  have hsearch : LivingObjects.Compiler.searchAssign own outer name
      = (findVariable true (outer.map fun d => d.names true) name).map Variable.inward := by
    rw [(searches hshort).assign, indexOfName_eq_none.mpr hown]
  have hother := written_assignOther (envOf own outer targetClass) name
  cases hfind : findVariable true (outer.map fun d => d.names true) name with
  | some w =>
    -- a temporary further out
    have heq := outerTemp_eq outer name
    rw [tables_eq true (List.forall_mem_cons.mp hshort).2, hfind] at heq
    obtain ⟨hwdecl, hwtemp⟩ := outerTemp_declared heq
    have hblock : outer ≠ [] := by
      rintro rfl
      cases hfind
    rw [hfind] at hsearch
    rcases h.declared ⟨a, ha, Or.inl harg⟩ with ⟨v, hin, hemit⟩ | hreject
    · have hcode := congrArg written (hemit (pure ()))
      rw [cgEmitAssignment_eq, hsearch] at hcode
      have hslot := Option.some.inj ((written_assign _ name).symm.trans
        (hcode.trans (written_assign _ name)))
      have hsame := Instruction.storeTemp.inj (List.cons.inj (Prod.mk.inj hslot).1).1
      obtain rfl := frameSlot_inj hblock
        (show w.inward.Declared (scopesOf (own :: outer)) from hwdecl) hin.declared hsame
      have hfalse := hkind _ hin
      rw [show w.inward.isTemp = true from hwtemp] at hfalse
      cases hfalse
    · have hat := hreject (pure ()) (.init [] [])
      rw [cgEmitAssignment_eq, hsearch] at hat
      cases hat
  | none =>
    rw [hfind] at hsearch
    refine ⟨fun d hd hmem => ?_, ?_⟩
    · have hd' : d ∈ own :: outer := by
        rw [hsplit]
        exact List.mem_append_right _ (List.mem_cons_of_mem _ hd)
      rcases List.mem_cons.mp hd' with rfl | hd'
      · exact hown hmem
      · exact findVariable_eq_none.mp hfind d.temps (List.mem_map.mpr ⟨d, hd', rfl⟩) hmem
    · rcases hother with ⟨-, hclass⟩ | ⟨i, hi⟩
      · exact hclass
      rcases h.declared ⟨a, ha, Or.inl harg⟩ with ⟨v, hin, hemit⟩ | hreject
      · have hcode := congrArg written (hemit (pure ()))
        rw [cgEmitAssignment_eq, hsearch] at hcode
        have hboth := hi.symm.trans (hcode.trans (written_assign _ name))
        cases hboth
      · have hat := hreject (pure ()) (.init [] [])
        rw [cgEmitAssignment_eq, hsearch] at hat
        have hat' : assignOther (envOf own outer targetClass) name (pure ()) (.init [] [])
            = .rejected (.init [] []) := hat
        unfold written at hi
        rw [hat'] at hi
        cases hi

end Exact

/-- **Lexical scope.**  In a body every name that is read or assigned denotes its innermost
declaration, else an instance variable, else a global, exactly when the declarations of the
body and those around it are unshadowed. -/
theorem resolution_iff (own : Declared) (outer : List Declared) (targetClass : TargetClass) :
    (∀ name, ReadsInnermost own outer targetClass name ∧
        AssignsInnermost own outer targetClass name)
      ↔ Unshadowed own outer targetClass := by
  constructor
  · intro h
    have hshort : ∀ d ∈ own :: outer, ∀ name, d.Declares name → name.length ≤ 31 :=
      fun d hd name hname => ((h name).1.short ⟨d, hd, hname⟩).1
    refine ⟨hshort, fun d hd name hname => ((h name).1.short ⟨d, hd, hname⟩).2, ?_, ?_⟩
    · intro name hown near t far houter htemp hfar
      exact (h name).1.reads hshort hown houter htemp hfar
    · intro name near a far hsplit hnear harg htemp
      exact (h name).2.assigns hshort hsplit hnear harg htemp
  · intro h name
    exact ⟨h.readsInnermost name, h.assignsInnermost name⟩

/-- In `foo: x` the block `[ | x | [ x ] value ]`: the inner block reads the argument of the
method, where the temporary `x` lies between. -/
theorem shadowed_argument : ¬ ReadsInnermost { args := [], temps := [] }
    [{ args := [], temps := [['x']] }, { args := [['x']], temps := [] }] none ['x'] := by
  intro h
  have hshort : ∀ d ∈ [({ args := [], temps := [] } : Declared), { args := [], temps := [['x']] },
      { args := [['x']], temps := [] }], ∀ name, d.Declares name → name.length ≤ 31 := by
    intro d hd name hname
    simp only [List.mem_cons, List.not_mem_nil, or_false] at hd
    rcases hd with rfl | rfl | rfl <;> simp [Declared.Declares] at hname
    all_goals simp [hname]
  have hown : ¬ ({ args := [], temps := [] } : Declared).Declares ['x'] := by
    rintro (hx | hx) <;> cases hx
  obtain ⟨a, ha, harg⟩ := h.reads hshort hown (show _ = [] ++ _ :: _ from rfl) List.mem_cons_self
    ⟨_, List.mem_cons_self, List.mem_cons_self⟩
  obtain rfl := List.mem_singleton.mp ha
  cases harg

end LivingObjects.Compiler
