/-
  LivingObjects.Classes.Hierarchy — the classes of repeated definitions.

  `bc_define_class` makes a metaclass and a class, whose instance size is that of the
  superclass and its own names together, and an array with the names.  An index is found by
  recursion over the superclasses, from the arrays.  `Describes` ties the two together for
  every class a run of definitions has made, and is kept by every further definition
  (`Describes.define`): `inst_var_slots` reads off that the names visible in a class are
  numbered from 0 to the instance size, alike in every subclass, so that no bytecode for an
  instance variable leaves the instance.
-/
import Mathlib
import LivingObjects.Classes.InstVars
import LivingObjects.Classes.Spared
import LivingObjects.Compiler.Steps
import LivingObjects.Interp.BasicNew
import LivingObjects.Txn.Overlay

namespace LivingObjects.Classes

open LivingObjects.Lib
open LivingObjects.Lib.Attempt
open LivingObjects.VM
open LivingObjects.ObjectMemory
open LivingObjects.Compiler (CompiledBody)
open LivingObjects.Txn (untagSmallint tagSmallintNat)
open LivingObjects.Checkpoint (putBytes_of_mem putBytes_of_out)

/-! ## §1. Definitions of classes. -/

/-- `BC_CLASS_INST_SIZE`. -/
def classInstSize : Nat := 2

/-- `BClassFormat`. -/
inductive BClassFormat where
  | fields
  | indexable
  | bytes
deriving DecidableEq, Repr

def BClassFormat.value : BClassFormat → Int
  | .fields => 0
  | .indexable => 1
  | .bytes => 2

/-- The arguments that describe a class; a superclass of `none` is `NULL`. -/
structure ClassDefinition where
  name : CString
  superclass : Option Nat
  ivarNames : List CString
  format : BClassFormat

section Define

variable (env : InstallEnv)

/-- The loop over the names, from an index on. -/
def storeNames (array : Nat) : Nat → List CString → Mat Unit
  | _, [] => pure ()
  | index, name :: rest => do
    let string ← makeCString env name
    storeField array index string
    storeNames array (index + 1) rest

/-- The field for the names: nil, or an array of strings. -/
def ivarArray (names : List CString) : Mat Oop :=
  if names = [] then return taggedNil
  else do
    let array ← alloc (UInt64.ofNat env.arrayClass) formatIndexable names.length
    storeNames env array 0 names
    return UInt64.ofNat array

/-- The field for the superclass. -/
def superclassOop (superclass : Option Nat) : Oop :=
  match superclass with
  | none => taggedNil
  | some superclass => UInt64.ofNat superclass

/-- The metaclass inherits from that of the superclass, or from Class. -/
def metaSuperclass (m : Mem) (superclass : Option Nat) : Oop :=
  match superclass with
  | none => env.classClass
  | some superclass => objClass m superclass

/-- `inherited_inst_size`. -/
def inheritedInstSize (m : Mem) (superclass : Option Nat) : Int :=
  match superclass with
  | none => 0
  | some superclass => untagSmallint (objField m superclass classInstSize)

/-- The class is entered into the Smalltalk dictionary, when there is one. -/
def enterClass (name : CString) (klass : Nat) : Mat Unit :=
  if env.globals.smalltalkDictionary ≠ 0 ∧ env.arrayClass ≠ 0 ∧ env.associationClass ≠ 0 then do
    let _ ← globalAssociation env name (UInt64.ofNat klass)
    return ()
  else return ()

/-- `bc_define_class`. -/
def bcDefineClass (d : ClassDefinition) : Mat Nat := do
  let metaclass ← alloc env.classClass formatFields 5
  let s ← Attempt.get
  storeValues metaclass 0 [metaSuperclass env s.heap.mem d.superclass, taggedNil,
    tagSmallintInt 0, tagSmallintInt 0, taggedNil]
  let klass ← alloc (UInt64.ofNat metaclass) formatFields 5
  let s ← Attempt.get
  storeValues klass 0 [superclassOop d.superclass, taggedNil,
    tagSmallintInt (inheritedInstSize s.heap.mem d.superclass + d.ivarNames.length),
    tagSmallintInt d.format.value]
  let ivars ← ivarArray env d.ivarNames
  storeField klass classInstVars ivars
  enterClass env d.name klass
  return klass

end Define

/-- Adding to the size that a tag holds is adding before it is tagged. -/
theorem tagSmallintInt_untag_add (x n : Int) :
    tagSmallintInt (untagSmallint (tagSmallintInt x) + n) = tagSmallintInt (x + n) := by
  have hword : (tagSmallintInt x).toNat = (4 * (x % 2 ^ 64).toNat + 1) % 2 ^ 64 := by
    unfold tagSmallintInt
    rw [UInt64.toNat_ofNat']
  have hint : untagSmallint (tagSmallintInt x) = (tagSmallintInt x).toBitVec.toInt / 4 := rfl
  rw [BitVec.toInt_eq_toNat_cond, UInt64.toNat_toBitVec, hword] at hint
  -- the tag keeps the lower 62 bits
  have hbits : ∃ k : Int, untagSmallint (tagSmallintInt x) = x + k * 2 ^ 62 := by
    refine ⟨(untagSmallint (tagSmallintInt x) - x) / 2 ^ 62, ?_⟩
    split at hint <;> omega
  obtain ⟨k, hk⟩ := hbits
  rw [hk]
  refine UInt64.toNat_inj.mp ?_
  unfold tagSmallintInt
  rw [UInt64.toNat_ofNat', UInt64.toNat_ofNat']
  omega

/-! ## §2. Objects that stay. -/

/-- The objects of a set are there, and none of them is the symbol table or belongs to the
Smalltalk dictionary. -/
structure Still (g : Globals) (K : Set Extent) (s : Arena) : Prop where
  layout : Layout s.heap s.live
  kept : K ⊆ s.live
  roles : Roles g K s.live s.heap.mem

/-- Stores into the body of one object. -/
def Edited (e : Extent) (s s' : Arena) : Prop :=
  ∃ m, s' = { s with heap := { s.heap with mem := m } } ∧
    ∀ a, a < e.addr + 24 ∨ e.addr + e.bytes ≤ a → m a = s.heap.mem a

section Still

variable {g : Globals} {K : Set Extent} {s s' : Arena}

theorem Quiet.still {spared old making : Set Extent} {m₀ : Mem}
    (h : Quiet g spared old m₀ making s) : Still g (spared ∪ making) s where
  layout := h.layout
  kept := by
    rintro e (he | he)
    · exact h.stays (h.same e he).1
    · exact (h.new e he).1
  roles := h.roles

theorem Still.quiet (h : Still g K s) : Quiet g K K s.heap.mem ∅ s where
  layout := h.layout
  stays := h.kept
  same := fun _ he => ⟨he, fun _ _ => rfl⟩
  new := fun _ he => absurd he (Set.notMem_empty _)
  roles := by
    rw [Set.union_empty]
    exact h.roles

/-- A program that spares what it is told. -/
theorem Still.run {α : Type} {m : Mat α} {a : α} (h : Still g K s)
    (hm : Keeps (Quiet g K K s.heap.mem ∅) m) (hrun : m s = .ok a s') :
    Still g K s' ∧ ∀ e ∈ K, SameBytes s.heap.mem s'.heap.mem e := by
  have hquiet : Quiet g K K s.heap.mem ∅ s' := hm.of_ok h.quiet hrun
  have hstill := hquiet.still
  rw [Set.union_empty] at hstill
  exact ⟨hstill, fun e he => (hquiet.same e he).2⟩

/-- A new object. -/
theorem Still.alloc (h : Still g K s) {classPtr format : Oop} {size object : Nat}
    (hrun : Classes.alloc classPtr format size s = .ok object s') :
    madeAt object format size ∉ s.live ∧ Still g (insert (madeAt object format size) K) s' ∧
      (∀ e ∈ K, SameBytes s.heap.mem s'.heap.mem e) ∧
      (objSize s'.heap.mem object).toNat = size := by
  have hframe : ∀ t heap A, Quiet g K K s.heap.mem ∅ t →
      (s.live ⊆ t.live ∧ ∀ B ∈ (∅ : Set Extent), B ∉ s.live) → A ∉ t.live →
      (∀ e ∈ t.live, SameBytes t.heap.mem heap.mem e) →
      s.live ⊆ (⟨heap, insert A t.live⟩ : Arena).live ∧
        ∀ B ∈ insert A (∅ : Set Extent), B ∉ s.live := by
    rintro t heap A - ⟨hlive, hold⟩ hA -
    refine ⟨hlive.trans (Set.subset_insert _ _), ?_⟩
    rintro B (rfl | hB)
    · exact fun hin => hA (hlive hin)
    · exact hold B hB
  obtain ⟨⟨hquiet, -, hfresh⟩, -, hsize⟩ :=
    (quiet_allocNew (F := fun making t => s.live ⊆ t.live ∧ ∀ A ∈ making, A ∉ s.live) hframe
      classPtr format size).of_ok
      ⟨h.quiet, Set.Subset.rfl, fun _ hA => absurd hA (Set.notMem_empty _)⟩ hrun
  refine ⟨hfresh _ (Set.mem_insert _ _), ?_, fun e he => (hquiet.same e he).2, hsize⟩
  have hstill := hquiet.still
  rw [Set.union_insert, Set.union_empty] at hstill
  exact hstill

/-- Stores into one of the objects. -/
theorem Still.edit (h : Still g K s) {e : Extent} (he : e ∈ K) (hedit : Edited e s s') :
    Still g K s' ∧ ∀ e' ∈ K, e' ≠ e → SameBytes s.heap.mem s'.heap.mem e' := by
  obtain ⟨m, rfl, hm⟩ := hedit
  have hunion : K \ {e} ∪ {e} = K := Set.sdiff_union_of_subset (Set.singleton_subset_iff.mpr he)
  have hquiet : Quiet g (K \ {e}) (K \ {e}) s.heap.mem {e} s := by
    refine ⟨h.layout, Set.sdiff_subset.trans h.kept, fun _ hin => ⟨hin, fun _ _ => rfl⟩, ?_, ?_⟩
    · rintro _ rfl
      exact ⟨h.kept he, fun hin => hin.2 rfl⟩
    · rw [hunion]
      exact h.roles
  have hstill := (hquiet.make rfl hm).still
  rw [hunion] at hstill
  exact ⟨hstill, fun e' he' hne => sameBytes_of_body h.layout (h.kept he) hm (h.kept he') hne⟩

theorem Edited.refl (e : Extent) (s : Arena) : Edited e s s := ⟨s.heap.mem, rfl, fun _ _ => rfl⟩

theorem Edited.trans {e : Extent} {s'' : Arena} (h : Edited e s s') (h' : Edited e s' s'') :
    Edited e s s'' := by
  obtain ⟨m, rfl, hm⟩ := h
  obtain ⟨m', rfl, hm'⟩ := h'
  exact ⟨m', rfl, fun a ha => (hm' a ha).trans (hm a ha)⟩

theorem Edited.size {e : Extent} (h : Edited e s s') :
    objSize s'.heap.mem e.addr = objSize s.heap.mem e.addr := by
  obtain ⟨m, rfl, hm⟩ := h
  exact load64_congr fun k hk => hm _ (.inl (by omega))

/-- A store into a field. -/
theorem storeField_run {e : Extent} {index : Nat} {value : Oop} {u : Unit}
    (hroom : 32 + 8 * index ≤ e.bytes) (hrun : storeField e.addr index value s = .ok u s') :
    Edited e s s' ∧ objField s'.heap.mem e.addr index = value ∧
      ∀ j, j ≠ index → objField s'.heap.mem e.addr j = objField s.heap.mem e.addr j := by
  obtain ⟨-, rfl⟩ := Tried.ok.inj hrun
  refine ⟨⟨_, rfl, fun a ha => store64_of_out _ _ ?_⟩, ?_, fun j hj => ?_⟩
  · unfold objFieldAddr
    omega
  · exact objField_setObjField_self _ _ _ _
  · exact objField_setObjField_of_ne _ _ _ hj.symm

/-- Values stored one after the other. -/
theorem storeValues_run {e : Extent} {values : List Oop} {index : Nat} {u : Unit}
    (hroom : 24 + 8 * (index + values.length) ≤ e.bytes)
    (hrun : storeValues e.addr index values s = .ok u s') :
    Edited e s s' ∧ (∀ j v, values[j]? = some v → objField s'.heap.mem e.addr (index + j) = v) ∧
      ∀ j, j < index → objField s'.heap.mem e.addr j = objField s.heap.mem e.addr j := by
  induction values generalizing index s with
  | nil =>
    obtain ⟨-, rfl⟩ := Tried.ok.inj hrun
    exact ⟨.refl e s, fun _ _ hv => absurd hv (by simp), fun _ _ => rfl⟩
  | cons value rest ih =>
    rw [List.length_cons] at hroom
    obtain ⟨⟨⟩, s₁, hfirst, hrest⟩ := of_bind_ok hrun
    obtain ⟨hedit, hvalue, hother⟩ := storeField_run (e := e) (by omega) hfirst
    obtain ⟨hedit', hvalues, hbefore⟩ := ih (by omega) hrest
    refine ⟨hedit.trans hedit', fun j v hv => ?_, fun j hj => ?_⟩
    · cases j with
      | zero =>
        obtain rfl := Option.some.inj hv
        rw [Nat.add_zero, hbefore index (by omega)]
        exact hvalue
      | succ j =>
        have hnext := hvalues j v hv
        rwa [show index + 1 + j = index + (j + 1) by omega] at hnext
    · rw [hbefore j (by omega)]
      exact hother j (by omega)

end Still

/-! ## §3. Classes in the heap. -/

/-- A string with the bytes of a name, among the objects of a set. -/
def StringAt (m : Mem) (K : Set Extent) (oop : Oop) (text : CString) : Prop :=
  ∃ e ∈ K, oop = UInt64.ofNat e.addr ∧ 24 + text.bytes.length ≤ e.bytes ∧
    objSize m e.addr = text.size ∧
    bytesFrom m (objFieldAddr e.addr 0) text.bytes.length = text.bytes

/-- An array of strings with the bytes of names. -/
structure NamesAt (m : Mem) (K : Set Extent) (A : Extent) (names : List CString) : Prop where
  isKept : A ∈ K
  room : 24 + 8 * names.length ≤ A.bytes
  size : (objSize m A.addr).toNat = names.length
  name : ∀ i text, names[i]? = some text → StringAt m K (objField m A.addr i) text

/-- A class with its superclass, the names it adds, and the number of all its instance
variables. -/
structure ClassAt (m : Mem) (K : Set Extent) (klass : Nat) (superclass : Option Nat)
    (names : List CString) (total : Nat) : Prop where
  extent : ⟨klass, 64⟩ ∈ K
  size : (objSize m klass).toNat = 5
  super : objField m klass classSuperclass = superclassOop superclass
  instSize : objField m klass classInstSize = tagSmallintInt total
  ivars : (names = [] ∧ objField m klass classInstVars = taggedNil) ∨
    ∃ A, objField m klass classInstVars = UInt64.ofNat A.addr ∧ NamesAt m K A names

section Frames

variable {m m' : Mem} {K K' : Set Extent}

theorem StringAt.congr {oop : Oop} {text : CString} (h : StringAt m K oop text) (hK : K ⊆ K')
    (hsame : ∀ e ∈ K, SameBytes m m' e) : StringAt m' K' oop text := by
  obtain ⟨e, he, hoop, hroom, hsize, hbytes⟩ := h
  refine ⟨e, hK he, hoop, hroom, ?_, ?_⟩
  · rw [(hsame e he).size (by omega)]
    exact hsize
  · refine (bytesFrom_congr fun i hi => hsame e he _ ?_).trans hbytes
    unfold Extent.Holds objFieldAddr
    omega

theorem NamesAt.congr {A : Extent} {names : List CString} (h : NamesAt m K A names) (hK : K ⊆ K')
    (hsame : ∀ e ∈ K, SameBytes m m' e) : NamesAt m' K' A names := by
  have hroom := h.room
  have hA := hsame A h.isKept
  refine ⟨hK h.isKept, hroom, ?_, fun i text hi => ?_⟩
  · rw [hA.size (by omega)]
    exact h.size
  · have hlt : i < names.length := (List.getElem?_eq_some_iff.mp hi).1
    rw [hA.field (by omega)]
    exact (h.name i text hi).congr hK hsame

/-- **Frame**: a class stays what it is as long as its objects keep their bytes. -/
theorem ClassAt.congr {klass total : Nat} {superclass : Option Nat} {names : List CString}
    (h : ClassAt m K klass superclass names total) (hK : K ⊆ K')
    (hsame : ∀ e ∈ K, SameBytes m m' e) : ClassAt m' K' klass superclass names total := by
  have hklass := hsame _ h.extent
  have hfield : ∀ i, i < 5 → objField m' klass i = objField m klass i :=
    fun i hi => hklass.field (show 32 + 8 * i ≤ 64 by omega)
  refine ⟨hK h.extent, ?_, ?_, ?_, ?_⟩
  · rw [show objSize m' klass = objSize m klass from hklass.size (show 24 ≤ 64 by decide)]
    exact h.size
  · rw [hfield _ (by decide)]
    exact h.super
  · rw [hfield _ (by decide)]
    exact h.instSize
  · rw [hfield _ (by decide)]
    exact h.ivars.imp_right fun ⟨A, hoop, hnames⟩ => ⟨A, hoop, hnames.congr hK hsame⟩

end Frames

/-! ## §4. What a definition makes. -/

section Made

variable {g : Globals} {K : Set Extent} {s s' : Arena} {env : InstallEnv}

theorem bytesFrom_putBytes (m : Mem) (a : Nat) (bytes : List UInt8) :
    bytesFrom (putBytes m a bytes) a bytes.length = bytes := by
  refine List.ext_getElem (bytesFrom_length _ _ _) fun i hi hi' => ?_
  have hbyte : (bytesFrom (putBytes m a bytes) a bytes.length)[i] = putBytes m a bytes (a + i) := by
    simp only [bytesFrom, List.getElem_map, List.getElem_range]
  rw [hbyte, putBytes_of_mem m bytes hi', List.getD_eq_getElem?_getD, List.getElem?_eq_getElem hi']
  rfl

/-- A string that is made has the bytes of its text. -/
theorem makeCString_run (h : Still g K s) {text : CString} {oop : Oop}
    (hrun : makeCString env text s = .ok oop s') :
    ∃ e, e ∉ K ∧ Still g (insert e K) s' ∧ (∀ e' ∈ K, SameBytes s.heap.mem s'.heap.mem e') ∧
      StringAt s'.heap.mem {e} oop text := by
  obtain ⟨string, s₁, halloc, hrest⟩ := of_bind_ok hrun
  obtain ⟨hfresh, hstill, hsame, hsize⟩ := h.alloc halloc
  obtain ⟨⟨⟩, s₂, hstore, hpure⟩ := of_bind_ok hrest
  obtain ⟨-, rfl⟩ := Tried.ok.inj hstore
  obtain ⟨rfl, rfl⟩ := Tried.ok.inj hpure
  have hbytes : (madeAt string formatBytes text.bytes.length).bytes
      = 8 * (3 + (text.bytes.length + 7) / 8) := rfl
  have hedit : Edited (madeAt string formatBytes text.bytes.length) s₁ { s₁ with heap :=
      { s₁.heap with mem := putBytes s₁.heap.mem (objFieldAddr string 0) text.bytes } } := by
    refine ⟨_, rfl, fun a ha => putBytes_of_out _ _ ?_⟩
    rw [hbytes] at ha
    have haddr : (madeAt string formatBytes text.bytes.length).addr = string := rfl
    unfold objFieldAddr
    omega
  obtain ⟨hstill', hsame'⟩ := hstill.edit (Set.mem_insert _ _) hedit
  refine ⟨_, fun hin => hfresh (h.kept hin), hstill', fun e' he' a ha => ?_, _, rfl, rfl, ?_, ?_,
    ?_⟩
  · have hne : e' ≠ madeAt string formatBytes text.bytes.length :=
      fun heq => hfresh (heq ▸ h.kept he')
    rw [hsame' e' (Set.mem_insert_of_mem _ he') hne a ha]
    exact hsame e' he' a ha
  · rw [hbytes]
    omega
  · refine UInt64.toNat_inj.mp ?_
    rw [hedit.size, text.size_toNat]
    exact hsize
  · exact bytesFrom_putBytes _ _ _

/-- Names stored into an array, which keeps the fields before. -/
theorem storeNames_run (h : Still g K s) {A : Extent} (hA : A ∈ K) {names : List CString}
    {index : Nat} {u : Unit} (hroom : 24 + 8 * (index + names.length) ≤ A.bytes)
    (hrun : storeNames env A.addr index names s = .ok u s') :
    ∃ N, (∀ e ∈ N, e ∉ K) ∧ Still g (K ∪ N) s' ∧
      (∀ e ∈ K, e ≠ A → SameBytes s.heap.mem s'.heap.mem e) ∧
      objSize s'.heap.mem A.addr = objSize s.heap.mem A.addr ∧
      (∀ j, j < index → objField s'.heap.mem A.addr j = objField s.heap.mem A.addr j) ∧
      ∀ i text, names[i]? = some text →
        StringAt s'.heap.mem N (objField s'.heap.mem A.addr (index + i)) text := by
  induction names generalizing index s K with
  | nil =>
    obtain ⟨-, rfl⟩ := Tried.ok.inj hrun
    refine ⟨∅, fun e he => absurd he (Set.notMem_empty _), ?_, fun _ _ _ _ _ => rfl, rfl,
      fun _ _ => rfl, fun i text hi => absurd hi (by simp)⟩
    rw [Set.union_empty]
    exact h
  | cons name rest ih =>
    rw [List.length_cons] at hroom
    obtain ⟨string, s₁, hmake, hstores⟩ := of_bind_ok hrun
    obtain ⟨⟨⟩, s₂, hstore, hrest⟩ := of_bind_ok hstores
    obtain ⟨e, hfresh, hstill₁, hsame₁, hstring⟩ := makeCString_run h hmake
    obtain ⟨hedit, hfield, hother⟩ := storeField_run (by omega) hstore
    obtain ⟨hstill₂, hsame₂⟩ := hstill₁.edit (Set.mem_insert_of_mem _ hA) hedit
    obtain ⟨N, hnew, hstill₃, hsame₃, hsize₃, hbefore, hnames⟩ :=
      ih hstill₂ (Set.mem_insert_of_mem _ hA) (by omega) hrest
    have hne : e ≠ A := fun heq => hfresh (heq ▸ hA)
    have hsize₁ := hsame₁ A hA
    refine ⟨insert e N, ?_, ?_, ?_, ?_, ?_, ?_⟩
    · rintro e' (rfl | he')
      · exact hfresh
      · exact fun hin => hnew e' he' (Set.mem_insert_of_mem _ hin)
    · rw [Set.union_insert]
      rwa [Set.insert_union] at hstill₃
    · intro e' he' hneA a ha
      rw [hsame₃ e' (Set.mem_insert_of_mem _ he') hneA a ha,
        hsame₂ e' (Set.mem_insert_of_mem _ he') hneA a ha]
      exact hsame₁ e' he' a ha
    · rw [hsize₃, hedit.size]
      exact hsize₁.size (by omega)
    · intro j hj
      rw [hbefore j (by omega), hother j (by omega)]
      exact hsize₁.field (by omega)
    · intro i text hi
      cases i with
      | zero =>
        obtain rfl := Option.some.inj hi
        rw [Nat.add_zero, hbefore index (by omega), hfield]
        refine StringAt.congr hstring (Set.singleton_subset_iff.mpr (Set.mem_insert _ _)) ?_
        rintro _ rfl a ha
        rw [hsame₃ _ (Set.mem_insert _ _) hne a ha]
        exact hsame₂ _ (Set.mem_insert _ _) hne a ha
      | succ i =>
        have hnext := hnames i text hi
        rw [show index + 1 + i = index + (i + 1) by omega] at hnext
        exact hnext.congr (Set.subset_insert _ _) fun _ _ _ _ => rfl

/-- The field for the names, with what it has made. -/
theorem ivarArray_run (h : Still g K s) {names : List CString} {oop : Oop}
    (hrun : ivarArray env names s = .ok oop s') :
    ∃ N, (∀ e ∈ N, e ∉ K) ∧ Still g (K ∪ N) s' ∧
      (∀ e ∈ K, SameBytes s.heap.mem s'.heap.mem e) ∧
      ((names = [] ∧ oop = taggedNil) ∨
        ∃ A, oop = UInt64.ofNat A.addr ∧ NamesAt s'.heap.mem N A names) := by
  unfold ivarArray at hrun
  split at hrun
  next hempty =>
    obtain ⟨rfl, rfl⟩ := Tried.ok.inj hrun
    refine ⟨∅, fun e he => absurd he (Set.notMem_empty _), ?_, fun _ _ _ _ => rfl,
      .inl ⟨hempty, rfl⟩⟩
    rw [Set.union_empty]
    exact h
  next =>
    obtain ⟨array, s₁, halloc, hrest⟩ := of_bind_ok hrun
    obtain ⟨⟨⟩, s₂, hstores, hpure⟩ := of_bind_ok hrest
    obtain ⟨rfl, rfl⟩ := Tried.ok.inj hpure
    obtain ⟨hfresh, hstill₁, hsame₁, hsize⟩ := h.alloc halloc
    have hroom : 24 + 8 * (0 + names.length)
        ≤ (madeAt array formatIndexable names.length).bytes := by
      show 24 + 8 * (0 + names.length) ≤ 8 * (3 + names.length)
      omega
    obtain ⟨N, hnew, hstill₂, hsame₂, hsize₂, -, hnames⟩ :=
      storeNames_run (A := madeAt array formatIndexable names.length) hstill₁
        (Set.mem_insert _ _) hroom hstores
    refine ⟨insert (madeAt array formatIndexable names.length) N, ?_, ?_, ?_,
      .inr ⟨_, rfl, Set.mem_insert _ _, ?_, ?_, ?_⟩⟩
    · rintro e (rfl | he)
      · exact fun hin => hfresh (h.kept hin)
      · exact fun hin => hnew e he (Set.mem_insert_of_mem _ hin)
    · rw [Set.union_insert]
      rwa [Set.insert_union] at hstill₂
    · intro e he a ha
      have hne : e ≠ madeAt array formatIndexable names.length :=
        fun heq => hfresh (heq ▸ h.kept he)
      rw [hsame₂ e (Set.mem_insert_of_mem _ he) hne a ha]
      exact hsame₁ e he a ha
    · rwa [Nat.zero_add] at hroom
    · rw [hsize₂]
      exact hsize
    · intro i text hi
      have hname := hnames i text hi
      rw [Nat.zero_add] at hname
      exact hname.congr (Set.subset_insert _ _) fun _ _ _ _ => rfl

theorem quiet_enterClass {spared old making : Set Extent} {m₀ : Mem} (env : InstallEnv)
    (name : CString) (klass : Nat) :
    Keeps (Quiet env.globals spared old m₀ making) (enterClass env name klass) := by
  unfold enterClass
  refine .ite (fun _ => ?_) fun _ => Keeps.pure ()
  exact Triple.bind (quiet_globalAssociation name _) fun _ => Keeps.pure ()

/-- The superclass of a definition, if there is one, is a class with as many instance
variables. -/
def SuperclassAt (m : Mem) (K : Set Extent) (superclass : Option Nat) (inherited : Nat) : Prop :=
  match superclass with
  | none => inherited = 0
  | some superclass => (⟨superclass, 64⟩ : Extent) ∈ K ∧
      objField m superclass classInstSize = tagSmallintInt inherited

theorem SuperclassAt.congr {m m' : Mem} {superclass : Option Nat} {inherited : Nat}
    (h : SuperclassAt m K superclass inherited) (hsame : ∀ e ∈ K, SameBytes m m' e) :
    SuperclassAt m' K superclass inherited := by
  cases superclass with
  | none => exact h
  | some superclass =>
    refine ⟨h.1, Eq.trans ?_ h.2⟩
    exact (hsame _ h.1).field (show 32 + 8 * 2 ≤ 64 by decide)

/-- The size that is stored. -/
theorem SuperclassAt.instSize {m : Mem} {superclass : Option Nat} {inherited : Nat}
    (h : SuperclassAt m K superclass inherited) (own : Nat) :
    tagSmallintInt (inheritedInstSize m superclass + own)
      = tagSmallintInt ((inherited + own : Nat)) := by
  cases superclass with
  | none =>
    obtain rfl : inherited = 0 := h
    rfl
  | some superclass =>
    show tagSmallintInt (untagSmallint (objField m superclass classInstSize) + own) = _
    rw [h.2, tagSmallintInt_untag_add, Nat.cast_add]

/-- **What a definition makes**: a class with the names that are given, of an instance size
that counts them after those that are inherited; what was there keeps its bytes. -/
theorem bcDefineClass_run (h : Still env.globals K s) {d : ClassDefinition} {inherited klass : Nat}
    (hsuper : SuperclassAt s.heap.mem K d.superclass inherited)
    (hrun : bcDefineClass env d s = .ok klass s') :
    ∃ N, (∀ e ∈ N, e ∉ K) ∧ Still env.globals (K ∪ N) s' ∧
      (∀ e ∈ K, SameBytes s.heap.mem s'.heap.mem e) ∧
      ClassAt s'.heap.mem N klass d.superclass d.ivarNames (inherited + d.ivarNames.length) := by
  obtain ⟨metaclass, s₁, hmeta, hrun⟩ := of_bind_ok hrun
  obtain ⟨_, _, hget, hrun⟩ := of_bind_ok hrun
  obtain ⟨rfl, rfl⟩ := Tried.ok.inj hget
  obtain ⟨⟨⟩, s₂, hmetaFields, hrun⟩ := of_bind_ok hrun
  obtain ⟨klass', s₃, hklass, hrun⟩ := of_bind_ok hrun
  obtain ⟨_, _, hget, hrun⟩ := of_bind_ok hrun
  obtain ⟨rfl, rfl⟩ := Tried.ok.inj hget
  obtain ⟨⟨⟩, s₄, hfields, hrun⟩ := of_bind_ok hrun
  obtain ⟨ivars, s₅, hivars, hrun⟩ := of_bind_ok hrun
  obtain ⟨⟨⟩, s₆, hstore, hrun⟩ := of_bind_ok hrun
  obtain ⟨⟨⟩, s₇, henter, hrun⟩ := of_bind_ok hrun
  obtain ⟨rfl, rfl⟩ := Tried.ok.inj hrun
  -- the metaclass
  obtain ⟨hfreshM, hstill₁, hsame₁, -⟩ := h.alloc hmeta
  obtain ⟨heditM, -, -⟩ := storeValues_run (e := madeAt metaclass formatFields 5)
    (show 24 + 8 * (0 + 5) ≤ 8 * (3 + 5) by decide) hmetaFields
  obtain ⟨hstill₂, hsame₂⟩ := hstill₁.edit (Set.mem_insert _ _) heditM
  -- the class with its first fields
  obtain ⟨hfreshC, hstill₃, hsame₃, hsize⟩ := hstill₂.alloc hklass
  obtain ⟨heditC, hvalues, -⟩ := storeValues_run (e := madeAt klass' formatFields 5)
    (show 24 + 8 * (0 + 4) ≤ 8 * (3 + 5) by decide) hfields
  obtain ⟨hstill₄, hsame₄⟩ := hstill₃.edit (Set.mem_insert _ _) heditC
  -- the names, the last field, and the dictionary
  obtain ⟨N, hnew, hstill₅, hsame₅, hnames⟩ := ivarArray_run hstill₄ hivars
  obtain ⟨hedit, hfield, hother⟩ := storeField_run (e := madeAt klass' formatFields 5)
    (show 32 + 8 * 4 ≤ 8 * (3 + 5) by decide) hstore
  obtain ⟨hstill₆, hsame₆⟩ := hstill₅.edit (.inl (Set.mem_insert _ _)) hedit
  obtain ⟨hstill₇, hsame₇⟩ := hstill₆.run (quiet_enterClass env d.name klass') henter
  have hunion : insert (madeAt klass' formatFields 5)
      (insert (madeAt metaclass formatFields 5) K) ∪ N
      = K ∪ insert (madeAt klass' formatFields 5) (insert (madeAt metaclass formatFields 5) N) := by
    rw [Set.union_insert, Set.union_insert, Set.insert_union, Set.insert_union]
  have hC : madeAt klass' formatFields 5 ∉ insert (madeAt metaclass formatFields 5) K :=
    fun hin => hfreshC (hstill₂.kept hin)
  have hM : madeAt metaclass formatFields 5 ∉ K := fun hin => hfreshM (h.kept hin)
  -- what is not stored into keeps its bytes
  have hbefore : ∀ e ∈ K, SameBytes s.heap.mem s₃.heap.mem e := by
    intro e he a ha
    have hneM : e ≠ madeAt metaclass formatFields 5 := fun heq => hM (heq ▸ he)
    have he₁ := Set.mem_insert_of_mem (madeAt metaclass formatFields 5) he
    rw [hsame₃ e he₁ a ha, hsame₂ e he₁ hneM a ha]
    exact hsame₁ e he a ha
  have hold : ∀ e ∈ K, SameBytes s.heap.mem s₇.heap.mem e := by
    intro e he a ha
    have hneC : e ≠ madeAt klass' formatFields 5 :=
      fun heq => hC (heq ▸ Set.mem_insert_of_mem _ he)
    have he₁ := Set.mem_insert_of_mem (madeAt metaclass formatFields 5) he
    have he₃ := Set.mem_insert_of_mem (madeAt klass' formatFields 5) he₁
    rw [hsame₇ e (.inl he₃) a ha, hsame₆ e (.inl he₃) hneC a ha, hsame₅ e he₃ a ha,
      hsame₄ e he₃ hneC a ha]
    exact hbefore e he a ha
  have hmade : ∀ e ∈ N, SameBytes s₅.heap.mem s₇.heap.mem e := by
    intro e he a ha
    have hneC : e ≠ madeAt klass' formatFields 5 :=
      fun heq => hnew e he (heq ▸ Set.mem_insert _ _)
    rw [hsame₇ e (.inr he) a ha]
    exact hsame₆ e (.inr he) hneC a ha
  -- the fields of the class
  have hklass₅ := hsame₅ (madeAt klass' formatFields 5) (Set.mem_insert _ _)
  have hklass₇ := hsame₇ (madeAt klass' formatFields 5) (.inl (Set.mem_insert _ _))
  have hfirst : ∀ j v, j < 4 → objField s₄.heap.mem klass' j = v →
      objField s₇.heap.mem klass' j = v := by
    intro j v hj hv
    have hroom : 32 + 8 * j ≤ (madeAt klass' formatFields 5).bytes := by
      show 32 + 8 * j ≤ 64
      omega
    have h₇ : objField s₇.heap.mem klass' j = objField s₆.heap.mem klass' j := hklass₇.field hroom
    have h₅ : objField s₅.heap.mem klass' j = objField s₄.heap.mem klass' j := hklass₅.field hroom
    have h₆ : objField s₆.heap.mem klass' j = objField s₅.heap.mem klass' j :=
      hother j (by omega)
    rw [h₇, h₆, h₅, hv]
  have hlast : objField s₇.heap.mem klass' classInstVars = ivars := by
    have h₇ : objField s₇.heap.mem klass' classInstVars
        = objField s₆.heap.mem klass' classInstVars :=
      hklass₇.field (show 32 + 8 * 4 ≤ 64 by decide)
    rw [h₇]
    exact hfield
  have hkept : N ⊆ insert (madeAt klass' formatFields 5)
      (insert (madeAt metaclass formatFields 5) N) :=
    (Set.subset_insert _ _).trans (Set.subset_insert _ _)
  refine ⟨_, ?_, hunion ▸ hstill₇, hold, Set.mem_insert _ _, ?_, ?_, ?_, ?_⟩
  · rintro e (rfl | rfl | he)
    · exact fun hin => hC (Set.mem_insert_of_mem _ hin)
    · exact hM
    · exact fun hin => hnew e he (Set.mem_insert_of_mem _ (Set.mem_insert_of_mem _ hin))
  · have h₇ : objSize s₇.heap.mem klass' = objSize s₆.heap.mem klass' :=
      hklass₇.size (show 24 ≤ 64 by decide)
    have h₅ : objSize s₅.heap.mem klass' = objSize s₄.heap.mem klass' :=
      hklass₅.size (show 24 ≤ 64 by decide)
    have h₆ : objSize s₆.heap.mem klass' = objSize s₅.heap.mem klass' := hedit.size
    have h₄ : objSize s₄.heap.mem klass' = objSize s₃.heap.mem klass' := heditC.size
    rw [h₇, h₆, h₅, h₄]
    exact hsize
  · exact hfirst 0 _ (by decide) (hvalues 0 _ rfl)
  · rw [← (hsuper.congr hbefore).instSize]
    exact hfirst 2 _ (by decide) (hvalues 2 _ rfl)
  · rw [hlast]
    rcases hnames with hnone | ⟨A, hoop, hA⟩
    · exact .inl hnone
    · exact .inr ⟨A, hoop, hA.congr hkept hmade⟩

end Made

/-! ## §5. Definitions that are given up. -/

section Refused

variable {spared old making : Set Extent} {m₀ : Mem} {env : InstallEnv}

theorem quiet_storeNames {A : Extent} (hA : A ∈ making) (names : List CString) (index : Nat)
    (hroom : 24 + 8 * (index + names.length) ≤ A.bytes) :
    Keeps (Quiet env.globals spared old m₀ making) (storeNames env A.addr index names) := by
  induction names generalizing index with
  | nil => exact Keeps.pure _
  | cons name rest ih =>
    rw [List.length_cons] at hroom
    refine Triple.bind (quiet_makeCString env name) fun string => ?_
    refine Triple.bind (quiet_storeField hA (by omega) string) fun _ => ?_
    exact ih (index + 1) (by omega)

theorem quiet_ivarArray (names : List CString) :
    Keeps (Quiet env.globals spared old m₀ making) (ivarArray env names) := by
  unfold ivarArray
  refine .ite (fun _ => Keeps.pure _) fun _ => ?_
  refine Triple.bind (quiet_alloc _ _ _) fun array => ?_
  refine Triple.bind (Triple.finish (Set.subset_insert _ _)
    (quiet_storeNames (Set.mem_insert (madeAt array formatIndexable names.length) _) names 0 ?_))
    fun _ => Keeps.pure _
  show 24 + 8 * (0 + names.length) ≤ 8 * (3 + names.length)
  omega

/-- A definition spares what is not the symbol table or the Smalltalk dictionary, also when
it is given up. -/
theorem quiet_bcDefineClass (d : ClassDefinition) :
    Keeps (Quiet env.globals spared old m₀ making) (bcDefineClass env d) := by
  unfold bcDefineClass
  refine Triple.bind (quiet_alloc _ _ _) fun metaclass => Triple.get_bind fun s _ => ?_
  refine Triple.bind (Triple.finish (Set.subset_insert _ _)
    (quiet_storeValues (Set.mem_insert (madeAt metaclass formatFields 5) _) _ 0 ?_)) fun _ => ?_
  · exact Nat.le_refl _
  refine Triple.bind (quiet_alloc _ _ _) fun klass => Triple.get_bind fun s _ => ?_
  have hmade := Set.mem_insert (madeAt klass formatFields 5) making
  refine Triple.finish (Set.subset_insert _ _) ?_
  refine Triple.bind (quiet_storeValues hmade _ 0 (show 24 + 8 * (0 + 4) ≤ 8 * (3 + 5) by decide))
    fun _ => ?_
  refine Triple.bind (quiet_ivarArray _) fun ivars => ?_
  refine Triple.bind (quiet_storeField hmade (show 32 + 8 * 4 ≤ 8 * (3 + 5) by decide) ivars)
    fun _ => ?_
  exact Triple.bind (quiet_enterClass env d.name klass) fun _ => Keeps.pure _

end Refused

/-! ## §6. Hierarchies. -/

/-- The definitions that have been carried out, the last one first, with the classes they
have made. -/
abbrev Definitions := List (Nat × ClassDefinition)

/-- The names visible in a class: those of its superclass, then its own. -/
def visibleNames : Definitions → Nat → Option (List CString)
  | [], _ => none
  | (klass, d) :: earlier, c =>
    if c = klass then
      match d.superclass with
      | none => some d.ivarNames
      | some superclass => (visibleNames earlier superclass).map (· ++ d.ivarNames)
    else visibleNames earlier c

/-- A class and one it inherits from, itself among them. -/
inductive Inherits (classes : Definitions) : Nat → Nat → Prop where
  | refl (c : Nat) : Inherits classes c c
  | step {c superclass ancestor : Nat} {d : ClassDefinition} :
    (c, d) ∈ classes → d.superclass = some superclass → Inherits classes superclass ancestor →
      Inherits classes c ancestor

/-- The classes of the definitions are in the heap, with their names and sizes. -/
inductive Describes (m : Mem) (K : Set Extent) : Definitions → Prop where
  | nil : Describes m K []
  | cons {earlier : Definitions} {klass : Nat} {d : ClassDefinition} {names : List CString} :
    Describes m K earlier → visibleNames earlier klass = none →
    visibleNames ((klass, d) :: earlier) klass = some names →
    ClassAt m K klass d.superclass d.ivarNames names.length →
      Describes m K ((klass, d) :: earlier)

theorem Describes.congr {m m' : Mem} {K K' : Set Extent} {classes : Definitions}
    (h : Describes m K classes) (hK : K ⊆ K') (hsame : ∀ e ∈ K, SameBytes m m' e) :
    Describes m' K' classes := by
  induction h with
  | nil => exact .nil
  | cons _ hnew hnames hat ih => exact .cons ih hnew hnames (hat.congr hK hsame)

section Names

variable {classes earlier : Definitions} {m : Mem} {K : Set Extent}

theorem visibleNames_self (klass : Nat) (d : ClassDefinition) :
    visibleNames ((klass, d) :: earlier) klass = match d.superclass with
      | none => some d.ivarNames
      | some superclass => (visibleNames earlier superclass).map (· ++ d.ivarNames) := by
  rw [visibleNames, if_pos rfl]

theorem visibleNames_of_ne {klass c : Nat} (d : ClassDefinition) (hne : c ≠ klass) :
    visibleNames ((klass, d) :: earlier) c = visibleNames earlier c := by
  rw [visibleNames, if_neg hne]

/-- A class that has been defined is described. -/
theorem Describes.classAt (h : Describes m K classes) {c : Nat} {names : List CString}
    (hc : visibleNames classes c = some names) : ∃ superclass own,
      ClassAt m K c superclass own names.length := by
  induction h with
  | nil => cases hc
  | @cons earlier klass d visible _ _ hnames hat ih =>
    rcases eq_or_ne c klass with rfl | hne
    · rw [hnames] at hc
      obtain rfl := Option.some.inj hc
      exact ⟨_, _, hat⟩
    · rw [visibleNames_of_ne d hne] at hc
      exact ih hc

/-- A later definition is of another class. -/
theorem visibleNames_earlier {klass : Nat} {d : ClassDefinition}
    (hnew : visibleNames earlier klass = none) {c : Nat} {names : List CString}
    (hc : visibleNames earlier c = some names) :
    visibleNames ((klass, d) :: earlier) c = some names := by
  have hne : c ≠ klass := by
    rintro rfl
    rw [hnew] at hc
    cases hc
  rw [visibleNames_of_ne d hne]
  exact hc

theorem Describes.defined (h : Describes m K classes) {c : Nat} {d : ClassDefinition}
    (hd : (c, d) ∈ classes) : ∃ names, visibleNames classes c = some names := by
  induction h with
  | nil => cases hd
  | @cons earlier klass d' visible _ hnew hvisible _ ih =>
    rcases List.mem_cons.mp hd with heq | hearlier
    · obtain ⟨rfl, -⟩ := Prod.mk.inj heq
      exact ⟨visible, hvisible⟩
    · obtain ⟨names, hnames⟩ := ih hearlier
      exact ⟨names, visibleNames_earlier hnew hnames⟩

/-- What a superclass shows a class shows first. -/
theorem Describes.prefix_step (h : Describes m K classes) {c superclass : Nat} {d : ClassDefinition}
    (hd : (c, d) ∈ classes) (hsuper : d.superclass = some superclass) {names : List CString}
    (hnames : visibleNames classes c = some names) :
    ∃ inherited, visibleNames classes superclass = some inherited ∧ inherited <+: names := by
  induction h generalizing names with
  | nil => cases hd
  | @cons earlier klass d' visible hearlier hnew hvisible hat ih =>
    rcases List.mem_cons.mp hd with heq | hin
    · -- the class that is defined last
      obtain ⟨rfl, rfl⟩ := Prod.mk.inj heq
      rw [visibleNames_self, hsuper] at hnames
      obtain ⟨inherited, hinherited, rfl⟩ := Option.map_eq_some_iff.mp hnames
      exact ⟨inherited, visibleNames_earlier hnew hinherited, List.prefix_append _ _⟩
    · obtain ⟨shown, hshown⟩ := hearlier.defined hin
      have hsame := visibleNames_earlier (d := d') hnew hshown
      rw [hnames] at hsame
      obtain rfl := Option.some.inj hsame
      obtain ⟨inherited, hinherited, hprefix⟩ := ih hin hshown
      exact ⟨inherited, visibleNames_earlier hnew hinherited, hprefix⟩

theorem Describes.prefix (h : Describes m K classes) {c ancestor : Nat}
    (hc : Inherits classes c ancestor) {names inherited : List CString}
    (hnames : visibleNames classes c = some names)
    (hinherited : visibleNames classes ancestor = some inherited) : inherited <+: names := by
  induction hc generalizing names with
  | refl c =>
    rw [hnames] at hinherited
    obtain rfl := Option.some.inj hinherited
    exact List.prefix_refl _
  | step hd hsuper _ ih =>
    obtain ⟨shown, hshown, hprefix⟩ := h.prefix_step hd hsuper hnames
    exact (ih hshown hinherited).trans hprefix

end Names

/-! ## §7. Indices. -/

theorem CString.ext {text text' : CString} (h : text.bytes = text'.bytes) : text = text' := by
  cases text
  cases text'
  congr

/-- Looking through the indices of a list is looking through the list. -/
theorem find?_range_eq {α : Type} {xs : List α} {p : Nat → Bool} {q : α → Bool}
    (h : ∀ i x, xs[i]? = some x → p i = q x) :
    (List.range xs.length).find? p = xs.findIdx? q := by
  induction xs generalizing p with
  | nil => rfl
  | cons x rest ih =>
    have hrest := ih (p := p ∘ Nat.succ) fun i y hy => h (i + 1) y hy
    rw [List.length_cons, List.range_succ_eq_map, List.find?_cons, List.findIdx?_cons, h 0 x rfl,
      List.find?_map, hrest]
    cases q x <;> rfl

/-- The place of a name among names. -/
def placeOf (names : List CString) (name : CString) : Option Nat :=
  names.findIdx? fun text => text.bytes == name.bytes

section Index

variable {g : Globals} {K : Set Extent} {s : Arena} (hs : Still g K s)

include hs

/-- What is at the address of an object. -/
theorem Still.object {e : Extent} (he : e ∈ K) : (UInt64.ofNat e.addr).toNat = e.addr ∧
    isObject (UInt64.ofNat e.addr) = true ∧ ¬ (e.addr = 0 ∨ e.addr % 4 ≠ 0) := by
  obtain ⟨hword, hptr, -⟩ := isObjectPtr_ofNat hs.layout (hs.kept he)
  have habove := (hs.layout.objects e (hs.kept he)).above
  have haligned := (hs.layout.objects e (hs.kept he)).aligned
  have hfirst := hs.layout.placed.aboveFirstPage
  unfold pageBytes at hfirst
  refine ⟨hword, ?_, by omega⟩
  have hne : UInt64.ofNat e.addr ≠ 0 := by
    intro hzero
    rw [hzero] at hword
    simp only [UInt64.toNat_zero] at hword
    omega
  unfold isObject
  rw [hptr, Bool.true_and, bne_iff_ne]
  exact hne

/-- A string matches its own name. -/
theorem Still.matches {oop : Oop} {text : CString} (h : StringAt s.heap.mem K oop text)
    (name : CString) :
    bcNameMatchesStringOop s.heap.mem oop name = (text.bytes == name.bytes) := by
  obtain ⟨e, he, rfl, hroom, hsize, hbytes⟩ := h
  obtain ⟨hword, hobject, -⟩ := hs.object he
  unfold isObject at hobject
  unfold bcNameMatchesStringOop
  rw [hobject, Bool.true_and, hword, hsize]
  rcases eq_or_ne text.bytes name.bytes with heq | hne
  · obtain rfl := CString.ext heq
    rw [hbytes, beq_self_eq_true, beq_self_eq_true]
    rfl
  · rw [beq_eq_false_iff_ne.mpr hne, Bool.and_eq_false_iff]
    rcases eq_or_ne text.size name.size with hsizes | hsizes
    · right
      have hlength : text.bytes.length = name.bytes.length := by
        rw [← text.size_toNat, ← name.size_toNat, hsizes]
      rw [← hlength, hbytes]
      exact beq_eq_false_iff_ne.mpr hne
    · left
      exact beq_eq_false_iff_ne.mpr hsizes

/-- The names a class adds: no array, or one in which each is found at its place. -/
theorem Still.ownNames {klass total : Nat} {superclass : Option Nat} {names : List CString}
    (h : ClassAt s.heap.mem K klass superclass names total) :
    (instVarNamesOop s.heap.mem klass = none ∧ names = []) ∨
      ∃ ivars, instVarNamesOop s.heap.mem klass = some ivars ∧
        (objSize s.heap.mem ivars.toNat).toNat = names.length ∧
        ∀ name, ((List.range names.length).find? fun index =>
          bcNameMatchesStringOop s.heap.mem (objField s.heap.mem ivars.toNat index) name)
            = placeOf names name := by
  have hsize : ¬ (objSize s.heap.mem klass).toNat ≤ classInstVars := by
    rw [h.size]
    decide
  unfold instVarNamesOop
  rw [if_neg hsize]
  rcases h.ivars with ⟨rfl, hnil⟩ | ⟨A, hoop, hA⟩
  · rw [hnil]
    exact .inl ⟨rfl, rfl⟩
  · obtain ⟨hword, hobject, -⟩ := hs.object hA.isKept
    rw [hoop, if_pos hobject]
    refine .inr ⟨_, rfl, ?_, fun name => ?_⟩
    · rw [hword]
      exact hA.size
    · rw [hword]
      exact find?_range_eq fun i text hi => hs.matches (hA.name i text hi) name

/-- **Counts and indices.**  Along a chain of any length the recursion counts the visible
names and finds a name at its place among them. -/
theorem Still.index {classes : Definitions} (h : Describes s.heap.mem K classes) {c : Nat}
    {names : List CString} (hc : visibleNames classes c = some names) {fuel : Nat}
    (hfuel : classes.length < fuel) :
    bcClassTotalInstVarCount s.heap.mem fuel c = names.length ∧
      ∀ name, bcClassInstVarIndex s.heap.mem fuel c name = placeOf names name := by
  induction h generalizing c names fuel with
  | nil => cases hc
  | @cons earlier klass d visible hearlier _ _ hat ih =>
    rw [List.length_cons] at hfuel
    rcases eq_or_ne c klass with rfl | hne
    · obtain ⟨fuel, rfl⟩ : ∃ f, fuel = f + 1 := ⟨fuel - 1, by omega⟩
      obtain ⟨-, -, hvalid⟩ := hs.object hat.extent
      -- what the class adds to what it inherits
      have hown : ((instVarNamesOop s.heap.mem c).map fun ivars =>
          (objSize s.heap.mem ivars.toNat).toNat).getD 0 = d.ivarNames.length := by
        rcases hs.ownNames hat with ⟨hnone, hempty⟩ | ⟨ivars, hsome, hsize, -⟩
        · rw [hnone, hempty]
          rfl
        · rw [hsome]
          exact hsize
      have hsuper := hat.super
      rw [visibleNames_self] at hc
      cases hparent : d.superclass with
      | none =>
        rw [hparent] at hc hsuper
        obtain rfl := Option.some.inj hc
        have hno : isObject (objField s.heap.mem c classSuperclass) = false := by
          rw [hsuper]
          rfl
        refine ⟨?_, fun name => ?_⟩
        · rw [bcClassTotalInstVarCount, if_neg hvalid]
          simp only [hown, hno, Bool.false_eq_true, if_false, Nat.zero_add]
        · rw [bcClassInstVarIndex, if_neg hvalid]
          simp only [hno]
          rcases hs.ownNames hat with ⟨hnone, hempty⟩ | ⟨ivars, hsome, hsize, hfind⟩
          · rw [hnone, hempty]
            rfl
          · rw [hsome]
            simp only [Bool.false_eq_true, if_false, hsize, hfind name, Nat.zero_add,
              Option.map_id']
      | some parent =>
        rw [hparent] at hc hsuper
        obtain ⟨inherited, hinherited, rfl⟩ := Option.map_eq_some_iff.mp hc
        obtain ⟨_, _, hatParent⟩ := hearlier.classAt hinherited
        obtain ⟨hword, hobject, -⟩ := hs.object hatParent.extent
        have hyes : isObject (objField s.heap.mem c classSuperclass) = true := by
          rw [hsuper]
          exact hobject
        have htoNat : (objField s.heap.mem c classSuperclass).toNat = parent := by
          rw [hsuper]
          exact hword
        -- the superclass is found with less fuel
        have hshort : earlier.length < fuel := by omega
        obtain ⟨hcountParent, hindexParent⟩ := ih hinherited hshort
        refine ⟨?_, fun name => ?_⟩
        · rw [bcClassTotalInstVarCount, if_neg hvalid]
          simp only [hown, hyes, if_true, htoNat, hcountParent, List.length_append]
        · rw [bcClassInstVarIndex, if_neg hvalid]
          simp only [hyes, if_true, htoNat, hcountParent, hindexParent name]
          have happend : placeOf (inherited ++ d.ivarNames) name = (placeOf inherited name).or
              ((placeOf d.ivarNames name).map (inherited.length + ·)) := by
            unfold placeOf
            rw [List.findIdx?_append]
            simp only [Nat.add_comm]
          rw [happend]
          cases placeOf inherited name with
          | some index => rfl
          | none =>
            rcases hs.ownNames hat with ⟨hnone, hempty⟩ | ⟨ivars, hsome, hsize, hfind⟩
            · rw [hnone, hempty]
              rfl
            · rw [hsome]
              simp only [hsize, hfind name, Option.none_or]
    · rw [visibleNames_of_ne d hne] at hc
      exact ih hc (by omega)

end Index

/-! ## §8. Sizes. -/

section Sizes

variable {g : Globals} {K : Set Extent} {s : Arena} {classes : Definitions}

/-- A visible name has a string. -/
theorem Describes.strings {m : Mem} (h : Describes m K classes) {c : Nat} {names : List CString}
    (hc : visibleNames classes c = some names) {text : CString} (htext : text ∈ names) :
    ∃ oop, StringAt m K oop text := by
  induction h generalizing c names with
  | nil => cases hc
  | @cons earlier klass d visible _ _ _ hat ih =>
    have hown : text ∈ d.ivarNames → ∃ oop, StringAt m K oop text := by
      intro hin
      obtain ⟨i, hi⟩ := List.mem_iff_getElem?.mp hin
      rcases hat.ivars with ⟨hempty, -⟩ | ⟨A, -, hA⟩
      · rw [hempty] at hin
        cases hin
      · exact ⟨_, hA.name i text hi⟩
    rcases eq_or_ne c klass with rfl | hne
    · rw [visibleNames_self] at hc
      cases hparent : d.superclass with
      | none =>
        rw [hparent] at hc
        obtain rfl := Option.some.inj hc
        exact hown htext
      | some parent =>
        rw [hparent] at hc
        obtain ⟨inherited, hinherited, rfl⟩ := Option.map_eq_some_iff.mp hc
        rcases List.mem_append.mp htext with hin | hin
        · exact ih hinherited hin
        · exact hown hin
    · rw [visibleNames_of_ne d hne] at hc
      exact ih hc htext

/-- Strings of different names are different objects. -/
theorem text_inj {m : Mem} {a : Nat} {text text' : CString} (hsize : objSize m a = text.size)
    (hbytes : bytesFrom m (objFieldAddr a 0) text.bytes.length = text.bytes)
    (hsize' : objSize m a = text'.size)
    (hbytes' : bytesFrom m (objFieldAddr a 0) text'.bytes.length = text'.bytes) : text = text' := by
  have hlength : text.bytes.length = text'.bytes.length := by
    rw [← text.size_toNat, ← text'.size_toNat, ← hsize, ← hsize']
  refine CString.ext ?_
  rw [← hbytes, ← hbytes', hlength]

/-- **Distinct names fit into the heap**: no counter of them overflows in a heap of less
than 16 gigabytes. -/
theorem Still.names_bound (hs : Still g K s) (h : Describes s.heap.mem K classes) {c : Nat}
    {names : List CString} (hc : visibleNames classes c = some names) (hdistinct : names.Nodup) :
    8 * names.length ≤ s.heap.om.stop - s.heap.om.start := by
  have hplace : ∀ text ∈ names, ∃ i, 8 * i + 8 ≤ s.heap.om.stop - s.heap.om.start ∧
      objSize s.heap.mem (s.heap.om.start + 8 * i) = text.size ∧
      bytesFrom s.heap.mem (objFieldAddr (s.heap.om.start + 8 * i) 0) text.bytes.length
        = text.bytes := by
    intro text htext
    obtain ⟨oop, e, he, -, hroom, hsize, hbytes⟩ := h.strings hc htext
    have habove := (hs.layout.objects e (hs.kept he)).above
    have hbelow := (hs.layout.objects e (hs.kept he)).below
    have haligned := (hs.layout.objects e (hs.kept he)).aligned
    have hstart := hs.layout.placed.startAligned
    have hfree := hs.layout.placed.freeLimit
    have hlimit := hs.layout.placed.limitStop
    have haddr : s.heap.om.start + 8 * ((e.addr - s.heap.om.start) / 8) = e.addr := by omega
    refine ⟨(e.addr - s.heap.om.start) / 8, by omega, ?_, ?_⟩
    · rw [haddr]
      exact hsize
    · rw [haddr]
      exact hbytes
  -- distinct names have distinct places
  choose! place hroom hsize hbytes using hplace
  have hinj : (names.map place).Nodup := by
    refine List.Nodup.map_on (fun x hx y hy heq => ?_) hdistinct
    have hsizeY := hsize y hy
    have hbytesY := hbytes y hy
    rw [← heq] at hsizeY hbytesY
    exact text_inj (hsize x hx) (hbytes x hx) hsizeY hbytesY
  have hsub : (names.map place).toFinset ⊆
      Finset.range ((s.heap.om.stop - s.heap.om.start) / 8) := by
    intro i hi
    obtain ⟨text, htext, rfl⟩ := List.mem_map.mp (List.mem_toFinset.mp hi)
    have hfits := hroom text htext
    rw [Finset.mem_range]
    omega
  have hcard := Finset.card_le_card hsub
  rw [List.toFinset_card_of_nodup hinj, List.length_map, Finset.card_range] at hcard
  omega

/-- The size that `basicNew` reads. -/
theorem basicNewSize_tagged {n : Nat} (hn : n < 2 ^ 61) :
    Interp.basicNewSize (tagSmallintInt n) = some (UInt64.ofNat n) := by
  have hword : (tagSmallintInt n).toNat = 4 * n + 1 := by
    unfold tagSmallintInt
    rw [UInt64.toNat_ofNat']
    omega
  have hint : untagSmallint (tagSmallintInt n) = n := by
    rw [Txn.untagSmallint_eq, hword, if_pos (by omega)]
    omega
  have htag : isSmallint (tagSmallintInt n) = true := by
    rw [Txn.isSmallint_iff, hword]
    omega
  unfold Interp.basicNewSize
  rw [htag, hint]
  simp only [Bool.not_true, Bool.false_eq_true, if_false, Int.toNat_natCast]
  rw [if_neg (by omega)]

end Sizes

/-! ## §9. Runs of definitions. -/

/-- What repeated definitions lead to: those that got through, with their classes, and the
heap.  A superclass is one of the classes before. -/
inductive Built (g : Globals) (s₀ : Arena) : Definitions → Arena → Prop where
  | start : Built g s₀ [] s₀
  | defined {classes : Definitions} {s s' : Arena} {env : InstallEnv} {d : ClassDefinition}
    {klass : Nat} : Built g s₀ classes s → env.globals = g →
    (∀ superclass, d.superclass = some superclass → ∃ d', (superclass, d') ∈ classes) →
    bcDefineClass env d s = .ok klass s' → Built g s₀ ((klass, d) :: classes) s'
  | refused {classes : Definitions} {s s' : Arena} {env : InstallEnv} {d : ClassDefinition} :
    Built g s₀ classes s → env.globals = g → bcDefineClass env d s = .rejected s' →
      Built g s₀ classes s'

section Runs

variable {g : Globals} {s₀ s s' : Arena} {K : Set Extent} {classes : Definitions}

/-- **One more definition.** -/
theorem Describes.define {env : InstallEnv} {d : ClassDefinition} {klass : Nat}
    (h : Describes s.heap.mem K classes) (hs : Still env.globals K s)
    (hsuper : ∀ superclass, d.superclass = some superclass → ∃ d', (superclass, d') ∈ classes)
    (hrun : bcDefineClass env d s = .ok klass s') :
    ∃ K', Still env.globals K' s' ∧ Describes s'.heap.mem K' ((klass, d) :: classes) := by
  have hinherited : ∃ inherited, SuperclassAt s.heap.mem K d.superclass inherited.length ∧
      (match d.superclass with
        | none => some d.ivarNames
        | some superclass => (visibleNames classes superclass).map (· ++ d.ivarNames))
          = some (inherited ++ d.ivarNames) := by
    cases hparent : d.superclass with
    | none => exact ⟨[], rfl, rfl⟩
    | some parent =>
      obtain ⟨d', hd'⟩ := hsuper parent hparent
      obtain ⟨inherited, hnames⟩ := h.defined hd'
      obtain ⟨_, _, hat⟩ := h.classAt hnames
      refine ⟨inherited, ⟨hat.extent, hat.instSize⟩, ?_⟩
      simp only [hnames, Option.map_some]
  obtain ⟨inherited, hat, hvisible⟩ := hinherited
  obtain ⟨N, hfresh, hstill, hsame, hmade⟩ := bcDefineClass_run hs hat hrun
  have hat' : ClassAt s'.heap.mem (K ∪ N) klass d.superclass d.ivarNames
      (inherited ++ d.ivarNames).length := by
    rw [List.length_append]
    exact hmade.congr Set.subset_union_right fun _ _ _ _ => rfl
  refine ⟨K ∪ N, hstill, .cons (h.congr Set.subset_union_left hsame) ?_ ?_ hat'⟩
  · -- the new class is none of those before
    by_contra hdefined
    obtain ⟨names, hnames⟩ := Option.ne_none_iff_exists'.mp hdefined
    obtain ⟨_, _, hold⟩ := h.classAt hnames
    exact hfresh _ hmade.extent hold.extent
  · rw [visibleNames_self]
    exact hvisible

/-- **The classes that have been defined are in the heap** after any run of definitions,
also of some that were given up. -/
theorem Built.described (hlayout : Layout s₀.heap s₀.live)
    (hroles : Roles g ∅ s₀.live s₀.heap.mem) (h : Built g s₀ classes s) :
    ∃ K, Still g K s ∧ Describes s.heap.mem K classes := by
  induction h with
  | start => exact ⟨∅, ⟨hlayout, Set.empty_subset _, hroles⟩, .nil⟩
  | defined _ hg hsuper hrun ih =>
    obtain ⟨K, hs, hdescribes⟩ := ih
    subst hg
    exact hdescribes.define hs hsuper hrun
  | @refused classes s s' env d _ hg hrun ih =>
    obtain ⟨K, hs, hdescribes⟩ := ih
    subst hg
    have hquiet : Keeps (Quiet env.globals K K s.heap.mem ∅) (bcDefineClass env d) :=
      quiet_bcDefineClass d
    have hleft := hquiet s hs.quiet
    rw [hrun] at hleft
    have hstill := hleft.still
    rw [Set.union_empty] at hstill
    exact ⟨K, hstill, hdescribes.congr Set.Subset.rfl fun e he => (hleft.same e he).2⟩

end Runs

/-! ## §10. Slots. -/

/-- An instruction of a method, in its own code or in that of a block. -/
def Has (body : CompiledBody) (i : Compiler.Instruction) : Prop :=
  i ∈ body.body.bytecodes ∨ ∃ block ∈ body.blocks, i ∈ block.bytecodes

/-- The instance variables of a class: `names` are numbered from 0 to the instance size,
alike in every class that inherits them, and the bytecodes of its methods for instance
variables stay in any instance that `basicNew` allocates, also of such a class. -/
structure InstVarSlots (classes : Definitions) (m : Mem) (fuel c : Nat) (names : List CString) :
    Prop where
  index : ∀ name i, bcClassInstVarIndex m fuel c name = some i ↔ names[i]? = some name
  instSize : Interp.basicNewSize (objField m c classInstSize) = some (UInt64.ofNat names.length) ∧
    names.length < 2 ^ 61
  inherited : ∀ sub, Inherits classes sub c → sub ∈ classes.map Prod.fst → ∀ name i,
    bcClassInstVarIndex m fuel c name = some i → bcClassInstVarIndex m fuel sub name = some i
  inside : ∀ sub, Inherits classes sub c → sub ∈ classes.map Prod.fst →
    ∀ registered heap heap' size object,
    Interp.basicNewSize (objField m sub classInstSize) = some size →
    Interp.omAllocSized registered heap (UInt64.ofNat sub) formatFields size
      = some (object, heap') →
    ∀ gen header source body t, Compiler.bcCodegenMethod gen header
      (some fun name => bcClassInstVarIndex m fuel c (cString name)) source = .ok body t →
    ∀ i, Has body i → ∀ index, i.instVar = some index → index < (objSize heap'.mem object).toNat

/-- Every instance variable of a method is one that the class has. -/
theorem instVar_of_has {gen : Nat} {header : List Compiler.Name} {find : Compiler.Name → Option Nat}
    {source : List Char} {body : CompiledBody} {t : Compiler.CgState}
    (hrun : Compiler.bcCodegenMethod gen header (some find) source = .ok body t)
    {i : Compiler.Instruction} (hi : Has body i) {index : Nat} (hindex : i.instVar = some index) :
    ∃ name, find name = some index := by
  obtain ⟨hbody, htable⟩ := Compiler.bcCodegenMethod_bodyIn hrun
  rcases hi with hi | ⟨block, hblock, hi⟩
  · exact hbody.operands.instVar i hi index hindex find rfl
  · obtain ⟨n, hn⟩ := List.mem_iff_getElem?.mp hblock
    exact (htable n block (Nat.zero_le _) hn).operands.instVar i hi index hindex find rfl

theorem placeOf_eq_some {names : List CString} (hdistinct : names.Nodup) (name : CString)
    (i : Nat) : placeOf names name = some i ↔ names[i]? = some name := by
  unfold placeOf
  rw [List.findIdx?_eq_some_iff_getElem]
  constructor
  · rintro ⟨hlt, hsame, -⟩
    rw [List.getElem?_eq_getElem hlt]
    exact congrArg some (CString.ext (beq_iff_eq.mp hsame))
  · intro hi
    obtain ⟨hlt, rfl⟩ := List.getElem?_eq_some_iff.mp hi
    refine ⟨hlt, beq_self_eq_true _, fun j hj hsame => ?_⟩
    have heq := CString.ext (beq_iff_eq.mp hsame)
    have hindices := (List.Nodup.getElem_inj_iff hdistinct).mp heq
    omega

/-- **Instance-variable slots.**  After any run of definitions that starts from nothing, with
distinct names along every chain, the visible names of a class are its slots. -/
theorem inst_var_slots {g : Globals} {s₀ s : Arena} (hlayout : Layout s₀.heap s₀.live)
    (hroles : Roles g ∅ s₀.live s₀.heap.mem) {classes : Definitions} (hbuilt : Built g s₀ classes s)
    (hdistinct : ∀ c names, visibleNames classes c = some names → names.Nodup) {c : Nat}
    {names : List CString} (hc : visibleNames classes c = some names) {fuel : Nat}
    (hfuel : classes.length < fuel) : InstVarSlots classes s.heap.mem fuel c names := by
  obtain ⟨K, hs, hdescribes⟩ := hbuilt.described hlayout hroles
  have hplaced := hs.layout.placed.stopBound
  -- what holds of every class
  have hindex : ∀ {k : Nat} {shown : List CString}, visibleNames classes k = some shown →
      ∀ name i, bcClassInstVarIndex s.heap.mem fuel k name = some i ↔ shown[i]? = some name := by
    intro k shown hk name i
    rw [(hs.index hdescribes hk hfuel).2 name]
    exact placeOf_eq_some (hdistinct k shown hk) name i
  have hsize : ∀ {k : Nat} {shown : List CString}, visibleNames classes k = some shown →
      Interp.basicNewSize (objField s.heap.mem k classInstSize) = some (UInt64.ofNat shown.length) ∧
        shown.length < 2 ^ 61 := by
    intro k shown hk
    obtain ⟨_, _, hat⟩ := hdescribes.classAt hk
    have hbound := hs.names_bound hdescribes hk (hdistinct k shown hk)
    have hlt : shown.length < 2 ^ 61 := by omega
    rw [hat.instSize]
    exact ⟨basicNewSize_tagged hlt, hlt⟩
  have hsub : ∀ sub, Inherits classes sub c → sub ∈ classes.map Prod.fst →
      ∃ shown, visibleNames classes sub = some shown ∧ names <+: shown := by
    intro sub hinherits hdefined
    obtain ⟨⟨k, d⟩, hd, rfl⟩ := List.mem_map.mp hdefined
    obtain ⟨shown, hshown⟩ := hdescribes.defined hd
    exact ⟨shown, hshown, hdescribes.prefix hinherits hshown hc⟩
  refine ⟨hindex hc, hsize hc, ?_, ?_⟩
  · intro sub hinherits hdefined name i hi
    obtain ⟨shown, hshown, more, rfl⟩ := hsub sub hinherits hdefined
    have hplace := (hindex hc name i).mp hi
    refine (hindex hshown name i).mpr ?_
    rw [List.getElem?_append_left (List.getElem?_eq_some_iff.mp hplace).1]
    exact hplace
  · intro sub hinherits hdefined registered heap heap' size object hasked halloc gen header source
      body t hrun i hhas index hi
    obtain ⟨shown, hshown, hprefix⟩ := hsub sub hinherits hdefined
    obtain ⟨hsizeSub, hlt⟩ := hsize hshown
    rw [hsizeSub] at hasked
    obtain rfl := Option.some.inj hasked
    obtain ⟨-, hmem⟩ := Interp.omAllocSized_some halloc
    obtain ⟨-, -, hobject⟩ := Interp.writeSized_header heap.mem object (UInt64.ofNat sub)
      formatFields (UInt64.ofNat shown.length)
    rw [hmem, hobject, toNat_ofNat64 (by omega)]
    -- the index is that of a name the class shows
    obtain ⟨name, hname⟩ := instVar_of_has hrun hhas hi
    have hplace := (hindex hc (cString name) index).mp hname
    have hin : index < names.length := (List.getElem?_eq_some_iff.mp hplace).1
    have hle := hprefix.length_le
    omega

/-- A heap of one page without objects. -/
def emptyPage : Arena := ⟨Interp.onePage, ∅⟩

/-- Without a symbol table and a Smalltalk dictionary. -/
def noGlobals : Globals where
  symbolTable := 0
  symbolClass := 0
  contextClass := 0
  smalltalkDictionary := 0

def noEnv : InstallEnv where
  globals := noGlobals
  bindings := []
  classClass := 3
  stringClass := 0
  arrayClass := 0
  associationClass := 0

/-- `Object subclass: #Point instanceVariableNames: 'x y'` and a class that adds `z`. -/
def pointDefinition : ClassDefinition :=
  ⟨cString "Point".toList, none, [cString ['x'], cString ['y']], .fields⟩

def point3Definition : ClassDefinition :=
  ⟨cString "Point3".toList, some 65600, [cString ['z']], .fields⟩

/-- The class a definition makes, and the heap it leaves. -/
def defineResult (d : ClassDefinition) (s : Arena) : Option Nat × Arena :=
  match bcDefineClass noEnv d s with
  | .ok klass s' => (some klass, s')
  | .rejected s' => (none, s')
  | .outOfFuel => (none, s)

theorem defineResult_ok {d : ClassDefinition} {s : Arena} {klass : Nat}
    (h : (defineResult d s).1 = some klass) :
    bcDefineClass noEnv d s = .ok klass (defineResult d s).2 := by
  unfold defineResult at h ⊢
  cases hrun : bcDefineClass noEnv d s with
  | ok a s' =>
    rw [hrun] at h
    obtain rfl := Option.some.inj h
    rfl
  | rejected s' =>
    rw [hrun] at h
    cases h
  | outOfFuel =>
    rw [hrun] at h
    cases h

def points : Definitions := [(65832, point3Definition), (65600, pointDefinition)]

def withPoint : Arena := (defineResult pointDefinition emptyPage).2

def withPoints : Arena := (defineResult point3Definition withPoint).2

theorem withPoints_built : Built noGlobals emptyPage points withPoints := by
  have hpoint : Built noGlobals emptyPage [(65600, pointDefinition)] withPoint :=
    .defined .start rfl (fun _ h => nomatch h) (defineResult_ok (by decide +kernel))
  refine .defined hpoint rfl (fun superclass h => ?_) (defineResult_ok (by decide +kernel))
  obtain rfl := Option.some.inj h
  exact ⟨pointDefinition, List.mem_cons_self⟩

theorem points_distinct (c : Nat) (names : List CString) (h : visibleNames points c = some names) :
    names.Nodup := by
  refine List.Nodup.of_map CString.bytes ?_
  unfold points visibleNames at h
  split at h
  · obtain rfl := Option.some.inj h
    decide
  · unfold visibleNames at h
    split at h
    · obtain rfl := Option.some.inj h
      decide
    · cases h

/-- A point of three dimensions has its own coordinate behind the inherited ones. -/
theorem point3_slots : InstVarSlots points withPoints.heap.mem 3 65832
    [cString ['x'], cString ['y'], cString ['z']] := by
  have hlayout : Layout emptyPage.heap emptyPage.live :=
    omInit_layout ⟨65536, 4096, by decide, by decide, by decide⟩ _
  have hroles : Roles noGlobals ∅ emptyPage.live emptyPage.heap.mem :=
    ⟨fun hne => absurd rfl hne, fun hhas => absurd rfl hhas.1⟩
  exact inst_var_slots hlayout hroles withPoints_built points_distinct rfl (by decide)

end LivingObjects.Classes
