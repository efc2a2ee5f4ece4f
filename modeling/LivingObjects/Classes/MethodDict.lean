/-
  LivingObjects.Classes.MethodDict — method dictionaries and method lookup.

  A class is an object whose first two fields are its superclass and its method
  dictionary, an indexable object of selectors and methods in turn.
  `bc_append_method_dict` copies the dictionary of a class and puts the new pair at the
  end; `md_lookup` scans it from the front; `class_lookup` goes up the superclasses.
  `classLookup_eq` says what a lookup finds: the first entry for the selector in the
  nearest class that has one.
-/
import LivingObjects.ObjectMemory.Bodies

namespace LivingObjects.Classes

open LivingObjects.Lib
open LivingObjects.VM
open LivingObjects.ObjectMemory

/-! ## §1. Lookup. -/

/-- `CLASS_SUPERCLASS`. -/
def classSuperclass : Nat := 0

/-- `CLASS_METHOD_DICT`. -/
def classMethodDict : Nat := 1

/-- The loop of `md_lookup` from an index on; every turn takes two of the fuel. -/
def mdLookupFrom (m : Mem) (methodDict : Nat) (selector : Oop) : Nat → Nat → Oop
  | 0, _ => 0
  | fuel + 1, index =>
    if index < (objSize m methodDict).toNat then
      if objField m methodDict index = selector then objField m methodDict (index + 1)
      else mdLookupFrom m methodDict selector fuel (index + 2)
    else 0

/-- `md_lookup`. -/
def mdLookup (m : Mem) (methodDict : Nat) (selector : Oop) : Oop :=
  mdLookupFrom m methodDict selector (objSize m methodDict).toNat 0

/-- `class_lookup`; with the fuel spent it has not come to an end. -/
def classLookup (m : Mem) (selector : Oop) : Nat → Oop → Option Oop
  | 0, _ => none
  | fuel + 1, klass =>
    if klass = 0 ∨ klass = taggedNil then some 0
    else
      let methodDict := objField m klass.toNat classMethodDict
      if methodDict ≠ taggedNil ∧ mdLookup m methodDict.toNat selector ≠ 0 then
        some (mdLookup m methodDict.toNat selector)
      else classLookup m selector fuel (objField m klass.toNat classSuperclass)

/-! ## §2. Installation. -/

/-- A request for an indexable object. -/
def indexableRequest (classPtr : Oop) (size : UInt64) (h : 8 * (3 + size.toNat) ≤ 2 ^ 63) :
    AllocRequest where
  classPtr := classPtr
  format := formatIndexable
  size := size
  roundsUp := fun hf => absurd hf (by decide)
  fits := h

/-- The first `n` fields of one object copied to another. -/
def copyFields (m : Mem) (src dst n : Nat) : Mem :=
  (List.range n).foldl (fun m index => setObjField m dst index (objField m src index)) m

/-- The size of the dictionary there is, 0 when there is none. -/
def oldSize (m : Mem) (klass : Nat) : UInt64 :=
  let mdValue := objField m klass classMethodDict
  if mdValue ≠ taggedNil ∧ isObjectPtr mdValue = true ∧ mdValue ≠ 0 then objSize m mdValue.toNat
  else 0

/-- `bc_append_method_dict`: the new dictionary and the heap; `none` when the
allocation fails, where the source stores through a null pointer. -/
def bcAppendMethodDict (h : Heap) (classClass : Oop) (klass : Nat) (selector method : Oop) :
    Option (Nat × Heap) :=
  let size := oldSize h.mem klass
  if hfits : 8 * (3 + (size + 2).toNat) ≤ 2 ^ 63 then
    match omAlloc h (indexableRequest classClass (size + 2) hfits) with
    | none => none
    | some (newMd, h') =>
      let m := copyFields h'.mem (objField h.mem klass classMethodDict).toNat newMd size.toNat
      let m := setObjField m newMd size.toNat selector
      let m := setObjField m newMd (size.toNat + 1) method
      let m := setObjField m klass classMethodDict (UInt64.ofNat newMd)
      some (newMd, { h' with mem := m })
  else none

/-! ## §3. Fields. -/

/-- Copied fields, and everything else. -/
theorem copyFields_spec (m : Mem) (src dst n : Nat)
    (hapart : objFieldAddr src n ≤ objFieldAddr dst 0 ∨ objFieldAddr dst n ≤ objFieldAddr src 0) :
    (∀ i, i < n → objField (copyFields m src dst n) dst i = objField m src i) ∧
    ∀ a, a < objFieldAddr dst 0 ∨ objFieldAddr dst n ≤ a → copyFields m src dst n a = m a := by
  induction n with
  | zero => exact ⟨fun i hi => absurd hi (Nat.not_lt_zero i), fun _ _ => rfl⟩
  | succ n ih =>
    unfold objFieldAddr at hapart
    obtain ⟨hfields, hother⟩ := ih (by unfold objFieldAddr; omega)
    have hstep : copyFields m src dst (n + 1)
        = setObjField (copyFields m src dst n) dst n (objField (copyFields m src dst n) src n) := by
      unfold copyFields
      rw [List.range_succ, List.foldl_append]
      rfl
    rw [hstep]
    refine ⟨fun i hi => ?_, fun a ha => ?_⟩
    · rcases Nat.eq_or_lt_of_le (Nat.le_of_lt_succ hi) with rfl | hlt
      · rw [objField_setObjField_self]
        refine objField_congr fun a hlo hhi => hother a ?_
        unfold objFieldAddr at *
        omega
      · rw [objField_setObjField_of_ne _ _ _ (by omega)]
        exact hfields i hlt
    · rw [← hother a (by unfold objFieldAddr at *; omega)]
      unfold setObjField
      refine store64_of_out _ _ ?_
      unfold objFieldAddr at *
      omega

/-! ## §4. What a lookup finds. -/

/-- The object at an address is a dictionary with these entries. -/
structure DictAt (m : Mem) (methodDict : Nat) (entries : List (Oop × Oop)) : Prop where
  size : (objSize m methodDict).toNat = 2 * entries.length
  entry : ∀ i, (hi : i < entries.length) →
    objField m methodDict (2 * i) = (entries[i]).1 ∧ objField m methodDict (2 * i + 1) = (entries[i]).2

/-- The method of the first entry for the selector. -/
def firstEntry (entries : List (Oop × Oop)) (selector : Oop) : Option Oop :=
  (entries.find? (fun p => p.1 == selector)).map Prod.snd

theorem mdLookupFrom_eq {m : Mem} {methodDict : Nat} {entries : List (Oop × Oop)}
    (hd : DictAt m methodDict entries) (selector : Oop) :
    ∀ (fuel done : Nat), entries.length ≤ done + fuel →
      mdLookupFrom m methodDict selector fuel (2 * done)
        = (firstEntry (entries.drop done) selector).getD 0 := by
  intro fuel
  induction fuel with
  | zero =>
    intro done hfuel
    rw [List.drop_eq_nil_of_le (by omega)]
    rfl
  | succ fuel ih =>
    intro done hfuel
    rw [mdLookupFrom, hd.size]
    by_cases hlt : done < entries.length
    · obtain ⟨hkey, hvalue⟩ := hd.entry done hlt
      rw [if_pos (by omega), hkey, hvalue, List.drop_eq_getElem_cons hlt]
      unfold firstEntry
      rw [List.find?_cons]
      by_cases heq : (entries[done]).1 = selector
      · rw [if_pos heq]
        simp [heq]
      · have hnext := ih (done + 1) (by omega)
        rw [Nat.mul_add] at hnext
        have hbeq : ((entries[done]).1 == selector) = false := by simpa using heq
        rw [if_neg heq, hnext, hbeq]
        rfl
    · rw [if_neg (by omega), List.drop_eq_nil_of_le (by omega)]
      rfl

/-- **`md_lookup` finds the first entry.** -/
theorem mdLookup_eq {m : Mem} {methodDict : Nat} {entries : List (Oop × Oop)}
    (hd : DictAt m methodDict entries) (selector : Oop) :
    mdLookup m methodDict selector = (firstEntry entries selector).getD 0 := by
  have hfrom := mdLookupFrom_eq hd selector (objSize m methodDict).toNat 0
    (by rw [hd.size]; omega)
  rw [List.drop_zero] at hfrom
  exact hfrom

/-- The classes from a class up, by their superclass fields. -/
inductive Ancestors (m : Mem) : Oop → List Nat → Prop
  | none {klass : Oop} (hend : klass = 0 ∨ klass = taggedNil) : Ancestors m klass []
  | some {klass : Oop} {rest : List Nat} (hne : ¬ (klass = 0 ∨ klass = taggedNil))
      (hrest : Ancestors m (objField m klass.toNat classSuperclass) rest) :
      Ancestors m klass (klass.toNat :: rest)

/-- The method dictionary of a class holds these entries; a class without methods may
have none. -/
def HasMethods (m : Mem) (klass : Nat) (entries : List (Oop × Oop)) : Prop :=
  (objField m klass classMethodDict = taggedNil ∧ entries = []) ∨
  (objField m klass classMethodDict ≠ taggedNil ∧
    DictAt m (objField m klass classMethodDict).toNat entries)

/-- The first entry for the selector in the nearest class that has one, 0 when none
has. -/
def nearestFirst (methods : Nat → List (Oop × Oop)) (selector : Oop) : List Nat → Oop
  | [] => 0
  | klass :: rest => (firstEntry (methods klass) selector).getD (nearestFirst methods selector rest)

/-- **What `class_lookup` finds.** -/
theorem classLookup_eq {m : Mem} {methods : Nat → List (Oop × Oop)} {klass : Oop}
    {chain : List Nat} (hchain : Ancestors m klass chain)
    (hmethods : ∀ c ∈ chain, HasMethods m c (methods c) ∧ ∀ p ∈ methods c, p.2 ≠ 0)
    (selector : Oop) {fuel : Nat} (hfuel : chain.length < fuel) :
    classLookup m selector fuel klass = some (nearestFirst methods selector chain) := by
  induction hchain generalizing fuel with
  | none hend =>
    obtain ⟨fuel, rfl⟩ : ∃ k, fuel = k + 1 := ⟨fuel - 1, by omega⟩
    rw [classLookup, if_pos hend]
    rfl
  | @some klass rest hne _ ih =>
    obtain ⟨fuel, rfl⟩ : ∃ k, fuel = k + 1 := ⟨fuel - 1, by omega⟩
    rw [List.length_cons] at hfuel
    have hrest := ih (fun c hc => hmethods c (List.mem_cons_of_mem _ hc))
      (show rest.length < fuel by omega)
    obtain ⟨hhas, hnonzero⟩ := hmethods klass.toNat List.mem_cons_self
    rw [classLookup, if_neg hne, nearestFirst]
    simp only
    rcases hhas with ⟨hnil, hempty⟩ | ⟨hdict, hat⟩
    · rw [if_neg (fun hc => hc.1 hnil), hrest, hempty]
      rfl
    · rw [mdLookup_eq hat]
      rcases hfirst : firstEntry (methods klass.toNat) selector with _ | method
      · rw [if_neg (fun hc => hc.2 rfl), hrest]
        rfl
      · have hmethod : method ≠ 0 := by
          obtain ⟨p, hp, rfl⟩ := Option.map_eq_some_iff.mp hfirst
          exact hnonzero p (List.mem_of_find?_eq_some hp)
        rw [if_pos ⟨hdict, hmethod⟩]
        rfl

end LivingObjects.Classes
