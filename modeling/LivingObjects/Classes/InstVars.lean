/-
  LivingObjects.Classes.InstVars — the instance variables of a class.

  A class has the names it adds in an array of strings; the index of a name counts those
  of the superclasses first.
-/
import LivingObjects.Classes.Materialize

namespace LivingObjects.Classes

open LivingObjects.Lib
open LivingObjects.VM
open LivingObjects.ObjectMemory

/-! ## §1. Indices. -/

/-- `bc_name_matches_string_oop`. -/
def bcNameMatchesStringOop (m : Mem) (oop : Oop) (name : CString) : Bool :=
  isObjectPtr oop && oop != 0 && (objSize m oop.toNat == name.size &&
    bytesFrom m (objFieldAddr oop.toNat 0) name.bytes.length == name.bytes)

/-- The field is an object. -/
def isObject (oop : Oop) : Bool := isObjectPtr oop && oop != 0

/-- `BC_CLASS_INST_VARS`. -/
def classInstVars : Nat := 4

/-- The names of the instance variables a class adds, when it has the field. -/
def instVarNamesOop (m : Mem) (klass : Nat) : Option Oop :=
  if (objSize m klass).toNat ≤ classInstVars then none
  else if isObject (objField m klass classInstVars) then some (objField m klass classInstVars)
  else none

/-- `bc_class_total_inst_var_count`, with as much fuel as there are classes on the way
up. -/
def bcClassTotalInstVarCount (m : Mem) : Nat → Nat → Nat
  | 0, _ => 0
  | fuel + 1, klass =>
    if klass = 0 ∨ klass % 4 ≠ 0 then 0
    else
      let superOop := objField m klass classSuperclass
      (if isObject superOop then bcClassTotalInstVarCount m fuel superOop.toNat else 0)
        + ((instVarNamesOop m klass).map fun ivars => (objSize m ivars.toNat).toNat).getD 0

/-- `bc_class_inst_var_index`, `none` for -1. -/
def bcClassInstVarIndex (m : Mem) : Nat → Nat → CString → Option Nat
  | 0, _, _ => none
  | fuel + 1, klass, name =>
    if klass = 0 ∨ klass % 4 ≠ 0 then none
    else
      let superOop := objField m klass classSuperclass
      match (if isObject superOop then bcClassInstVarIndex m fuel superOop.toNat name else none) with
      | some superIndex => some superIndex
      | none =>
        let inheritedCount :=
          if isObject superOop then bcClassTotalInstVarCount m fuel superOop.toNat else 0
        match instVarNamesOop m klass with
        | none => none
        | some ivars =>
          ((List.range (objSize m ivars.toNat).toNat).find? fun index =>
            bcNameMatchesStringOop m (objField m ivars.toNat index) name).map (inheritedCount + ·)

end LivingObjects.Classes
