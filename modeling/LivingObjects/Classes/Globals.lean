/-
  LivingObjects.Classes.Globals — the globals of the Smalltalk dictionary.

  The dictionary is an object whose first field is an array of associations and whose
  second is their number; an association has its key, a symbol, before its value.
  `smalltalk_lookup_global_value` goes from a name to its symbol and from the symbol to
  the value.
-/
import LivingObjects.Classes.Symbols
import LivingObjects.Txn.Access

namespace LivingObjects.Classes

open LivingObjects.Lib
open LivingObjects.VM
open LivingObjects.ObjectMemory
open LivingObjects.Txn (untagSmallint)

/-- The globals of the VM; 0 is `NULL`. -/
structure Globals where
  symbolTable : Nat
  symbolClass : Oop
  contextClass : Oop
  smalltalkDictionary : Nat

/-- `smalltalk_dictionary_bindings`: the associations and their number. -/
def smalltalkDictionaryBindings (m : Mem) (dictionary : Nat) : Option (Oop × Nat) :=
  if dictionary = 0 then none
  else
    let associations := objField m dictionary 0
    let tally := objField m dictionary 1
    if isObjectPtr associations = false ∨ isSmallint tally = false then none
    else some (associations, (untagSmallint tally % 2 ^ 64).toNat)

/-- `smalltalk_find_association_by_key`: the value of the first association with the
key, nil when there is none. -/
def smalltalkFindAssociationByKey (m : Mem) (dictionary : Nat) (key : Oop) : Oop :=
  if isObjectPtr key = false then taggedNil
  else
    match smalltalkDictionaryBindings m dictionary with
    | none => taggedNil
    | some (associations, tally) =>
      ((List.range tally).findSome? (fun index =>
        let association := objField m associations.toNat index
        if isObjectPtr association = true ∧ objField m association.toNat 0 = key then
          some (objField m association.toNat 1)
        else none)).getD taggedNil

/-- `smalltalk_lookup_global_value`. -/
def smalltalkLookupGlobalValue (m : Mem) (g : Globals) (name : CString) : Oop :=
  let key := lookupCstringSymbol m g.symbolTable g.symbolClass name
  if key = taggedNil then taggedNil else smalltalkFindAssociationByKey m g.smalltalkDictionary key

end LivingObjects.Classes
