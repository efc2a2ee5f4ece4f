/-
  LivingObjects.Classes.Materialize — from compiled code to objects.

  `bc_materialize_compiled_method` makes the literals, the source string, the bytecodes
  and the compiled method itself.  A literal may be a string, a symbol, a class, which
  is entered into the Smalltalk dictionary, an array or a block, whose literals come
  before its code.  An allocation that fails is given up in most places; in three of
  them the source stores through the null pointer it has got.
-/
import LivingObjects.Compiler.Chunks
import LivingObjects.Classes.Globals
import LivingObjects.Classes.MethodDict

namespace LivingObjects.Compiler

/-! ## §1. Bytecodes. -/

/-- `cg_emit_u32`. -/
def u32Bytes (value : Nat) : List UInt8 :=
  [UInt8.ofNat value, UInt8.ofNat (value / 2 ^ 8), UInt8.ofNat (value / 2 ^ 16),
    UInt8.ofNat (value / 2 ^ 24)]

/-- The bytes of an instruction. -/
def Instruction.bytes : Instruction → List UInt8
  | .pushLiteral index => 0 :: u32Bytes index
  | .pushInstVar index => 1 :: u32Bytes index
  | .pushTemp slot => 2 :: u32Bytes slot
  | .pushSelf => [3]
  | .storeInstVar index => 4 :: u32Bytes index
  | .storeTemp slot => 5 :: u32Bytes slot
  | .sendMessage selector argc => 6 :: (u32Bytes selector ++ u32Bytes argc)
  | .ret => [7]
  | .jump target => 8 :: u32Bytes target
  | .jumpIfFalse target => 10 :: u32Bytes target
  | .pop => [11]
  | .pushClosure index => 14 :: u32Bytes index
  | .pushArg index => 15 :: u32Bytes index
  | .returnNonLocal => [16]
  | .pushThisContext => [17]
  | .pushGlobal index => 18 :: u32Bytes index

/-- `bytecodes`; a body without code gets one byte. -/
def codeBytes (code : List Instruction) : List UInt8 :=
  if code = [] then [0] else (code.map Instruction.bytes).flatten

/-- An instruction has as many bytes as the offsets count. -/
theorem Instruction.bytes_length (i : Instruction) : i.bytes.length = i.size := by
  cases i <;> rfl

/-! ## §2. The elements of literal arrays. -/

/-- The text after the parenthesis that closes as many open ones; every token takes at
least one character. -/
def afterNested : Nat → Nat → List Char → Option (List Char)
  | 0, _, _ => none
  | _ + 1, 0, rest => some rest
  | fuel + 1, depth + 1, rest =>
    let (token, after) := btNext rest
    if token.type = .eof then none
    else if token.isSpecial "#(" then afterNested fuel (depth + 2) after
    else if token.isSpecial ")" then afterNested fuel depth after
    else afterNested fuel (depth + 1) after

/-- The tokens of a literal array after its opening, with room for as many more; a
nested array is one token, with its text. -/
def literalArrayItems : Nat → List Char → Option (List BToken)
  | room, rest =>
    let (token, after) := btNext rest
    if token.type = .eof then none
    else if token.isSpecial ")" then some []
    else
      match room with
      | 0 => none
      | room + 1 =>
        if token.isSpecial "#(" then
          match afterNested (after.length + 2) 1 after with
          | none => none
          | some behind =>
            let text := ['#', '('] ++ textBetween after behind
            if textRoom < text.length then none
            else (literalArrayItems room behind).map
              ({ makeToken .literalArray with text := text } :: ·)
        else (literalArrayItems room after).map (token :: ·)

/-- What `bc_materialize_literal_array_oop` reads before it allocates. -/
def literalArrayTokens (source : List Char) : Option (List BToken) :=
  let (token, rest) := btNext source
  if token.isSpecial "#(" then literalArrayItems 16 rest else none

example : (literalArrayTokens "#(1 #(a b) #c)".toList).map (List.map fun t => String.ofList t.text)
    = some ["1", "#(a b)", "c"] := by decide +kernel

end LivingObjects.Compiler

namespace LivingObjects.Classes

open LivingObjects.Lib
open LivingObjects.VM
open LivingObjects.ObjectMemory
open LivingObjects.Compiler
open LivingObjects.Txn (untagSmallint tagSmallintNat allocRequest)

/-! ## §3. Classes by name. -/

/-- A C string in a field of 4096 bytes. -/
def cString (text : List Char) : CString where
  bytes := ((text.map fun c => UInt8.ofNat c.toNat).takeWhile (· != 0)).take 4095
  noNul := by
    intro b hb
    have hall := List.all_takeWhile (p := (· != 0)) (l := text.map fun c => UInt8.ofNat c.toNat)
    have hne := List.all_eq_true.mp hall b (List.mem_of_mem_take hb)
    simpa using hne
  fits := by
    have hlen := List.length_take_le 4095
      ((text.map fun c => UInt8.ofNat c.toNat).takeWhile (· != 0))
    omega

/-- `BClassBinding`; a class of 0 is `NULL`. -/
structure ClassBinding where
  className : Option (List Char)
  klass : Nat
deriving DecidableEq, Repr

/-- `bc_find_class_binding`. -/
def bcFindClassBinding (bindings : List ClassBinding) (name : List Char) : Option ClassBinding :=
  bindings.find? fun b => b.klass ≠ 0 && b.className == some name

/-- The dictionary is there and tagged as an object. -/
def Globals.HasDictionary (g : Globals) : Prop :=
  g.smalltalkDictionary ≠ 0 ∧ g.smalltalkDictionary % 4 = 0

instance (g : Globals) : Decidable g.HasDictionary := by
  unfold Globals.HasDictionary
  infer_instance

/-- The number in the tally field, as the loops count. -/
def tallyCount (tally : Oop) : Nat := (untagSmallint tally % 2 ^ 64).toNat

/-- The loop over the associations: the first with the key. -/
def associationWithKey (m : Mem) (associations tally : Nat) (key : Oop) : Option Oop :=
  (List.range tally).findSome? fun index =>
    let association := objField m associations index
    if isObjectPtr association = true ∧ objField m association.toNat 0 = key then some association
    else none

/-- `bc_lookup_smalltalk_global`; 0 is `NULL`. -/
def bcLookupSmalltalkGlobal (m : Mem) (g : Globals) (name : List Char) : Nat :=
  if ¬ g.HasDictionary then 0
  else
    let key := lookupCstringSymbol m g.symbolTable g.symbolClass (cString name)
    let associations := objField m g.smalltalkDictionary 0
    let tally := objField m g.smalltalkDictionary 1
    if key = taggedNil then 0
    else if isObjectPtr associations = false ∨ tally = taggedNil then 0
    else
      match associationWithKey m associations.toNat (tallyCount tally) key with
      | none => 0
      | some association =>
        let value := objField m association.toNat 1
        if isObjectPtr value then value.toNat else 0

/-- `bc_lookup_class_named`. -/
def bcLookupClassNamed (m : Mem) (g : Globals) (bindings : List ClassBinding) (name : List Char) :
    Nat :=
  match bcFindClassBinding bindings name with
  | some binding => binding.klass
  | none => bcLookupSmalltalkGlobal m g name

/-! ## §4. Objects. -/

/-- Programs over the heap that give up with what they have allocated left behind. -/
abbrev Mat := Attempt Arena

/-- The request of an `om_alloc`, when its size is a word and its bytes fit. -/
def requestFor (classPtr format : Oop) (size : Nat) : Option AllocRequest :=
  if size < 2 ^ 64 then (allocRequest classPtr format size).toOption else none

/-- `om_alloc`; `none` is `NULL`. -/
def tryAlloc (classPtr format : Oop) (size : Nat) : Mat (Option Nat) := .modifyGet fun s =>
  match requestFor classPtr format size with
  | none => (none, s)
  | some req =>
    match omAlloc s.heap req with
    | none => (none, s)
    | some (object, heap) =>
      (some object, { heap := heap, live := insert ⟨object, req.totalBytes⟩ s.live })

/-- `om_alloc` where `NULL` makes the caller give up. -/
def alloc (classPtr format : Oop) (size : Nat) : Mat Nat := do
  match ← tryAlloc classPtr format size with
  | none => .reject
  | some object => return object

/-- Stores into an object. -/
def editMem (f : Mem → Mem) : Mat Unit :=
  .modify fun s => { s with heap := { s.heap with mem := f s.heap.mem } }

def storeField (object index : Nat) (value : Oop) : Mat Unit :=
  editMem fun m => setObjField m object index value

/-- `memcpy` to the first field. -/
def storeBytes (object : Nat) (bytes : List UInt8) : Mat Unit :=
  editMem fun m => putBytes m (objFieldAddr object 0) bytes

/-- `n` fields from an index on are nil. -/
def nilFields (m : Mem) (object start n : Nat) : Mem :=
  (List.range n).foldl (fun m i => setObjField m object (start + i) taggedNil) m

/-- What the installers of a run share: the globals, the active bindings and the
classes they look up by name at the start; 0 is `NULL`. -/
structure InstallEnv where
  globals : Globals
  bindings : List ClassBinding
  classClass : Oop
  stringClass : Nat
  arrayClass : Nat
  associationClass : Nat

variable (env : InstallEnv)

/-- `intern_cstring_symbol` where nil makes the caller give up. -/
def internCString (text : CString) : Mat Oop := do
  let symbol ← (Attempt.modifyGet fun s =>
    internCstringSymbol s env.globals.symbolTable env.globals.symbolClass text : Mat Oop)
  .require (symbol != taggedNil)
  return symbol

def internSymbol (text : List Char) : Mat Oop := internCString env (cString text)

/-- `bc_make_byte_string`. -/
def makeCString (text : CString) : Mat Oop := do
  let string ← alloc (UInt64.ofNat env.stringClass) formatBytes text.bytes.length
  storeBytes string text.bytes
  return UInt64.ofNat string

def bcMakeByteString (text : List Char) : Mat Oop := makeCString env (cString text)

/-! ## §5. Associations. -/

/-- A dictionary without associations gets eight; the field that holds them. -/
def ensureAssociations (dictionary : Nat) : Mat Oop := do
  let s ← Attempt.get
  let associations := objField s.heap.mem dictionary 0
  if associations = taggedNil then
    let new ← alloc (UInt64.ofNat env.arrayClass) formatIndexable 8
    editMem fun m => nilFields m new 0 8
    editMem fun m =>
      setObjField (setObjField m dictionary 0 (UInt64.ofNat new)) dictionary 1 (tagSmallintNat 0)
    return UInt64.ofNat new
  else return associations

/-- A full array is copied to a larger one. -/
def growAssociations (dictionary associations tally : Nat) : Mat Nat := do
  let s ← Attempt.get
  let size := (objSize s.heap.mem associations).toNat
  if size ≤ tally then
    let newSize := if size = 0 then 8 else wrap64 (size * 2)
    let grown ← alloc (UInt64.ofNat env.arrayClass) formatIndexable newSize
    editMem fun m =>
      nilFields (copyFields m associations grown (min size newSize)) grown size (newSize - size)
    storeField dictionary 0 (UInt64.ofNat grown)
    return grown
  else return associations

/-- `bc_global_association_oop`: the association of the name, with the value. -/
def globalAssociation (name : CString) (value : Oop) : Mat Oop := do
  .require (decide env.globals.HasDictionary && env.arrayClass != 0 && env.associationClass != 0)
  let dictionary := env.globals.smalltalkDictionary
  let key ← internCString env name
  let s ← Attempt.get
  let tallyOop := objField s.heap.mem dictionary 1
  let tally := if tallyOop = taggedNil then 0 else tallyCount tallyOop
  let associations ← ensureAssociations env dictionary
  .require (isObjectPtr associations)
  let s ← Attempt.get
  match associationWithKey s.heap.mem associations.toNat tally key with
  | some association =>
    storeField association.toNat 1 value
    return association
  | none =>
    let associations ← growAssociations env dictionary associations.toNat tally
    let association ← alloc (UInt64.ofNat env.associationClass) formatFields 2
    storeField association 0 key
    storeField association 1 value
    storeField associations tally (UInt64.ofNat association)
    storeField dictionary 1 (tagSmallintNat (tally + 1))
    return UInt64.ofNat association

def bcGlobalAssociationOop (name : List Char) (value : Oop) : Mat Oop :=
  globalAssociation env (cString name) value

/-! ## §6. Literals. -/

/-- `tag_smallint`. -/
def tagSmallintInt (value : Int) : Oop := UInt64.ofNat (4 * (value % 2 ^ 64).toNat + 1)

/-- `tag_character`. -/
def tagCharacter (codePoint : Nat) : Oop := UInt64.ofNat (16 * codePoint + 15)

/-- `bc_literal_token_to_oop`. -/
def bcLiteralTokenToOop (token : BToken) : Mat Oop :=
  match token.type with
  | .integer => return tagSmallintInt token.intValue
  | .character => return tagCharacter token.intValue.toNat
  | .string => do
    .require (env.stringClass != 0)
    bcMakeByteString env token.text
  | .symbol | .selector => internSymbol env token.text
  | .classRef => do
    let s ← Attempt.get
    let klass := bcLookupClassNamed s.heap.mem env.globals env.bindings token.text
    .require (klass != 0 && env.associationClass != 0)
    bcGlobalAssociationOop env token.text (UInt64.ofNat klass)
  | .identifier =>
    if token.text = "nil".toList then return taggedNil
    else if token.text = "true".toList then return taggedTrue
    else if token.text = "false".toList then return taggedFalse
    else .reject
  | _ => .reject

/-- Literals into the fields of an array, from an index on. -/
def storeLiterals (toOop : BToken → Mat Oop) (array : Nat) : Nat → List BToken → Mat Unit
  | _, [] => pure ()
  | index, token :: rest => do
    let literal ← toOop token
    storeField array index literal
    storeLiterals toOop array (index + 1) rest

/-- `bc_materialize_literal_array_oop`; a nested array has a shorter text. -/
def bcMaterializeLiteralArrayOop : Nat → List Char → Mat Oop
  | 0, _ => .outOfFuel
  | fuel + 1, source =>
    match literalArrayTokens source with
    | none => .reject
    | some items => do
      let array ← alloc (UInt64.ofNat env.arrayClass) formatIndexable items.length
      storeLiterals
        (fun token =>
          if token.type = .literalArray then bcMaterializeLiteralArrayOop fuel token.text
          else bcLiteralTokenToOop env token)
        array 0 items
      return UInt64.ofNat array

/-! ## §7. Code. -/

/-- The fields of a compiled method, in their order. -/
def methodFields (primitive : Int) (argCount tempCount : Nat) (literals bytecodes source : Oop) :
    List Oop :=
  [tagSmallintInt primitive, tagSmallintNat argCount, tagSmallintNat tempCount, literals, bytecodes,
    source]

/-- A value into every field of a list, from an index on. -/
def storeValues (object : Nat) : Nat → List Oop → Mat Unit
  | _, [] => pure ()
  | index, value :: rest => do
    storeField object index value
    storeValues object (index + 1) rest

/-- `bc_build_block_literal_array`, nil without literals; a block inside is made by
`materialize`. -/
def bcBuildBlockLiteralArray (materialize : CompiledBlock → Mat Oop) (blocks : List CompiledBlock)
    (block : CompiledBlock) : Mat Oop :=
  if block.literals = [] then return taggedNil
  else do
    let literals ← alloc env.classClass formatIndexable block.literals.length
    storeLiterals
      (fun token =>
        if token.type = .blockLiteral then
          if token.intValue < 0 then .reject
          else
            match blocks[token.intValue.toNat]? with
            | none => .reject
            | some inner => materialize inner
        else bcLiteralTokenToOop env token)
      literals 0 block.literals
    return UInt64.ofNat literals

/-- `bc_materialize_compiled_block`; a block inside is a compiled method among the
literals. -/
def bcMaterializeCompiledBlock (blocks : List CompiledBlock) : Nat → CompiledBlock → Mat Oop
  | 0, _ => .outOfFuel
  | fuel + 1, block => do
    let literals ←
      bcBuildBlockLiteralArray env (bcMaterializeCompiledBlock blocks fuel) blocks block
    let code := codeBytes block.bytecodes
    let bytecodes ← alloc env.classClass formatBytes code.length
    storeBytes bytecodes code
    let compiledMethod ← alloc env.classClass formatFields 6
    storeValues compiledMethod 0
      (methodFields 0 block.argCount block.tempCount literals (UInt64.ofNat bytecodes) taggedNil)
    return UInt64.ofNat compiledMethod

/-- A literal of a method.  Nested arrays are shorter, and a block stands behind the one
it is in. -/
def methodLiteral (body : CompiledBody) (token : BToken) : Mat Oop :=
  if token.type = .blockLiteral then
    if token.intValue < 0 then .reject
    else
      match body.blocks[token.intValue.toNat]? with
      | none => .reject
      | some block => bcMaterializeCompiledBlock env body.blocks (body.blocks.length + 1) block
  else if token.type = .literalArray then do
    .require (env.arrayClass != 0)
    bcMaterializeLiteralArrayOop env (token.text.length + 1) token.text
  else bcLiteralTokenToOop env token

/-- `bc_build_literal_array`, nil without literals.  The array is not checked: when it is
missing, the first literal is still made and then stored through `NULL`, which is
`none`. -/
def bcBuildLiteralArray (body : CompiledBody) : Mat (Option Oop) :=
  match body.body.literals with
  | [] => return some taggedNil
  | token :: rest => do
    match ← tryAlloc env.classClass formatIndexable (rest.length + 1) with
    | none =>
      let _ ← methodLiteral env body token
      return none
    | some literals =>
      storeLiterals (methodLiteral env body) literals 0 (token :: rest)
      return some (UInt64.ofNat literals)

/-- The source string of a method, nil for an empty source. -/
def methodSourceString (methodSource : List Char) : Mat Oop :=
  if methodSource = [] then return taggedNil else bcMakeByteString env methodSource

/-- The bytecodes of a method and the method; `none` where a store goes through `NULL`. -/
def finishMethod (method : BCompiledMethodDef) (literals source : Oop) : Mat (Option Oop) := do
  let code := codeBytes method.body.body.bytecodes
  match ← tryAlloc env.classClass formatBytes code.length with
  | none => return none
  | some bytecodes =>
    storeBytes bytecodes code
    match ← tryAlloc env.classClass formatFields 6 with
    | none => return none
    | some compiledMethod =>
      let primitive := if 0 ≤ method.primitiveIndex then method.primitiveIndex else 0
      storeValues compiledMethod 0
        (methodFields primitive method.header.argNames.length method.body.body.tempCount literals
          (UInt64.ofNat bytecodes) source)
      return some (UInt64.ofNat compiledMethod)

/-- `bc_materialize_compiled_method`; `none` where a store goes through `NULL`. -/
def bcMaterializeCompiledMethod (method : BCompiledMethodDef) : Mat (Option Oop) := do
  match ← bcBuildLiteralArray env method.body with
  | none => return none
  | some literals =>
    let source ← methodSourceString env method.methodSource
    finishMethod env method literals source

end LivingObjects.Classes
