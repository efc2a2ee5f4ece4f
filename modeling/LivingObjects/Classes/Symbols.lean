/-
  LivingObjects.Classes.Symbols — the symbol table.

  The symbol table is an indexable object whose free entries are nil.  Both ways to
  intern scan it for a byte object with the given bytes; when there is none,
  `intern_cstring_symbol` enters a new object with a copy of the text, and
  `prim_string_as_symbol` the receiver itself, with its class changed.
-/
import LivingObjects.ObjectMemory.Bodies
import LivingObjects.ObjectMemory.Apart

namespace LivingObjects.Classes

open LivingObjects.Lib
open LivingObjects.VM
open LivingObjects.ObjectMemory

/-! ## §1. The scan. -/

/-- The bytes of a byte object. -/
def objBytes (m : Mem) (obj : Nat) : List UInt8 :=
  bytesFrom m (objFieldAddr obj 0) (objSize m obj).toNat

/-- The loop that `lookup_cstring_symbol` and `prim_string_as_symbol` share: the first
entry of the table that has this size and these bytes, nil when none has. -/
def lookupSymbol (m : Mem) (table : Nat) (size : UInt64) (text : List UInt8) : Oop :=
  ((List.range (objSize m table).toNat).findSome? (fun i =>
    let existingSymbol := objField m table i
    if isObjectPtr existingSymbol = true ∧ objSize m existingSymbol.toNat = size ∧
        bytesFrom m (objFieldAddr existingSymbol.toNat 0) size.toNat = text then
      some existingSymbol
    else none)).getD taggedNil

/-- The first nil of the first `tableSize` entries. -/
def freeEntry (m : Mem) (table tableSize : Nat) : Option Nat :=
  (List.range tableSize).find? (fun i => objField m table i == taggedNil)

/-! ## §2. Interning. -/

/-- A C string; with its terminator it fits the address space. -/
structure CString where
  bytes : List UInt8
  noNul : ∀ b ∈ bytes, b ≠ 0
  fits : bytes.length + 32 ≤ 2 ^ 63

/-- `strlen`. -/
def CString.size (text : CString) : UInt64 := UInt64.ofNat text.bytes.length

theorem CString.size_toNat (text : CString) : text.size.toNat = text.bytes.length := by
  have hfits := text.fits
  exact toNat_ofNat64 (by omega)

theorem CString.slotWords (text : CString) :
    slotWords formatBytes text.size = (text.bytes.length + 7) / 8 := by
  have hfits := text.fits
  unfold VM.slotWords wordSize
  rw [if_pos rfl, text.size_toNat, wrap64_of_lt (by omega)]

/-- The request for a symbol. -/
def symbolRequest (symbolClass : Oop) (text : CString) : AllocRequest where
  classPtr := symbolClass
  format := formatBytes
  size := text.size
  roundsUp := by
    intro _
    have hfits := text.fits
    rw [text.size_toNat]
    omega
  fits := by
    have hfits := text.fits
    rw [text.slotWords]
    omega

/-- `lookup_cstring_symbol`. -/
def lookupCstringSymbol (m : Mem) (table : Nat) (symbolClass : Oop) (text : CString) : Oop :=
  if table = 0 ∨ symbolClass = 0 then taggedNil else lookupSymbol m table text.size text.bytes

/-- `intern_cstring_symbol`, with the new object among the live ones. -/
def internCstringSymbol (s : Arena) (table : Nat) (symbolClass : Oop) (text : CString) :
    Oop × Arena :=
  if table = 0 ∨ symbolClass = 0 then (taggedNil, s)
  else
    let existing := lookupCstringSymbol s.heap.mem table symbolClass text
    if existing ≠ taggedNil then (existing, s)
    else
      let tableSize := (objSize s.heap.mem table).toNat
      match omAlloc s.heap (symbolRequest symbolClass text) with
      | none => (taggedNil, s)
      | some (symbolObj, h) =>
        let live := insert ⟨symbolObj, (symbolRequest symbolClass text).totalBytes⟩ s.live
        let m := putBytes h.mem (objFieldAddr symbolObj 0) text.bytes
        match freeEntry m table tableSize with
        | none => (taggedNil, { heap := { h with mem := m }, live := live })
        | some i =>
          (UInt64.ofNat symbolObj,
            { heap := { h with mem := setObjField m table i (UInt64.ofNat symbolObj) }
              live := live })

/-- `prim_string_as_symbol`. -/
def primStringAsSymbol (m : Mem) (table : Nat) (symbolClass receiver : Oop) : Oop × Mem :=
  if isObjectPtr receiver = false then (taggedNil, m)
  else if table = 0 ∨ symbolClass = 0 then (taggedNil, m)
  else
    let existing := lookupSymbol m table (objSize m receiver.toNat) (objBytes m receiver.toNat)
    if existing ≠ taggedNil then (existing, m)
    else
      match freeEntry m table (objSize m table).toNat with
      | none => (taggedNil, m)
      | some i => (receiver, setObjField (store64 m receiver.toNat symbolClass) table i receiver)

/-! ## §3. What the scan finds. -/

/-- The objects in the table. -/
def symbols (m : Mem) (table : Nat) : Set Oop :=
  {o | isObjectPtr o = true ∧ ∃ i, i < (objSize m table).toNat ∧ objField m table i = o}

theorem objBytes_length (m : Mem) (obj : Nat) : (objBytes m obj).length = (objSize m obj).toNat :=
  bytesFrom_length _ _ _

theorem isObjectPtr_taggedNil : isObjectPtr taggedNil = false := by decide

theorem lookupSymbol_eq_nil {m : Mem} {table : Nat} {size : UInt64} {text : List UInt8}
    (hsize : size.toNat = text.length) (hnil : lookupSymbol m table size text = taggedNil) :
    ∀ o ∈ symbols m table, objBytes m o.toNat ≠ text := by
  rintro o ⟨hptr, i, hi, hfield⟩ heq
  unfold lookupSymbol at hnil
  rcases hfound : (List.range (objSize m table).toNat).findSome? (fun i =>
      let existingSymbol := objField m table i
      if isObjectPtr existingSymbol = true ∧ objSize m existingSymbol.toNat = size ∧
          bytesFrom m (objFieldAddr existingSymbol.toNat 0) size.toNat = text then
        some existingSymbol
      else none) with _ | found
  · -- the entry itself would have matched
    have hno := List.findSome?_eq_none_iff.mp hfound i (List.mem_range.mpr hi)
    simp only [hfield] at hno
    have hobj : objSize m o.toNat = size := by
      apply UInt64.toNat_inj.mp
      rw [hsize, ← heq, objBytes_length]
    rw [if_pos ⟨hptr, hobj, by rw [← hobj]; exact heq⟩] at hno
    cases hno
  · rw [hfound] at hnil
    obtain ⟨j, -, hj⟩ := List.exists_of_findSome?_eq_some hfound
    simp only at hj
    split at hj
    · next hmatch =>
      have hfoundNil : found = taggedNil := hnil
      rw [Option.some.inj hj, hfoundNil, isObjectPtr_taggedNil] at hmatch
      exact absurd hmatch.1 (by decide)
    · cases hj

theorem lookupSymbol_ne_nil {m : Mem} {table : Nat} {size : UInt64} {text : List UInt8}
    (hne : lookupSymbol m table size text ≠ taggedNil) :
    lookupSymbol m table size text ∈ symbols m table ∧
      objBytes m (lookupSymbol m table size text).toNat = text := by
  unfold lookupSymbol at hne ⊢
  rcases hfound : (List.range (objSize m table).toNat).findSome? (fun i =>
      let existingSymbol := objField m table i
      if isObjectPtr existingSymbol = true ∧ objSize m existingSymbol.toNat = size ∧
          bytesFrom m (objFieldAddr existingSymbol.toNat 0) size.toNat = text then
        some existingSymbol
      else none) with _ | found
  · rw [hfound] at hne
    exact absurd rfl hne
  · obtain ⟨j, hj, hentry⟩ := List.exists_of_findSome?_eq_some hfound
    simp only at hentry
    split at hentry
    · next hmatch =>
      obtain ⟨hptr, hsize, hbytes⟩ := hmatch
      rw [Option.some.inj hentry] at hptr hsize hbytes
      refine ⟨⟨hptr, j, List.mem_range.mp hj, Option.some.inj hentry⟩, ?_⟩
      show objBytes m found.toNat = text
      unfold objBytes
      rw [hsize]
      exact hbytes
    · cases hentry

theorem freeEntry_some {m : Mem} {table tableSize i : Nat}
    (h : freeEntry m table tableSize = some i) :
    i < tableSize ∧ objField m table i = taggedNil := by
  unfold freeEntry at h
  refine ⟨List.mem_range.mp (List.mem_of_find?_eq_some h), ?_⟩
  have hnil := List.find?_some h
  simpa using hnil

theorem freeEntry_none {m : Mem} {table tableSize i : Nat}
    (h : freeEntry m table tableSize = none) (hi : i < tableSize) :
    objField m table i ≠ taggedNil := by
  unfold freeEntry at h
  have hno := List.find?_eq_none.mp h i (List.mem_range.mpr hi)
  simpa using hno

/-- The same fields are the same symbols. -/
theorem symbols_congr {m m' : Mem} {table : Nat} (hsize : objSize m' table = objSize m table)
    (hfield : ∀ i, i < (objSize m table).toNat → objField m' table i = objField m table i) :
    symbols m' table = symbols m table := by
  ext o
  unfold symbols
  rw [Set.mem_ofPred_eq, Set.mem_ofPred_eq, hsize]
  refine and_congr_right fun _ => exists_congr fun i => ?_
  constructor
  · rintro ⟨hi, ho⟩
    exact ⟨hi, (hfield i hi).symm.trans ho⟩
  · rintro ⟨hi, ho⟩
    exact ⟨hi, (hfield i hi).trans ho⟩

/-- A free entry is set. -/
theorem symbols_insert {m m' : Mem} {table i : Nat} {o : Oop} (hptr : isObjectPtr o = true)
    (hsize : objSize m' table = objSize m table) (hi : i < (objSize m table).toNat)
    (hfree : objField m table i = taggedNil) (hset : objField m' table i = o)
    (hfield : ∀ j, j < (objSize m table).toNat → j ≠ i →
      objField m' table j = objField m table j) :
    symbols m' table = insert o (symbols m table) := by
  ext x
  unfold symbols
  rw [Set.mem_insert_iff, Set.mem_ofPred_eq, Set.mem_ofPred_eq, hsize]
  constructor
  · rintro ⟨hx, j, hj, rfl⟩
    rcases eq_or_ne j i with rfl | hne
    · exact .inl hset
    · exact .inr ⟨hx, j, hj, (hfield j hj hne).symm⟩
  · rintro (rfl | ⟨hx, j, hj, rfl⟩)
    · exact ⟨hptr, i, hi, hset⟩
    · refine ⟨hx, j, hj, hfield j hj ?_⟩
      rintro rfl
      rw [hfree, isObjectPtr_taggedNil] at hx
      cases hx

end LivingObjects.Classes
