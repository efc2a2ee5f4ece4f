/-
  LivingObjects.VM.Object — tagged values and the object header.

  `vm_defs.h`, `tagged.c` and the size helpers of `object.c`: an Oop is a
  64-bit word whose two low bits are its tag; an object is three header words
  (class, format, size) followed by its body.  Addresses are natural numbers,
  stored words are `UInt64`; where C arithmetic on a stored size can wrap, it
  wraps here (`wrap64`).
-/
import LivingObjects.Lib.ByteMem

namespace LivingObjects.VM

open LivingObjects.Lib

/-- A tagged VM value. -/
abbrev Oop := UInt64

/-- Unsigned 64-bit wrap-around. -/
def wrap64 (n : Nat) : Nat := n % 2 ^ 64

theorem wrap64_of_lt {n : Nat} (h : n < 2 ^ 64) : wrap64 n = n := Nat.mod_eq_of_lt h

theorem toNat_ofNat64 {n : Nat} (h : n < 2 ^ 64) : (UInt64.ofNat n).toNat = n :=
  UInt64.toNat_ofNat_of_lt' h

/-! ## §1. Tags. -/

def tagMask : UInt64 := 3
def tagObject : UInt64 := 0
def tagSmallint : UInt64 := 1
def smallintShift : UInt64 := 2

def taggedNil : Oop := 0x03
def taggedTrue : Oop := 0x07
def taggedFalse : Oop := 0x0B

/-- `is_object_ptr` (and `is_object_value`): the tag is 00.  The null word passes. -/
def isObjectPtr (value : Oop) : Bool :=
  value &&& tagMask == tagObject

/-- `is_smallint`. -/
def isSmallint (value : Oop) : Bool :=
  value &&& tagMask == tagSmallint

/-- The low byte of `untag_smallint(value)`: an arithmetic shift by the tag
width does not disturb the eight bits that are kept. -/
def untagSmallintByte (value : Oop) : UInt8 :=
  (value >>> smallintShift).toUInt8

theorem and_tagMask_toNat (value : Oop) : (value &&& tagMask).toNat = value.toNat % 4 := by
  rw [UInt64.toNat_and]
  exact Nat.and_two_pow_sub_one_eq_mod value.toNat 2

theorem isObjectPtr_iff (value : Oop) : isObjectPtr value = true ↔ value.toNat % 4 = 0 := by
  unfold isObjectPtr
  rw [beq_iff_eq, ← UInt64.toNat_inj, and_tagMask_toNat]
  rfl

/-! ## §2. Object layout. -/

def wordSize : Nat := 8
def objHeaderWords : Nat := 3

def formatFields : UInt64 := 0
def formatIndexable : UInt64 := 1
def formatBytes : UInt64 := 2

/-- `OBJ_CLASS`. -/
def objClass (m : Mem) (obj : Nat) : UInt64 := load64 m obj

/-- `OBJ_FORMAT`. -/
def objFormat (m : Mem) (obj : Nat) : UInt64 := load64 m (obj + 8)

/-- `OBJ_SIZE`. -/
def objSize (m : Mem) (obj : Nat) : UInt64 := load64 m (obj + 16)

/-- The address of `OBJ_FIELD(obj, n)`; byte `n` of a byte body sits at
`objFieldAddr obj 0 + n`. -/
def objFieldAddr (obj n : Nat) : Nat := obj + 24 + 8 * n

/-- `OBJ_FIELD`. -/
def objField (m : Mem) (obj n : Nat) : UInt64 := load64 m (objFieldAddr obj n)

/-- `OBJ_FIELD(obj, n) = value`. -/
def setObjField (m : Mem) (obj n : Nat) (value : UInt64) : Mem :=
  store64 m (objFieldAddr obj n) value

/-- The body words of an object of this format and size
(`object_slot_count`, `checkpoint_object_slot_count`). -/
def slotWords (format size : UInt64) : Nat :=
  if format = formatBytes then wrap64 (size.toNat + (wordSize - 1)) / wordSize else size.toNat

/-- `object_slot_count`. -/
def objectSlotCount (m : Mem) (obj : Nat) : Nat :=
  slotWords (objFormat m obj) (objSize m obj)

/-- `om_object_words`. -/
def omObjectWords (m : Mem) (obj : Nat) : Nat :=
  wrap64 (objHeaderWords + objectSlotCount m obj)

/-- `om_object_bytes`. -/
def omObjectBytes (m : Mem) (obj : Nat) : Nat :=
  wrap64 (omObjectWords m obj * wordSize)

end LivingObjects.VM
