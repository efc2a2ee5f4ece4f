/-
  LivingObjects.Lib.Fnv — the 64-bit FNV-1a style hash chain.

  One step xors a unit into the hash and multiplies by an odd constant.  The
  multiplication is invertible modulo 2^64, so a step is injective in each of
  its two arguments: two equally long inputs that differ in exactly one unit
  never collide.
-/
import Mathlib

namespace LivingObjects.Lib

/-- The FNV-1a offset basis. -/
def fnvOffset : UInt64 := 1469598103934665603

/-- The FNV-1a prime. -/
def fnvPrime : UInt64 := 1099511628211

/-- The inverse of `fnvPrime` modulo 2^64. -/
def fnvPrimeInv : UInt64 := 14886173955864302971

/-- One FNV-1a step: xor the unit in, multiply by the prime. -/
def fnvStep (hash unit : UInt64) : UInt64 :=
  (hash ^^^ unit) * fnvPrime

/-- The hash of a sequence of units, from a starting hash. -/
def fnvFold (hash : UInt64) (units : List UInt64) : UInt64 :=
  units.foldl fnvStep hash

theorem fnvPrime_mul_inv : fnvPrime * fnvPrimeInv = 1 := by decide

theorem fnvPrime_mul_cancel {a b : UInt64} (h : a * fnvPrime = b * fnvPrime) : a = b := by
  calc a = a * (fnvPrime * fnvPrimeInv) := by rw [fnvPrime_mul_inv, UInt64.mul_one]
    _ = b * (fnvPrime * fnvPrimeInv) := by rw [← UInt64.mul_assoc, h, UInt64.mul_assoc]
    _ = b := by rw [fnvPrime_mul_inv, UInt64.mul_one]

/-- A step is injective in the hash. -/
theorem fnvStep_left_inj {h h' u : UInt64} (e : fnvStep h u = fnvStep h' u) : h = h' := by
  have hx : h ^^^ u = h' ^^^ u := fnvPrime_mul_cancel e
  calc h = (h ^^^ u) ^^^ u := by rw [UInt64.xor_assoc, UInt64.xor_self, UInt64.xor_zero]
    _ = (h' ^^^ u) ^^^ u := by rw [hx]
    _ = h' := by rw [UInt64.xor_assoc, UInt64.xor_self, UInt64.xor_zero]

/-- A step is injective in the unit. -/
theorem fnvStep_right_inj {h u u' : UInt64} (e : fnvStep h u = fnvStep h u') : u = u' := by
  have hx : h ^^^ u = h ^^^ u' := fnvPrime_mul_cancel e
  calc u = h ^^^ (h ^^^ u) := by rw [← UInt64.xor_assoc, UInt64.xor_self, UInt64.zero_xor]
    _ = h ^^^ (h ^^^ u') := by rw [hx]
    _ = u' := by rw [← UInt64.xor_assoc, UInt64.xor_self, UInt64.zero_xor]

theorem fnvFold_append (hash : UInt64) (xs ys : List UInt64) :
    fnvFold hash (xs ++ ys) = fnvFold (fnvFold hash xs) ys :=
  List.foldl_append

/-- Running the same units keeps different hashes different. -/
theorem fnvFold_left_inj {h h' : UInt64} (units : List UInt64)
    (e : fnvFold h units = fnvFold h' units) : h = h' := by
  induction units generalizing h h' with
  | nil => exact e
  | cons u us ih => exact fnvStep_left_inj (ih e)

/-- **One changed unit changes the hash.** -/
theorem fnvFold_single_change (hash : UInt64) (pre post : List UInt64) {u u' : UInt64}
    (hne : u ≠ u') :
    fnvFold hash (pre ++ u :: post) ≠ fnvFold hash (pre ++ u' :: post) := by
  intro e
  rw [fnvFold_append, fnvFold_append] at e
  exact hne (fnvStep_right_inj (fnvFold_left_inj post e))

/-- The same, said of one unit of a list that is set. -/
theorem fnvFold_set (hash : UInt64) {units : List UInt64} {i : Nat} {u : UInt64}
    (hi : i < units.length) (hne : u ≠ units[i]) :
    fnvFold hash (units.set i u) ≠ fnvFold hash units := by
  have hsplit : units = units.take i ++ units[i] :: units.drop (i + 1) := by
    rw [List.getElem_cons_drop, List.take_append_drop]
  rw [List.set_eq_take_append_cons_drop, if_pos hi]
  exact fun e => fnvFold_single_change hash _ _ hne (e.trans (congrArg (fnvFold hash) hsplit))

end LivingObjects.Lib
