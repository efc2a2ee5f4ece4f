/-
  LivingObjects.Lib.ByteMem — byte-addressed memory with 64-bit accesses.

  A memory is a total function from addresses to bytes.  `load64`/`store64`
  are little-endian and unaligned; every client reasons through the frame
  lemmas below, never through the byte layout.
-/
import Mathlib
import LivingObjects.Lib.WordBytes

namespace LivingObjects.Lib

/-- Byte-addressed memory. -/
abbrev Mem := Nat → UInt8

/-! ## §1. Accesses. -/

/-- The word stored at byte address `a`. -/
def load64 (m : Mem) (a : Nat) : UInt64 :=
  ofBytes (fun i => m (a + i))

/-- Store a word at byte address `a`. -/
def store64 (m : Mem) (a : Nat) (w : UInt64) : Mem :=
  fun b => if a ≤ b ∧ b < a + 8 then byteAt w (b - a) else m b

/-- Store one byte. -/
def store8 (m : Mem) (a : Nat) (v : UInt8) : Mem :=
  fun b => if b = a then v else m b

/-- Fill `n` bytes from `a` on with zero. -/
def zeroFill (m : Mem) (a n : Nat) : Mem :=
  fun b => if a ≤ b ∧ b < a + n then 0 else m b

/-- Copy `n` bytes of `src` from `a` on over `m` from `b` on. -/
def copyBytes (m : Mem) (b : Nat) (src : Mem) (a n : Nat) : Mem :=
  fun c => if b ≤ c ∧ c < b + n then src (a + (c - b)) else m c

/-- The `n` bytes from `a` on. -/
def bytesFrom (m : Mem) (a n : Nat) : List UInt8 :=
  (List.range n).map (fun i => m (a + i))

/-- A byte string laid over a memory from address `a` on. -/
def putBytes (m : Mem) (a : Nat) (bs : List UInt8) : Mem :=
  fun b => if a ≤ b ∧ b < a + bs.length then bs.getD (b - a) 0 else m b

/-! ## §2. Words against words. -/

/-- Two memories with the same eight bytes hold the same word there. -/
theorem load64_congr {m m' : Mem} {a a' : Nat} (h : ∀ i, i < 8 → m (a + i) = m' (a' + i)) :
    load64 m a = load64 m' a' :=
  ofBytes_congr h

@[simp] theorem load64_store64_self (m : Mem) (a : Nat) (w : UInt64) :
    load64 (store64 m a w) a = w := by
  have h : load64 (store64 m a w) a = ofBytes (byteAt w) := by
    apply ofBytes_congr
    intro i hi
    simp only [store64]
    rw [if_pos (by omega), Nat.add_sub_cancel_left]
  rw [h, ofBytes_byteAt]

theorem store64_of_out (m : Mem) {a b : Nat} (w : UInt64) (h : b < a ∨ a + 8 ≤ b) :
    store64 m a w b = m b := by
  unfold store64
  rw [if_neg (by omega)]

/-- A store leaves every word it does not overlap unchanged. -/
theorem load64_store64_of_disjoint (m : Mem) {a b : Nat} (w : UInt64)
    (h : b + 8 ≤ a ∨ a + 8 ≤ b) : load64 (store64 m a w) b = load64 m b := by
  apply load64_congr
  intro i hi
  exact store64_of_out m w (by omega)

/-- Stores to words that do not overlap commute. -/
theorem store64_comm (m : Mem) {a b : Nat} (v w : UInt64) (h : b + 8 ≤ a ∨ a + 8 ≤ b) :
    store64 (store64 m a v) b w = store64 (store64 m b w) a v := by
  funext c
  simp only [store64]
  by_cases ha : a ≤ c ∧ c < a + 8
  · rw [if_pos ha, if_neg (by omega), if_pos ha]
  · by_cases hb : b ≤ c ∧ c < b + 8
    · rw [if_pos hb, if_neg ha, if_pos hb]
    · rw [if_neg hb, if_neg ha, if_neg ha, if_neg hb]

/-- Storing back what a word already holds changes nothing. -/
theorem store64_load64_self (m : Mem) (a : Nat) : store64 m a (load64 m a) = m := by
  funext b
  unfold store64
  split
  · next h =>
    unfold load64
    rw [byteAt_ofBytes _ (by omega), show a + (b - a) = b by omega]
  · rfl

/-! ## §3. Words against bytes, fills and copies. -/

theorem store8_of_ne (m : Mem) {a b : Nat} (v : UInt8) (h : b ≠ a) : store8 m a v b = m b := by
  unfold store8
  rw [if_neg h]

@[simp] theorem store8_self (m : Mem) (a : Nat) (v : UInt8) : store8 m a v a = v := by
  unfold store8
  rw [if_pos rfl]

theorem load64_store8_of_disjoint (m : Mem) {a b : Nat} (v : UInt8)
    (h : a < b ∨ b + 8 ≤ a) : load64 (store8 m a v) b = load64 m b := by
  apply load64_congr
  intro i hi
  exact store8_of_ne m v (by omega)

theorem zeroFill_of_out (m : Mem) {a n b : Nat} (h : b < a ∨ a + n ≤ b) :
    zeroFill m a n b = m b := by
  unfold zeroFill
  rw [if_neg (by omega)]

theorem load64_zeroFill_of_disjoint (m : Mem) {a n b : Nat} (h : b + 8 ≤ a ∨ a + n ≤ b) :
    load64 (zeroFill m a n) b = load64 m b := by
  apply load64_congr
  intro i hi
  exact zeroFill_of_out m (by omega)

/-- A word inside a zero-filled range is zero. -/
theorem load64_zeroFill_of_mem (m : Mem) {a n b : Nat} (ha : a ≤ b) (hb : b + 8 ≤ a + n) :
    load64 (zeroFill m a n) b = 0 := by
  have h : load64 (zeroFill m a n) b = ofBytes (fun _ => 0) := by
    apply ofBytes_congr
    intro i hi
    unfold zeroFill
    rw [if_pos (by omega)]
  rw [h]
  rfl

theorem copyBytes_of_out (m src : Mem) {a b n c : Nat} (h : c < b ∨ b + n ≤ c) :
    copyBytes m b src a n c = m c := by
  unfold copyBytes
  rw [if_neg (by omega)]

theorem copyBytes_of_mem (m src : Mem) {a b n c : Nat} (h : b ≤ c) (h' : c < b + n) :
    copyBytes m b src a n c = src (a + (c - b)) := by
  unfold copyBytes
  rw [if_pos ⟨h, h'⟩]

/-! ## §4. Memories as byte strings. -/

@[simp] theorem bytesFrom_length (m : Mem) (a n : Nat) : (bytesFrom m a n).length = n := by
  simp [bytesFrom]

theorem bytesFrom_congr {m m' : Mem} {a a' n : Nat} (h : ∀ i, i < n → m (a + i) = m' (a' + i)) :
    bytesFrom m a n = bytesFrom m' a' n := by
  unfold bytesFrom
  apply List.map_congr_left
  intro i hi
  exact h i (List.mem_range.mp hi)

/-- Stretches one behind the other. -/
theorem bytesFrom_append (m : Mem) (a n k : Nat) :
    bytesFrom m a n ++ bytesFrom m (a + n) k = bytesFrom m a (n + k) := by
  unfold bytesFrom
  rw [List.range_add, List.map_append, List.map_map]
  exact congrArg (_ ++ ·) (List.map_congr_left fun i _ => by rw [Function.comp_apply, Nat.add_assoc])

/-- The bytes of a word that is loaded alike are alike. -/
theorem eq_of_load64_eq {m m' : Mem} {a a' i : Nat} (h : load64 m a = load64 m' a') (hi : i < 8) :
    m (a + i) = m' (a' + i) := by
  have hbyte := congrArg (fun w => byteAt w i) h
  unfold load64 at hbyte
  simp only [byteAt_ofBytes _ hi] at hbyte
  exact hbyte

theorem bytesFrom_getD (m : Mem) (a n i : Nat) (hi : i < n) :
    (bytesFrom m a n).getD i 0 = m (a + i) := by
  simp [bytesFrom, List.getD, hi]

end LivingObjects.Lib
