/-
  LivingObjects.Lib.WordBytes — 64-bit words as eight little-endian bytes.

  The codec every file and every byte-addressed memory below rests on: a word
  is the base-256 number of its eight bytes, lowest byte first.  The round
  trips are proved through `Nat` division by constants, so nothing here rests
  on bit-blasting.
-/
import Mathlib

namespace LivingObjects.Lib

/-! ## §1. One word. -/

/-- Byte `i` of a word, lowest byte first. -/
def byteAt (w : UInt64) (i : Nat) : UInt8 :=
  UInt8.ofNat (w.toNat / 256 ^ i)

/-- The word whose bytes, lowest first, are `f 0 … f 7`. -/
def ofBytes (f : Nat → UInt8) : UInt64 :=
  UInt64.ofNat
    ((f 0).toNat + 256 * (f 1).toNat + 256 ^ 2 * (f 2).toNat + 256 ^ 3 * (f 3).toNat
      + 256 ^ 4 * (f 4).toNat + 256 ^ 5 * (f 5).toNat + 256 ^ 6 * (f 6).toNat
      + 256 ^ 7 * (f 7).toNat)

theorem byteAt_toNat (w : UInt64) (i : Nat) :
    (byteAt w i).toNat = w.toNat / 256 ^ i % 256 := by
  simp [byteAt]

theorem ofBytes_toNat (f : Nat → UInt8) :
    (ofBytes f).toNat
      = (f 0).toNat + 256 * (f 1).toNat + 256 ^ 2 * (f 2).toNat + 256 ^ 3 * (f 3).toNat
        + 256 ^ 4 * (f 4).toNat + 256 ^ 5 * (f 5).toNat + 256 ^ 6 * (f 6).toNat
        + 256 ^ 7 * (f 7).toNat := by
  have hb : ∀ i, (f i).toNat < 256 := fun i => (f i).toNat_lt
  have h0 := hb 0
  have h1 := hb 1
  have h2 := hb 2
  have h3 := hb 3
  have h4 := hb 4
  have h5 := hb 5
  have h6 := hb 6
  have h7 := hb 7
  exact UInt64.toNat_ofNat_of_lt' (by simp only [UInt64.size]; omega)

/-- Reassembling the bytes of a word gives the word back. -/
@[simp] theorem ofBytes_byteAt (w : UInt64) : ofBytes (byteAt w) = w := by
  apply UInt64.toNat_inj.mp
  have hw : w.toNat < 2 ^ 64 := w.toNat_lt
  rw [ofBytes_toNat]
  simp only [byteAt_toNat]
  omega

/-- The bytes of an assembled word are the bytes it was assembled from. -/
theorem byteAt_ofBytes (f : Nat → UInt8) {i : Nat} (hi : i < 8) :
    byteAt (ofBytes f) i = f i := by
  apply UInt8.toNat_inj.mp
  have hb : ∀ i, (f i).toNat < 256 := fun i => (f i).toNat_lt
  have h0 := hb 0
  have h1 := hb 1
  have h2 := hb 2
  have h3 := hb 3
  have h4 := hb 4
  have h5 := hb 5
  have h6 := hb 6
  have h7 := hb 7
  rw [byteAt_toNat, ofBytes_toNat]
  match i, hi with
  | 0, _ => omega
  | 1, _ => omega
  | 2, _ => omega
  | 3, _ => omega
  | 4, _ => omega
  | 5, _ => omega
  | 6, _ => omega
  | 7, _ => omega

theorem ofBytes_congr {f g : Nat → UInt8} (h : ∀ i, i < 8 → f i = g i) :
    ofBytes f = ofBytes g := by
  unfold ofBytes
  rw [h 0 (by omega), h 1 (by omega), h 2 (by omega), h 3 (by omega), h 4 (by omega),
      h 5 (by omega), h 6 (by omega), h 7 (by omega)]

/-! ## §2. Words in byte strings. -/

/-- The eight bytes of a word as they appear in a file. -/
def wordBytes (w : UInt64) : List UInt8 :=
  [byteAt w 0, byteAt w 1, byteAt w 2, byteAt w 3, byteAt w 4, byteAt w 5, byteAt w 6, byteAt w 7]

/-- The word in the first eight bytes of a byte string (missing bytes read as zero). -/
def wordOfBytes (bs : List UInt8) : UInt64 :=
  ofBytes (fun i => bs.getD i 0)

@[simp] theorem wordBytes_length (w : UInt64) : (wordBytes w).length = 8 := rfl

@[simp] theorem wordOfBytes_wordBytes_append (w : UInt64) (rest : List UInt8) :
    wordOfBytes (wordBytes w ++ rest) = w := by
  have h : wordOfBytes (wordBytes w ++ rest) = ofBytes (byteAt w) := by
    unfold wordOfBytes
    apply ofBytes_congr
    intro i hi
    match i, hi with
    | 0, _ | 1, _ | 2, _ | 3, _ | 4, _ | 5, _ | 6, _ | 7, _ => rfl
  rw [h, ofBytes_byteAt]

/-- A list of words laid out one after the other. -/
def wordsBytes (ws : List UInt64) : List UInt8 :=
  ws.flatMap wordBytes

@[simp] theorem wordsBytes_nil : wordsBytes [] = [] := rfl

@[simp] theorem wordsBytes_cons (w : UInt64) (ws : List UInt64) :
    wordsBytes (w :: ws) = wordBytes w ++ wordsBytes ws := rfl

@[simp] theorem wordsBytes_append (xs ys : List UInt64) :
    wordsBytes (xs ++ ys) = wordsBytes xs ++ wordsBytes ys := by
  simp [wordsBytes]

@[simp] theorem wordsBytes_length (ws : List UInt64) :
    (wordsBytes ws).length = 8 * ws.length := by
  induction ws with
  | nil => rfl
  | cons w ws ih =>
    rw [wordsBytes_cons, List.length_append, ih, wordBytes_length, List.length_cons]
    ring

/-- The first `n` words of a byte string. -/
def takeWords : Nat → List UInt8 → List UInt64
  | 0, _ => []
  | n + 1, bs => wordOfBytes bs :: takeWords n (bs.drop 8)

@[simp] theorem takeWords_length (n : Nat) (bs : List UInt8) : (takeWords n bs).length = n := by
  induction n generalizing bs with
  | zero => rfl
  | succ n ih => simp [takeWords, ih]

/-- Reading back as many words as were laid out. -/
@[simp] theorem takeWords_wordsBytes (ws : List UInt64) (rest : List UInt8) :
    takeWords ws.length (wordsBytes ws ++ rest) = ws := by
  induction ws with
  | nil => rfl
  | cons w ws ih =>
    have hdrop : (wordsBytes (w :: ws) ++ rest).drop 8 = wordsBytes ws ++ rest := by
      rw [wordsBytes_cons, List.append_assoc]
      exact List.drop_left' rfl
    rw [List.length_cons, takeWords, hdrop, ih, wordsBytes_cons, List.append_assoc,
        wordOfBytes_wordBytes_append]

/-- A word is the eight bytes it was read from. -/
theorem wordBytes_wordOfBytes {bs : List UInt8} (h : 8 ≤ bs.length) :
    wordBytes (wordOfBytes bs) = bs.take 8 := by
  have hbyte : ∀ i, i < 8 → byteAt (wordOfBytes bs) i = bs.getD i 0 := fun i hi =>
    byteAt_ofBytes (fun i => bs.getD i 0) hi
  refine List.ext_getElem ?_ fun i hi hi' => ?_
  · rw [wordBytes_length, List.length_take]
    omega
  · have hlt : i < 8 := hi
    have hget : (wordBytes (wordOfBytes bs))[i] = byteAt (wordOfBytes bs) i := by
      match i, hlt with
      | 0, _ | 1, _ | 2, _ | 3, _ | 4, _ | 5, _ | 6, _ | 7, _ => rfl
    refine hget.trans ?_
    rw [hbyte i hlt, List.getElem_take, List.getD_eq_getElem?_getD,
      List.getElem?_eq_getElem (by omega), Option.getD_some]

/-- Laying out the words that were read gives the bytes they were read from. -/
theorem wordsBytes_takeWords {n : Nat} {bs : List UInt8} (h : 8 * n ≤ bs.length) :
    wordsBytes (takeWords n bs) = bs.take (8 * n) := by
  induction n generalizing bs with
  | zero => rfl
  | succ n ih =>
    have hrest : 8 * n ≤ (bs.drop 8).length := by
      rw [List.length_drop]
      omega
    rw [takeWords, wordsBytes_cons, wordBytes_wordOfBytes (by omega), ih hrest,
      show 8 * (n + 1) = 8 + 8 * n by omega, List.take_add]

theorem takeWords_getD {n k : Nat} (hk : k < n) (bs : List UInt8) :
    (takeWords n bs).getD k 0 = wordOfBytes (bs.drop (8 * k)) := by
  induction n generalizing k bs with
  | zero => omega
  | succ n ih =>
    cases k with
    | zero => rfl
    | succ k =>
      rw [takeWords, List.getD_cons_succ, ih (by omega), List.drop_drop]
      congr 2
      omega

/-- A byte elsewhere does not change a word. -/
theorem wordOfBytes_drop_set {bs : List UInt8} {i d : Nat} (b : UInt8) (h : i < d ∨ d + 8 ≤ i) :
    wordOfBytes ((bs.set i b).drop d) = wordOfBytes (bs.drop d) := by
  unfold wordOfBytes
  refine ofBytes_congr fun k hk => ?_
  rw [List.getD_eq_getElem?_getD, List.getD_eq_getElem?_getD, List.getElem?_drop,
    List.getElem?_drop, List.getElem?_set_ne (by omega)]

/-- A byte of the word does. -/
theorem wordOfBytes_inj {bs bs' : List UInt8} (h : wordOfBytes bs = wordOfBytes bs') {k : Nat}
    (hk : k < 8) : bs.getD k 0 = bs'.getD k 0 := by
  have hbyte := congrArg (byteAt · k) h
  unfold wordOfBytes at hbyte
  simpa only [byteAt_ofBytes _ hk] using hbyte

/-- Words are read off the front. -/
theorem takeWords_append {n : Nat} {bs : List UInt8} (h : 8 * n ≤ bs.length) (rest : List UInt8) :
    takeWords n (bs ++ rest) = takeWords n bs := by
  have hsplit : bs = wordsBytes (takeWords n bs) ++ bs.drop (8 * n) := by
    rw [wordsBytes_takeWords h, List.take_append_drop]
  have hread := takeWords_wordsBytes (takeWords n bs) (bs.drop (8 * n) ++ rest)
  rw [takeWords_length, ← List.append_assoc, ← hsplit] at hread
  exact hread

end LivingObjects.Lib
