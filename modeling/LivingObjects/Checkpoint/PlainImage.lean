/-
  LivingObjects.Checkpoint.PlainImage — images without page tables.

  `image_pointers_to_offsets` and `image_offsets_to_pointers` of `persist.s` walk an image
  object by object, by the sizes they read from it, and convert its class words and slots
  in place.  Both are the same loop around another conversion of a word; it comes to each
  word once.  There and back a pointer into the image moves by the distance of the two
  bases, and what is not converted on the way there must not look like an offset.
-/
import LivingObjects.Checkpoint.RoundTrip

namespace LivingObjects.Checkpoint

open LivingObjects.Lib
open LivingObjects.VM

/-! ## §1. The conversions. -/

/-- `.Lp2o_convert_slot`. -/
def imageSlotToOffset (heapBase heapLimit : Nat) (m : Mem) (slot : Nat) : Mem :=
  let value := load64 m slot
  if isObjectPtr value = false then m
  else if value.toNat < heapBase then m
  else if heapLimit ≤ value.toNat then m
  else store64 m slot (UInt64.ofNat (value.toNat - heapBase + 8))

/-- `.Lo2p_convert_slot`. -/
def imageSlotToPointer (newBase size : Nat) (m : Mem) (slot : Nat) : Mem :=
  let value := load64 m slot
  if isObjectPtr value = false then m
  else if value.toNat < 8 then m
  else if size < value.toNat then m
  else store64 m slot (UInt64.ofNat (value.toNat - 8 + newBase))

/-- The class word of an object and, unless it has bytes, as many words behind its header
as its size says; the count is compared as a signed number. -/
def imageConvertObject (convertSlot : Mem → Nat → Mem) (current : Nat) (m : Mem) : Mem :=
  let m := convertSlot m current
  let size := objSize m current
  if objFormat m current = formatBytes then m
  else (List.range (if size.toNat < 2 ^ 63 then size.toNat else 0)).foldl (fun m i =>
    convertSlot m (wrap64 (objFieldAddr current i))) m

/-- The object behind one with this format and size. -/
def imageAdvance (current : Nat) (format size : UInt64) : Nat :=
  let words := if format = formatBytes then (size + 7) >>> 3 else size
  wrap64 (current + 8 * (words + 3).toNat)

/-- The loop over the objects, with a number of turns. -/
def imageConvertFrom (convertSlot : Mem → Nat → Mem) (finish : Nat) :
    Nat → Nat → Mem → Option Mem
  | 0, _, _ => none
  | fuel + 1, current, m =>
    if finish ≤ current then some m
    else
      let m := imageConvertObject convertSlot current m
      imageConvertFrom convertSlot finish fuel
        (imageAdvance current (objFormat m current) (objSize m current)) m

/-- `image_pointers_to_offsets`. -/
def imagePointersToOffsets (fuel : Nat) (m : Mem) (buf size heapBase : Nat) : Option Mem :=
  imageConvertFrom (imageSlotToOffset heapBase (wrap64 (heapBase + size))) (wrap64 (buf + size))
    fuel buf m

/-- `image_offsets_to_pointers`. -/
def imageOffsetsToPointers (fuel : Nat) (m : Mem) (buf size newBase : Nat) : Option Mem :=
  imageConvertFrom (imageSlotToPointer newBase size) (wrap64 (buf + size)) fuel buf m

/-! ## §2. Images without gaps. -/

/-- An object of an image, and what its header says. -/
structure ImageObject where
  addr : Nat
  format : UInt64
  size : UInt64

namespace ImageObject

/-- The bytes of the object with its header. -/
def bytes (o : ImageObject) : Nat :=
  24 + 8 * if o.format = formatBytes then (o.size.toNat + 7) / 8 else o.size.toNat

/-- The words of the object that can hold references. -/
def cells (o : ImageObject) : List Nat :=
  o.addr :: if o.format = formatBytes then []
    else (List.range o.size.toNat).map (objFieldAddr o.addr)

end ImageObject

/-- Objects one behind the other, from an address to another. -/
inductive Gapless (m : Mem) : Nat → Nat → List ImageObject → Prop where
  | done {a : Nat} : Gapless m a a []
  | object {o : ImageObject} {finish : Nat} {objects : List ImageObject}
      (hformat : objFormat m o.addr = o.format) (hsize : objSize m o.addr = o.size)
      (hknown : o.format = formatFields ∨ o.format = formatIndexable ∨ o.format = formatBytes)
      (hrest : Gapless m (o.addr + o.bytes) finish objects) :
      Gapless m o.addr finish (o :: objects)

/-- The words of an image that can hold references. -/
def imageCells (objects : List ImageObject) : List Nat := objects.flatMap ImageObject.cells

theorem imageCells_cons (o : ImageObject) (objects : List ImageObject) :
    imageCells (o :: objects) = o.cells ++ imageCells objects := List.flatMap_cons

section Gapless

variable {m m' : Mem} {a finish : Nat} {objects : List ImageObject}

theorem Gapless.le (h : Gapless m a finish objects) : a ≤ finish := by
  induction h with
  | done => exact Nat.le_refl _
  | object hformat hsize hknown hrest ih => omega

theorem ImageObject.cells_within (o : ImageObject) {b : Nat} (hb : b ∈ o.cells) :
    o.addr ≤ b ∧ b + 8 ≤ o.addr + o.bytes ∧ (b = o.addr ∨ o.addr + 24 ≤ b) := by
  rw [ImageObject.cells] at hb
  rcases List.mem_cons.mp hb with rfl | hb
  · refine ⟨Nat.le_refl _, ?_, .inl rfl⟩
    rw [ImageObject.bytes]
    omega
  · split at hb
    · exact absurd hb List.not_mem_nil
    next hwords =>
      obtain ⟨i, hi, rfl⟩ := List.mem_map.mp hb
      have hrange := List.mem_range.mp hi
      rw [ImageObject.bytes, if_neg hwords, objFieldAddr]
      omega

theorem ImageObject.cells_ascending (o : ImageObject) :
    o.cells.Pairwise fun a b => a + 8 ≤ b := by
  rw [ImageObject.cells, List.pairwise_cons]
  refine ⟨?_, ?_⟩
  · intro b hb
    split at hb
    · exact absurd hb List.not_mem_nil
    · obtain ⟨i, hi, rfl⟩ := List.mem_map.mp hb
      rw [objFieldAddr]
      omega
  · split
    · exact List.Pairwise.nil
    · rw [List.pairwise_map]
      refine List.Pairwise.imp ?_ List.pairwise_lt_range
      intro i j hij
      rw [objFieldAddr, objFieldAddr]
      omega

theorem Gapless.cells_within (h : Gapless m a finish objects) {b : Nat}
    (hb : b ∈ imageCells objects) : a ≤ b ∧ b + 8 ≤ finish := by
  induction h with
  | done => exact absurd hb List.not_mem_nil
  | @object o finish objects hformat hsize hknown hrest ih =>
    rw [imageCells_cons, List.mem_append] at hb
    have hle := hrest.le
    rcases hb with hfirst | hlater
    · have hin := o.cells_within hfirst
      omega
    · have hin := ih hlater
      omega

theorem Gapless.cells_ascending (h : Gapless m a finish objects) :
    (imageCells objects).Pairwise fun a b => a + 8 ≤ b := by
  induction h with
  | done => exact List.Pairwise.nil
  | @object o finish objects hformat hsize hknown hrest ih =>
    rw [imageCells_cons, List.pairwise_append]
    refine ⟨o.cells_ascending, ih, ?_⟩
    intro b hb c hc
    have hfirst := o.cells_within hb
    have hlater := hrest.cells_within hc
    omega

/-- The headers of an image are all that makes it one. -/
theorem Gapless.congr (h : Gapless m a finish objects)
    (hheaders : ∀ o ∈ objects, ∀ i, o.addr + 8 ≤ i → i < o.addr + 24 → m' i = m i) :
    Gapless m' a finish objects := by
  induction h with
  | done => exact .done
  | @object o finish objects hformat hsize hknown hrest ih =>
    have hhead := hheaders o List.mem_cons_self
    refine .object ?_ ?_ hknown (ih fun o' ho' => hheaders o' (List.mem_cons_of_mem _ ho'))
    · rw [← hformat]
      exact load64_congr fun i hi => hhead _ (by omega) (by omega)
    · rw [← hsize]
      exact load64_congr fun i hi => hhead _ (by omega) (by omega)

/-- Objects of an image do not overlap: the header of one holds no cell of another. -/
theorem Gapless.headers_apart (h : Gapless m a finish objects) {o : ImageObject}
    (ho : o ∈ objects) {b : Nat} (hb : b ∈ imageCells objects) :
    b + 8 ≤ o.addr + 8 ∨ o.addr + 24 ≤ b := by
  induction h with
  | done => exact absurd ho List.not_mem_nil
  | @object first finish objects hformat hsize hknown hrest ih =>
    rw [imageCells_cons, List.mem_append] at hb
    rcases List.mem_cons.mp ho with rfl | ho
    · rcases hb with hown | hlater
      · have hin := o.cells_within hown
        omega
      · have hin := hrest.cells_within hlater
        rw [ImageObject.bytes] at hin
        omega
    · rcases hb with hfirst | hlater
      · have hin := first.cells_within hfirst
        have hbehind : first.addr + first.bytes ≤ o.addr :=
          (hrest.cells_within (List.mem_flatMap.mpr ⟨o, ho, List.mem_cons_self⟩)).1
        omega
      · exact ih ho hlater

end Gapless

/-! ## §3. The walk. -/

section Walk

variable {g : UInt64 → UInt64} {convertSlot : Mem → Nat → Mem} {m : Mem} {o : ImageObject}
variable {a finish : Nat} {objects : List ImageObject}

theorem imageSlotToOffset_eq (heapBase heapLimit : Nat) (hbase : 0 < heapBase) (m : Mem)
    (slot : Nat) :
    imageSlotToOffset heapBase heapLimit m slot
      = convertWord (toOffset heapBase heapLimit) m slot := by
  rw [convertWord, toOffset, imageSlotToOffset]
  by_cases hptr : isObjectPtr (load64 m slot) = false
  · rw [if_pos hptr, if_pos (.inl hptr), store64_load64_self]
  rw [if_neg hptr]
  by_cases hnull : load64 m slot = 0
  · have hlow : (load64 m slot).toNat < heapBase := by
      rw [hnull]
      exact hbase
    rw [if_pos hlow, if_pos (.inr hnull), store64_load64_self]
  rw [if_neg (not_or.mpr ⟨hptr, hnull⟩)]
  by_cases hlow : (load64 m slot).toNat < heapBase
  · rw [if_pos hlow, if_pos (.inl hlow), store64_load64_self]
  rw [if_neg hlow]
  by_cases hhigh : heapLimit ≤ (load64 m slot).toNat
  · rw [if_pos hhigh, if_pos (.inr hhigh), store64_load64_self]
  · rw [if_neg hhigh, if_neg (not_or.mpr ⟨hlow, hhigh⟩)]

theorem imageSlotToPointer_eq (newBase size : Nat) (m : Mem) (slot : Nat) :
    imageSlotToPointer newBase size m slot = convertWord (toPointer newBase size) m slot := by
  rw [convertWord, toPointer, imageSlotToPointer]
  by_cases hptr : isObjectPtr (load64 m slot) = false
  · rw [if_pos hptr, if_pos hptr, store64_load64_self]
  rw [if_neg hptr, if_neg hptr]
  by_cases hlow : (load64 m slot).toNat < 8
  · rw [if_pos hlow, if_pos (.inl hlow), store64_load64_self]
  rw [if_neg hlow]
  by_cases hhigh : size < (load64 m slot).toNat
  · rw [if_pos hhigh, if_pos (.inr hhigh), store64_load64_self]
  · rw [if_neg hhigh, if_neg (not_or.mpr ⟨hlow, hhigh⟩)]

/-- Converting the class word of an object leaves its format and size. -/
theorem convertWord_header (g : UInt64 → UInt64) (m : Mem) (addr : Nat) :
    objFormat (convertWord g m addr) addr = objFormat m addr
      ∧ objSize (convertWord g m addr) addr = objSize m addr := by
  refine ⟨?_, ?_⟩
  · exact load64_store64_of_disjoint m _ (.inr (Nat.le_refl _))
  · exact load64_store64_of_disjoint m _ (.inr (by omega))

/-- **One object**: its cells, one after the other. -/
theorem imageConvertObject_eq (hslot : ∀ m a, convertSlot m a = convertWord g m a)
    (hformat : objFormat m o.addr = o.format) (hsize : objSize m o.addr = o.size)
    (hfits : o.addr + o.bytes < 2 ^ 64) :
    imageConvertObject convertSlot o.addr m = o.cells.foldl (convertWord g) m := by
  obtain ⟨hsameFormat, hsameSize⟩ := convertWord_header g m o.addr
  rw [imageConvertObject, hslot, hsameFormat, hsameSize, hformat, hsize, ImageObject.cells,
    List.foldl_cons]
  by_cases hbytes : o.format = formatBytes
  · rw [if_pos hbytes, if_pos hbytes]
    rfl
  rw [ImageObject.bytes, if_neg hbytes] at hfits
  have hsmall : o.size.toNat < 2 ^ 63 := by omega
  rw [if_neg hbytes, if_neg hbytes, if_pos hsmall, List.foldl_map]
  refine List.foldl_ext _ _ _ ?_
  intro m' i hi
  have hrange := List.mem_range.mp hi
  have hword : wrap64 (objFieldAddr o.addr i) = objFieldAddr o.addr i := by
    rw [objFieldAddr]
    exact wrap64_of_lt (by omega)
  rw [hslot, hword]

theorem imageAdvance_eq (hfits : o.addr + o.bytes < 2 ^ 64) :
    imageAdvance o.addr o.format o.size = o.addr + o.bytes := by
  rw [ImageObject.bytes] at hfits
  rw [imageAdvance, ImageObject.bytes]
  have hthree : (3 : UInt64).toNat = 3 := rfl
  by_cases hbytes : o.format = formatBytes
  · rw [if_pos hbytes] at hfits ⊢
    have hseven : (o.size + 7).toNat = o.size.toNat + 7 := by
      rw [UInt64.toNat_add]
      exact Nat.mod_eq_of_lt (by have h7 : (7 : UInt64).toNat = 7 := rfl; omega)
    have hwords : ((o.size + 7) >>> 3).toNat = (o.size.toNat + 7) / 8 := by
      rw [UInt64.toNat_shiftRight, hseven, Nat.shiftRight_eq_div_pow]
      rfl
    have hsum : ((o.size + 7) >>> 3 + 3).toNat = (o.size.toNat + 7) / 8 + 3 := by
      rw [UInt64.toNat_add, hwords, hthree]
      exact Nat.mod_eq_of_lt (by omega)
    rw [if_pos hbytes, hsum, wrap64_of_lt (by omega)]
    omega
  · rw [if_neg hbytes] at hfits ⊢
    have hsum : (o.size + 3).toNat = o.size.toNat + 3 := by
      rw [UInt64.toNat_add, hthree]
      exact Nat.mod_eq_of_lt (by omega)
    rw [if_neg hbytes, hsum, wrap64_of_lt (by omega)]
    omega

/-- **The walk over an image** comes to each of its cells once. -/
theorem imageConvertFrom_eq (hslot : ∀ m a, convertSlot m a = convertWord g m a)
    (h : Gapless m a finish objects) (hfinish : finish < 2 ^ 64) {fuel : Nat}
    (hfuel : finish - a < fuel) :
    imageConvertFrom convertSlot finish fuel a m
      = some ((imageCells objects).foldl (convertWord g) m) := by
  induction objects generalizing m a fuel with
  | nil =>
    obtain ⟨fuel, rfl⟩ : ∃ f, fuel = f + 1 := ⟨fuel - 1, by omega⟩
    cases h
    rw [imageConvertFrom, if_pos (Nat.le_refl _)]
    rfl
  | cons o objects ih =>
    obtain ⟨fuel, rfl⟩ : ∃ f, fuel = f + 1 := ⟨fuel - 1, by omega⟩
    cases h with
    | object hformat hsize hknown hrest =>
      have hle := hrest.le
      have hbytes : 24 ≤ o.bytes := by
        rw [ImageObject.bytes]
        omega
      have hfits : o.addr + o.bytes < 2 ^ 64 := by omega
      have hobject := imageConvertObject_eq hslot hformat hsize hfits
      -- what has been converted lies below the rest
      obtain ⟨-, hkept⟩ := convertWords_ascending g o.cells_ascending m
      have hsame : ∀ i, o.addr + 8 ≤ i → i < o.addr + 24 ∨ o.addr + o.bytes ≤ i →
          o.cells.foldl (convertWord g) m i = m i := by
        intro i hi hcase
        refine hkept i fun b hb => ?_
        have hin := o.cells_within hb
        omega
      have hformat' : objFormat (o.cells.foldl (convertWord g) m) o.addr = o.format := by
        rw [← hformat]
        exact load64_congr fun i hi => hsame _ (by omega) (.inl (by omega))
      have hsize' : objSize (o.cells.foldl (convertWord g) m) o.addr = o.size := by
        rw [← hsize]
        exact load64_congr fun i hi => hsame _ (by omega) (.inl (by omega))
      have hrest' :
          Gapless (o.cells.foldl (convertWord g) m) (o.addr + o.bytes) finish objects := by
        refine hrest.congr fun o' ho' i hlow hhigh => hsame i ?_ (.inr ?_)
        all_goals
          have hin := hrest.cells_within (List.mem_flatMap.mpr ⟨o', ho', List.mem_cons_self⟩)
          omega
      rw [imageConvertFrom, if_neg (by omega)]
      dsimp only
      rw [hobject, hformat', hsize', imageAdvance_eq hfits, ih hrest' (by omega),
        imageCells_cons, List.foldl_append]

end Walk

/-! ## §4. There and back. -/

/-- A word after both conversions. -/
def relocatedWord (heapBase newBase size : Nat) (value : UInt64) : UInt64 :=
  toPointer newBase size (toOffset heapBase (heapBase + size) value)

/-- An image without gaps in a buffer, as it stands at its base. -/
structure PlainImage (m : Mem) (buf size heapBase : Nat) (objects : List ImageObject) : Prop where
  gapless : Gapless m buf (buf + size) objects
  buffer : buf + size < 2 ^ 64
  nonNull : 0 < heapBase
  aligned : heapBase % 8 = 0
  inMemory : heapBase + size < 2 ^ 64

/-- **Both conversions of an image** end, rewrite its cells, and leave every other byte. -/
theorem image_there_and_back {m : Mem} {buf size heapBase : Nat} {objects : List ImageObject}
    (h : PlainImage m buf size heapBase objects) (newBase : Nat) :
    ∃ m₁ m₂, (∀ fuel, size < fuel → imagePointersToOffsets fuel m buf size heapBase = some m₁)
      ∧ (∀ fuel, size < fuel → imageOffsetsToPointers fuel m₁ buf size newBase = some m₂)
      ∧ (∀ a ∈ imageCells objects,
        load64 m₂ a = relocatedWord heapBase newBase size (load64 m a))
      ∧ (∀ i, (∀ a ∈ imageCells objects, i < a ∨ a + 8 ≤ i) → m₂ i = m i) := by
  have hascending := h.gapless.cells_ascending
  have hbuffer := h.buffer
  obtain ⟨hword₁, hother₁⟩ :=
    convertWords_ascending (toOffset heapBase (heapBase + size)) hascending m
  have hfirst : ∀ fuel, size < fuel → imagePointersToOffsets fuel m buf size heapBase
      = some ((imageCells objects).foldl
          (convertWord (toOffset heapBase (heapBase + size))) m) := by
    intro fuel hfuel
    rw [imagePointersToOffsets, wrap64_of_lt h.inMemory, wrap64_of_lt hbuffer]
    exact imageConvertFrom_eq (imageSlotToOffset_eq heapBase _ h.nonNull) h.gapless hbuffer
      (by omega)
  generalize (imageCells objects).foldl (convertWord (toOffset heapBase (heapBase + size))) m = m₁
    at hword₁ hother₁ hfirst
  have h₁ : Gapless m₁ buf (buf + size) objects := by
    refine h.gapless.congr fun o ho i hlow hhigh => hother₁ i fun a ha => ?_
    have hapart := h.gapless.headers_apart ho ha
    omega
  obtain ⟨hword₂, hother₂⟩ := convertWords_ascending (toPointer newBase size) hascending m₁
  have hsecond : ∀ fuel, size < fuel → imageOffsetsToPointers fuel m₁ buf size newBase
      = some ((imageCells objects).foldl (convertWord (toPointer newBase size)) m₁) := by
    intro fuel hfuel
    rw [imageOffsetsToPointers, wrap64_of_lt hbuffer]
    exact imageConvertFrom_eq (imageSlotToPointer_eq newBase size) h₁ hbuffer (by omega)
  refine ⟨m₁, _, hfirst, hsecond, ?_, ?_⟩
  · intro a ha
    rw [hword₂ a ha, hword₁ a ha]
    rfl
  · intro i hi
    rw [hother₂ i hi, hother₁ i hi]

section Words

variable {heapBase newBase size : Nat} {value : UInt64}

theorem relocatedWord_immediate (h : isObjectPtr value = false) :
    relocatedWord heapBase newBase size value = value := by
  rw [relocatedWord, toOffset, if_pos (.inl h), toPointer, if_pos h]

theorem relocatedWord_null : relocatedWord heapBase newBase size 0 = 0 := by
  rw [relocatedWord, toOffset, if_pos (.inr rfl), toPointer]
  split
  · rfl
  · exact if_pos (.inl (by decide))

/-- What is not a pointer into the image goes through the second conversion alone. -/
theorem relocatedWord_outside (h : value.toNat < heapBase ∨ heapBase + size ≤ value.toNat) :
    relocatedWord heapBase newBase size value = toPointer newBase size value := by
  have hsame : toOffset heapBase (heapBase + size) value = value := by
    rw [toOffset, if_pos h, ite_self]
  rw [relocatedWord, hsame]

/-- A pointer to an object of the image keeps its distance from the base. -/
theorem relocatedWord_inside (hbase : 0 < heapBase) (haligned : heapBase % 4 = 0)
    (hptr : isObjectPtr value = true) (hlow : heapBase ≤ value.toNat)
    (hhigh : value.toNat + 8 ≤ heapBase + size) (hlimit : heapBase + size < 2 ^ 64) :
    relocatedWord heapBase newBase size value
      = UInt64.ofNat (value.toNat - heapBase + newBase) := by
  have hne : value ≠ 0 := by
    intro hzero
    rw [hzero, UInt64.toNat_zero] at hlow
    omega
  have htag := (isObjectPtr_iff value).mp hptr
  have hptr' : ¬isObjectPtr value = false := by
    rw [hptr]
    decide
  have hoffset : (UInt64.ofNat (value.toNat - heapBase + 8)).toNat = value.toNat - heapBase + 8 :=
    toNat_ofNat64 (by omega)
  have hoffsetPtr : ¬isObjectPtr (UInt64.ofNat (value.toNat - heapBase + 8)) = false := by
    rw [Bool.not_eq_false, isObjectPtr_iff, hoffset]
    omega
  rw [relocatedWord, toOffset, if_neg (not_or.mpr ⟨hptr', hne⟩), if_neg (by omega), toPointer,
    if_neg hoffsetPtr, hoffset, if_neg (by omega), Nat.add_sub_cancel]

end Words

/-! ## §5. Relocation. -/

/-- Objects of an image are word-aligned in it, and lie in it with their headers. -/
theorem Gapless.object_within {m : Mem} {a finish : Nat} {objects : List ImageObject}
    (h : Gapless m a finish objects) {o : ImageObject} (ho : o ∈ objects) :
    a ≤ o.addr ∧ (o.addr - a) % 8 = 0 ∧ o.addr + o.bytes ≤ finish := by
  induction h with
  | done => exact absurd ho List.not_mem_nil
  | @object first finish objects hformat hsize hknown hrest ih =>
    rcases List.mem_cons.mp ho with rfl | ho
    · have hle := hrest.le
      omega
    · have hwords : first.bytes % 8 = 0 := by
        rw [ImageObject.bytes]
        omega
      obtain ⟨habove, haligned, hwithin⟩ := ih ho
      omega

/-- The bytes of an object of bytes hold no cell. -/
theorem Gapless.bytes_apart {m : Mem} {a finish : Nat} {objects : List ImageObject}
    (h : Gapless m a finish objects) {o : ImageObject} (ho : o ∈ objects)
    (hbytes : o.format = formatBytes) {b : Nat} (hb : b ∈ imageCells objects) :
    b + 8 ≤ o.addr + 24 ∨ o.addr + o.bytes ≤ b := by
  induction h with
  | done => exact absurd ho List.not_mem_nil
  | @object first finish objects hformat hsize hknown hrest ih =>
    rw [imageCells_cons, List.mem_append] at hb
    rcases List.mem_cons.mp ho with rfl | ho
    · rcases hb with hown | hlater
      · rw [ImageObject.cells, if_pos hbytes, List.mem_singleton] at hown
        omega
      · exact .inr (hrest.cells_within hlater).1
    · rcases hb with hfirst | hlater
      · have hin := first.cells_within hfirst
        have hbehind := (hrest.object_within ho).1
        omega
      · exact ih ho hlater

/-- **An image moved to another base**: its inner references by the distance of the bases,
and everything else as it was. -/
structure Relocated (m m' : Mem) (buf size heapBase newBase : Nat) (objects : List ImageObject) :
    Prop where
  inner : ∀ a ∈ imageCells objects, ∀ o ∈ objects,
    (load64 m a).toNat = heapBase + (o.addr - buf) →
      load64 m' a = UInt64.ofNat (newBase + (o.addr - buf))
  null : ∀ a ∈ imageCells objects, load64 m a = 0 → load64 m' a = 0
  immediate : ∀ a ∈ imageCells objects, isObjectPtr (load64 m a) = false →
    load64 m' a = load64 m a
  outside : ∀ a ∈ imageCells objects,
    (load64 m a).toNat < heapBase ∨ heapBase + size ≤ (load64 m a).toNat →
      load64 m' a = load64 m a
  header : ∀ o ∈ objects,
    objFormat m' o.addr = objFormat m o.addr ∧ objSize m' o.addr = objSize m o.addr
  bytes : ∀ o ∈ objects, o.format = formatBytes → ∀ i < o.size.toNat,
    m' (objFieldAddr o.addr 0 + i) = m (objFieldAddr o.addr 0 + i)

/-- No word but a pointer into the image looks like an offset: a reference outside it is
not so low either. -/
def NoFalseOffset (m : Mem) (size heapBase : Nat) (objects : List ImageObject) : Prop :=
  ∀ a ∈ imageCells objects, isObjectPtr (load64 m a) = true →
    (load64 m a).toNat < heapBase ∨ heapBase + size ≤ (load64 m a).toNat →
      ¬(8 ≤ (load64 m a).toNat ∧ (load64 m a).toNat ≤ size)

/-- **A plain image goes there and back**: with any new base, both conversions end, and
what comes out is the image moved to it. -/
theorem image_relocated {m : Mem} {buf size heapBase : Nat} {objects : List ImageObject}
    (h : PlainImage m buf size heapBase objects)
    (hwords : NoFalseOffset m size heapBase objects) (newBase : Nat) :
    ∃ m₁ m₂, (∀ fuel, size < fuel → imagePointersToOffsets fuel m buf size heapBase = some m₁)
      ∧ (∀ fuel, size < fuel → imageOffsetsToPointers fuel m₁ buf size newBase = some m₂)
      ∧ Relocated m m₂ buf size heapBase newBase objects := by
  obtain ⟨m₁, m₂, hfirst, hsecond, hword, hother⟩ := image_there_and_back h newBase
  refine ⟨m₁, m₂, hfirst, hsecond, ?_⟩
  constructor
  case inner =>
    intro a ha o ho hreference
    obtain ⟨habove, haligned, hwithin⟩ := h.gapless.object_within ho
    have hbase := h.aligned
    have hbytes : 24 ≤ o.bytes := by
      rw [ImageObject.bytes]
      omega
    have hptr : isObjectPtr (load64 m a) = true := by
      rw [isObjectPtr_iff, hreference]
      omega
    rw [hword a ha, relocatedWord_inside h.nonNull (by omega) hptr (by omega) (by omega)
      h.inMemory, hreference, Nat.add_sub_cancel_left, Nat.add_comm]
  case null =>
    intro a ha hnull
    rw [hword a ha, hnull, relocatedWord_null]
  case immediate =>
    intro a ha himmediate
    rw [hword a ha, relocatedWord_immediate himmediate]
  case outside =>
    intro a ha houtside
    rw [hword a ha, relocatedWord_outside houtside, toPointer]
    by_cases hptr : isObjectPtr (load64 m a) = false
    · exact if_pos hptr
    · rw [if_neg hptr]
      have hnot := hwords a ha (by rwa [Bool.not_eq_false] at hptr) houtside
      exact if_pos (by omega)
  case header =>
    intro o ho
    have hsame : ∀ i, o.addr + 8 ≤ i → i < o.addr + 24 → m₂ i = m i := by
      intro i hlow hhigh
      refine hother i fun a ha => ?_
      have hapart := h.gapless.headers_apart ho ha
      omega
    refine ⟨load64_congr fun i hi => hsame _ ?_ ?_, load64_congr fun i hi => hsame _ ?_ ?_⟩
    all_goals omega
  case bytes =>
    intro o ho hbytes i hi
    refine hother _ fun a ha => ?_
    have hapart := h.gapless.bytes_apart ho hbytes ha
    rw [ImageObject.bytes, if_pos hbytes] at hapart
    rw [objFieldAddr]
    omega

/-- An object with one slot, alone in its image and its own class. -/
def ownClass : Mem :=
  store64 (store64 (store64 (store64 (fun _ => 0) 4096 0x1000000) 4104 formatFields) 4112 1) 4120 5

theorem image_relocated_ownClass :
    ∃ m₁ m₂, (∀ fuel, 32 < fuel → imagePointersToOffsets fuel ownClass 4096 32 0x1000000 = some m₁)
      ∧ (∀ fuel, 32 < fuel → imageOffsetsToPointers fuel m₁ 4096 32 0x2000000 = some m₂)
      ∧ Relocated ownClass m₂ 4096 32 0x1000000 0x2000000 [⟨4096, formatFields, 1⟩] := by
  refine image_relocated ⟨?_, by decide, by decide, by decide, by decide⟩ ?_ 0x2000000
  · exact @Gapless.object ownClass ⟨4096, formatFields, 1⟩ 4128 [] (by decide +kernel)
      (by decide +kernel) (.inl rfl) .done
  · intro a ha
    have hcells : a = 4096 ∨ a = 4120 := by
      simpa [imageCells, ImageObject.cells, objFieldAddr, formatFields, formatBytes] using ha
    obtain rfl | rfl := hcells
    · have hclass : load64 ownClass 4096 = 0x1000000 := by decide +kernel
      rw [hclass]
      decide
    · have hslot : load64 ownClass 4120 = 5 := by decide +kernel
      rw [hslot]
      decide

/-- A string of eight megabytes whose class is an object outside the image, at a lower
address than the image is long. -/
def lowClass : Mem :=
  store64 (store64 (store64 (fun _ => 0) 0x10000000 0x410000) 0x10000008 formatBytes)
    0x10000010 0x800000

/-- A reference outside the image that is this low is taken for an offset. -/
theorem image_not_relocated : ¬∀ (m : Mem) (buf size heapBase : Nat) (objects : List ImageObject)
    (outside : Set Nat) (newBase : Nat), PlainImage m buf size heapBase objects →
    (∀ a ∈ imageCells objects, isObjectPtr (load64 m a) = true →
      (¬∃ o ∈ objects, (load64 m a).toNat = heapBase + (o.addr - buf)) →
      (load64 m a).toNat ∉ outside → ¬(8 ≤ (load64 m a).toNat ∧ (load64 m a).toNat ≤ size)) →
    ∃ m₁ m₂, (∀ fuel, size < fuel → imagePointersToOffsets fuel m buf size heapBase = some m₁)
      ∧ (∀ fuel, size < fuel → imageOffsetsToPointers fuel m₁ buf size newBase = some m₂)
      ∧ Relocated m m₂ buf size heapBase newBase objects := by
  intro hclaim
  have hword : load64 lowClass 0x10000000 = 0x410000 := by decide +kernel
  have himage : PlainImage lowClass 0x10000000 0x800018 0x7000000000
      [⟨0x10000000, formatBytes, 0x800000⟩] := by
    refine ⟨?_, by decide, by decide, by decide, by decide⟩
    exact @Gapless.object lowClass ⟨0x10000000, formatBytes, 0x800000⟩ 0x10800018 []
      (by decide +kernel) (by decide +kernel) (.inr (.inr rfl)) .done
  have hcell : (0x10000000 : Nat) ∈ imageCells [⟨0x10000000, formatBytes, 0x800000⟩] := by
    rw [imageCells_cons]
    exact List.mem_append_left _ List.mem_cons_self
  obtain ⟨m₁, m₂, hfirst, hsecond, hrelocated⟩ := hclaim lowClass 0x10000000 0x800018 0x7000000000
    [⟨0x10000000, formatBytes, 0x800000⟩] {0x410000} 0x6000000000 himage fun a ha _ _ hnot => by
      have hclass : a = 0x10000000 := by
        simpa [imageCells, ImageObject.cells] using ha
      rw [hclass, hword] at hnot
      exact absurd rfl hnot
  obtain ⟨m₁', m₂', hfirst', hsecond', hmoved, -⟩ := image_there_and_back himage 0x6000000000
  have hsame₁ : m₁ = m₁' :=
    Option.some.inj ((hfirst 0x800019 (by decide)).symm.trans (hfirst' 0x800019 (by decide)))
  rw [← hsame₁] at hsecond'
  have hsame₂ : m₂ = m₂' :=
    Option.some.inj ((hsecond 0x800019 (by decide)).symm.trans (hsecond' 0x800019 (by decide)))
  have hkept := hrelocated.outside _ hcell (by rw [hword]; decide)
  have hfound := hmoved _ hcell
  rw [hword] at hkept hfound
  rw [hsame₂, hfound, relocatedWord_outside (by decide)] at hkept
  exact absurd hkept (by decide +kernel)

end LivingObjects.Checkpoint
