/-
  LivingObjects.Txn.Overlay — a heap and the pending writes over it.

  A log over a heap stands for the heap its commit would leave.  `Overlay` ties the two
  together: the entries stay inside objects of their kind, and what the log answers for
  a slot is what stands in the slot once the log is installed.  Writes and allocations
  keep it.
-/
import LivingObjects.Checkpoint.Durability
import LivingObjects.Txn.Access

namespace LivingObjects.Txn

open LivingObjects.Lib
open LivingObjects.VM
open LivingObjects.ObjectMemory
open LivingObjects.Journal
open LivingObjects.Checkpoint

/-! ## §1. Values. -/

/-- A tagged byte, as `at:put:` demands it for a byte object. -/
def IsByteValue (v : Oop) : Prop :=
  isSmallint v = true ∧ 0 ≤ untagSmallint v ∧ untagSmallint v ≤ 255

instance (v : Oop) : Decidable (IsByteValue v) := by
  unfold IsByteValue
  infer_instance

theorem isSmallint_iff (value : Oop) : isSmallint value = true ↔ value.toNat % 4 = 1 := by
  unfold isSmallint
  rw [beq_iff_eq, ← UInt64.toNat_inj, and_tagMask_toNat]
  rfl

theorem untagSmallint_eq (v : Oop) :
    untagSmallint v = if 2 * v.toNat < 2 ^ 64 then ((v.toNat / 4 : Nat) : Int)
      else ((v.toNat : Int) - 2 ^ 64) / 4 := by
  unfold untagSmallint
  rw [BitVec.toInt_eq_toNat_cond]
  show (if 2 * v.toNat < 2 ^ 64 then (v.toNat : Int) else (v.toNat : Int) - (2 ^ 64 : Nat)) / 4 = _
  split <;> push_cast <;> rfl

/-- The number of a tagged byte. -/
theorem IsByteValue.toNat {v : Oop} (h : IsByteValue v) :
    v.toNat = 4 * (untagSmallint v).toNat + 1 ∧ (untagSmallint v).toNat < 256 := by
  obtain ⟨htag, hlo, hhi⟩ := h
  rw [isSmallint_iff] at htag
  have hlt := v.toNat_lt
  have heq := untagSmallint_eq v
  split at heq <;> omega

theorem IsByteValue.untagged {v : Oop} (h : IsByteValue v) :
    UInt8.ofNat (untagSmallint v).toNat = untagSmallintByte v := by
  obtain ⟨hv, hlt⟩ := h.toNat
  rw [← UInt8.toNat_inj, UInt8.toNat_ofNat_of_lt' hlt]
  unfold untagSmallintByte
  rw [UInt64.toNat_toUInt8, UInt64.toNat_shiftRight]
  show _ = v.toNat >>> 2 % 256
  rw [Nat.shiftRight_eq_div_pow]
  omega

/-- A tagged byte is the tag of the byte it stands for. -/
theorem IsByteValue.tagged {v : Oop} (h : IsByteValue v) :
    tagSmallintNat (untagSmallintByte v).toNat = v := by
  obtain ⟨hv, hlt⟩ := h.toNat
  rw [← h.untagged, UInt8.toNat_ofNat_of_lt' hlt, ← UInt64.toNat_inj]
  unfold tagSmallintNat
  rw [toNat_ofNat64 (by omega), hv]

theorem byteTxnIndex_toNat {i : Nat} (h : i < 2 ^ 63) : (byteTxnIndex i).toNat = 2 ^ 63 + i := by
  unfold byteTxnIndex
  rw [UInt64.toNat_or, toNat_ofNat64 (by omega)]
  exact (Nat.two_pow_add_eq_or_of_lt h 1).symm ▸ by simp [byteFieldMarker]

/-- An index has the marker exactly when its top bit is set. -/
theorem isByteEntry_iff (e : LogEntry) : IsByteEntry e ↔ 2 ^ 63 ≤ e.fieldIndex.toNat := by
  refine ⟨marked_high, fun h hzero => ?_⟩
  rw [← UInt64.toNat_inj, UInt64.toNat_shiftRight] at hzero
  replace hzero : e.fieldIndex.toNat >>> 63 = 0 := hzero
  rw [Nat.shiftRight_eq_div_pow] at hzero
  have hlt := e.fieldIndex.toNat_lt
  omega

/-! ## §2. One entry. -/

theorem commitEntry_bytewise (e : LogEntry) : Bytewise (commitEntry · e) := by
  unfold commitEntry
  by_cases h : e.fieldIndex >>> 63 ≠ 0
  · simp only [if_pos h]
    exact bytewise_store8 _ _
  · simp only [if_neg h]
    exact bytewise_store64 _ _

/-! ## §3. A log over a heap. -/

/-- Byte objects have a size the header arithmetic does not wrap on. -/
def Sized (h : Heap) (live : Set Extent) : Prop :=
  ∀ x ∈ live, objFormat h.mem x.addr = formatBytes → (objSize h.mem x.addr).toNat + 7 < 2 ^ 64

/-- The entries of a log lie in live objects of their kind, and bytes are bytes. -/
structure Overlay (h : Heap) (live : Set Extent) (entries : List LogEntry) : Prop where
  layout : Layout h live
  sized : Sized h live
  slots : ∀ e ∈ entries, SlotIn h live e
  bytes : ∀ e ∈ entries, IsByteEntry e → IsByteValue e.value

section Installed

variable {h : Heap} {live : Set Extent} {entries : List LogEntry}

theorem Overlay.header (ho : Overlay h live entries) {x : Extent} (hx : x ∈ live) {i : Nat}
    (hi : i < 24) : entries.foldl commitEntry h.mem (x.addr + i) = h.mem (x.addr + i) :=
  leaves_foldl (fun e he => (ho.slots e he).leaves_header ho.layout hx hi) h.mem

/-- What the log answers for a slot stands there once the log is installed; without an
answer the slot stays as it is. -/
theorem installed_slot (hs : Separate live) (hslots : ∀ e ∈ entries, SlotIn h live e)
    {e₀ : LogEntry} (he₀ : SlotIn h live e₀) :
    match readEntry entries e₀.object e₀.fieldIndex with
    | some v => (entryWrite { e₀ with value := v }).HeldBy (entries.foldl commitEntry h.mem)
    | none => ∀ b, e₀.object.toNat + entryOffset e₀ ≤ b →
        b < e₀.object.toNat + entryOffset e₀ + entryWidth e₀ →
        entries.foldl commitEntry h.mem b = h.mem b := by
  induction entries using List.reverseRecOn with
  | nil => exact fun b _ _ => rfl
  | append_singleton es e ih =>
    have he : SlotIn h live e := hslots e (List.mem_append_right es List.mem_cons_self)
    have hih := ih (fun e' he' => hslots e' (List.mem_append_left [e] he'))
    rw [readEntry_append, List.foldl_append, List.foldl_cons, List.foldl_nil]
    by_cases hmatch : e.object = e₀.object ∧ e.fieldIndex = e₀.fieldIndex
    · -- the last entry is one for this slot
      rw [if_pos hmatch]
      show (entryWrite { e₀ with value := e.value }).HeldBy _
      have hsame : { e₀ with value := e.value } = e := by
        rw [← hmatch.1, ← hmatch.2]
      rw [hsame, commitEntry_eq_store]
      exact BodyWrite.heldBy_store _ (entryWrite e)
    · -- the last entry writes elsewhere
      rw [if_neg hmatch]
      have hapart := he₀.apart hs he hmatch
      have hkeep : ∀ b, e₀.object.toNat + entryOffset e₀ ≤ b →
          b < e₀.object.toNat + entryOffset e₀ + entryWidth e₀ → Leaves (commitEntry · e) b :=
        fun b hlo hhi => he.leaves hs (by omega)
      cases hread : readEntry es e₀.object e₀.fieldIndex with
      | none =>
        simp only [hread] at hih ⊢
        intro b hlo hhi
        exact (hkeep b hlo hhi _).trans (hih b hlo hhi)
      | some v =>
        simp only [hread] at hih ⊢
        refine hih.congr ?_
        have hplace : (entryWrite { e₀ with value := v }).address
            = e₀.object.toNat + entryOffset e₀ :=
          SlotIn.address hs (e := { e₀ with value := v }) ⟨he₀.object, he₀.format⟩
        have hwidth : (entryWrite { e₀ with value := v }).size = entryWidth e₀ := entryWrite_size _
        rw [hplace, hwidth]
        exact fun b hlo hhi => hkeep b hlo hhi _

theorem Overlay.slot (ho : Overlay h live entries) {e₀ : LogEntry} (he₀ : SlotIn h live e₀) :
    match readEntry entries e₀.object e₀.fieldIndex with
    | some v => (entryWrite { e₀ with value := v }).HeldBy (entries.foldl commitEntry h.mem)
    | none => ∀ b, e₀.object.toNat + entryOffset e₀ ≤ b →
        b < e₀.object.toNat + entryOffset e₀ + entryWidth e₀ →
        entries.foldl commitEntry h.mem b = h.mem b :=
  installed_slot ho.layout.separate ho.slots he₀

/-- The answer of the log is the value of an entry. -/
theorem readEntry_mem {object : Oop} {fieldIndex : UInt64} {v : Oop}
    (h : readEntry entries object fieldIndex = some v) :
    ∃ e ∈ entries, e.object = object ∧ e.fieldIndex = fieldIndex ∧ e.value = v := by
  unfold readEntry at h
  obtain ⟨e, hfind, hvalue⟩ := Option.map_eq_some_iff.mp h
  have hmatch := List.find?_some hfind
  simp only [decide_eq_true_eq] at hmatch
  exact ⟨e, List.mem_reverse.mp (List.mem_of_find?_eq_some hfind), hmatch.1, hmatch.2, hvalue⟩

/-- An object the addresses of whose body do not wrap. -/
theorem bodyAddress (hl : Layout h live) {x : Extent} (hx : x ∈ live) {r : Oop}
    (hr : x.addr = r.toNat) {n : Nat} (hn : n < x.bytes) :
    wrap64 (r.toNat + n) = r.toNat + n := by
  have hbelow := (hl.objects x hx).below
  have hfree := hl.placed.freeLimit
  have hlimit := hl.placed.limitStop
  have hstop := hl.placed.stopBound
  exact wrap64_of_lt (by omega)

/-- What the checks of `at:` and `at:put:` let through. -/
theorem readTarget_ok (hl : Layout h live) {x : Extent} (hx : x ∈ live) {r : Oop}
    (hr : x.addr = r.toNat) {index : Oop} {format : UInt64} {i : Nat}
    (htarget : (readTarget r index).run h.mem = .ok (format, i)) :
    format = objFormat h.mem r.toNat ∧ i < (objSize h.mem r.toNat).toNat := by
  have hsize := (hl.objects x hx).nonempty
  have hf : (readFormat r).run h.mem = objFormat h.mem r.toNat := by
    unfold readFormat
    rw [Reading.run_load, bodyAddress hl hx hr (by omega)]
    rfl
  have hn : (readSize r).run h.mem = objSize h.mem r.toNat := by
    unfold readSize
    rw [Reading.run_load, bodyAddress hl hx hr (by omega)]
    rfl
  unfold readTarget at htarget
  simp only [Reading.run_ite, Reading.run_bind, Reading.run_pure, hf, hn] at htarget
  split at htarget
  · cases htarget
  split at htarget
  · cases htarget
  split at htarget
  · cases htarget
  next hin =>
  simp only [Except.ok.injEq, Prod.mk.injEq] at htarget
  obtain ⟨hformat, rfl⟩ := htarget
  refine ⟨hformat.symm, ?_⟩
  by_contra hge
  exact hin (.inr (Nat.le_of_not_lt hge))

/-- A field of an object that is not a byte object. -/
theorem wordSlot (hl : Layout h live) {x : Extent} (hx : x ∈ live) {r : Oop}
    (hr : x.addr = r.toNat) (hformat : objFormat h.mem r.toNat ≠ formatBytes) {k : UInt64}
    (hk : k.toNat < objectSlotCount h.mem r.toNat) (v : Oop) :
    SlotIn h live ⟨r, k, v⟩ ∧ ¬ IsByteEntry ⟨r, k, v⟩ ∧ 24 + 8 * k.toNat + 8 ≤ x.bytes := by
  have hheader := (hl.objects x hx).header
  have hbelow := (hl.objects x hx).below
  have hfree := hl.placed.freeLimit
  have hlimit := hl.placed.limitStop
  have hstop := hl.placed.stopBound
  rw [hr] at hheader
  have hword : ¬ IsByteEntry ⟨r, k, v⟩ := by
    rw [isByteEntry_iff]
    show ¬ 2 ^ 63 ≤ k.toNat
    omega
  refine ⟨⟨⟨x, hx, hr, ?_⟩, iff_of_false hword hformat⟩, hword, by omega⟩
  unfold entryOffset entryWidth
  rw [if_neg hword, if_neg hword]
  show 24 + 8 * k.toNat + 8 ≤ x.bytes
  omega

/-- A byte of a byte object. -/
theorem byteSlot (hl : Layout h live) (hs : Sized h live) {x : Extent} (hx : x ∈ live) {r : Oop}
    (hr : x.addr = r.toNat) (hformat : objFormat h.mem r.toNat = formatBytes) {i : Nat}
    (hi : i < (objSize h.mem r.toNat).toNat) (v : Oop) :
    SlotIn h live ⟨r, byteTxnIndex i, v⟩ ∧ IsByteEntry ⟨r, byteTxnIndex i, v⟩ ∧
      (byteTxnIndex i &&& ~~~byteFieldMarker).toNat = i ∧ 24 + i < x.bytes := by
  have hheader := (hl.objects x hx).header
  have hbelow := (hl.objects x hx).below
  have hfree := hl.placed.freeLimit
  have hlimit := hl.placed.limitStop
  have hstop := hl.placed.stopBound
  have hsize := hs x hx (by rw [hr]; exact hformat)
  rw [hr] at hheader hsize
  have hslots : objectSlotCount h.mem r.toNat = ((objSize h.mem r.toNat).toNat + 7) / 8 := by
    unfold objectSlotCount slotWords wordSize
    rw [if_pos hformat, wrap64_of_lt (by omega)]
  rw [hslots] at hheader
  have hindex := byteTxnIndex_toNat (i := i) (by omega)
  have hbyte : IsByteEntry ⟨r, byteTxnIndex i, v⟩ := by
    rw [isByteEntry_iff]
    show 2 ^ 63 ≤ (byteTxnIndex i).toNat
    omega
  have hplace : (byteTxnIndex i &&& ~~~byteFieldMarker).toNat = i := by
    rw [byteIndex_toNat hbyte, hindex, Nat.add_sub_cancel_left]
  refine ⟨⟨⟨x, hx, hr, ?_⟩, iff_of_true hbyte hformat⟩, hbyte, hplace, by omega⟩
  unfold entryOffset entryWidth
  rw [if_pos hbyte, if_pos hbyte]
  show 24 + (byteTxnIndex i &&& ~~~byteFieldMarker).toNat + 1 ≤ x.bytes
  omega

/-- Reading a field through the log reads it in the installed heap. -/
theorem Overlay.readWord (ho : Overlay h live entries) {x : Extent} (hx : x ∈ live) {r : Oop}
    (hr : x.addr = r.toNat) (hformat : objFormat h.mem r.toNat ≠ formatBytes) {k : UInt64}
    (hk : k.toNat < objectSlotCount h.mem r.toNat) :
    (readField r k.toNat).run (entries.foldl commitEntry h.mem)
      = (readEntry entries r k).getD ((readField r k.toNat).run h.mem) := by
  obtain ⟨hslot, hword, hin⟩ := wordSlot ho.layout hx hr hformat hk taggedNil
  have haddress : wrap64 (objFieldAddr r.toNat k.toNat) = r.toNat + (24 + 8 * k.toNat) := by
    have hplain := bodyAddress ho.layout hx hr (n := 24 + 8 * k.toNat) (by omega)
    rw [← hplain]
    unfold objFieldAddr
    rw [Nat.add_assoc]
  have hread := ho.slot hslot
  show load64 _ (wrap64 (objFieldAddr r.toNat k.toNat))
    = (readEntry entries r k).getD (load64 h.mem (wrap64 (objFieldAddr r.toNat k.toNat)))
  cases hanswer : readEntry entries r k with
  | some v =>
    simp only [hanswer] at hread
    have hentry : entryWrite ⟨r, k, v⟩ = .word r.toNat k.toNat v := by
      unfold entryWrite
      exact if_neg hword
    rw [hentry] at hread
    exact hread
  | none =>
    simp only [hanswer] at hread
    unfold entryOffset entryWidth at hread
    rw [if_neg hword, if_neg hword] at hread
    rw [haddress]
    exact load64_congr (fun i hi => hread _ (Nat.le_add_right _ i) (Nat.add_lt_add_left hi _))

/-- Reading a byte through the log reads it in the installed heap. -/
theorem Overlay.readByte (ho : Overlay h live entries) {x : Extent} (hx : x ∈ live) {r : Oop}
    (hr : x.addr = r.toNat) (hformat : objFormat h.mem r.toNat = formatBytes) {i : Nat}
    (hi : i < (objSize h.mem r.toNat).toNat) :
    tagSmallintNat ((readByte r i).run (entries.foldl commitEntry h.mem)).toNat
      = (readEntry entries r (byteTxnIndex i)).getD
          (tagSmallintNat ((readByte r i).run h.mem).toNat) := by
  obtain ⟨hslot, hbyte, hplace, hin⟩ :=
    byteSlot ho.layout ho.sized hx hr hformat hi taggedNil
  have haddress : wrap64 (objFieldAddr r.toNat 0 + i) = r.toNat + (24 + i) := by
    rw [← bodyAddress ho.layout hx hr (n := 24 + i) hin]
    unfold objFieldAddr
    rw [Nat.add_assoc, Nat.add_assoc, Nat.mul_zero, Nat.zero_add]
  have hread := ho.slot hslot
  show tagSmallintNat (entries.foldl commitEntry h.mem (wrap64 (objFieldAddr r.toNat 0 + i))).toNat
    = (readEntry entries r (byteTxnIndex i)).getD
        (tagSmallintNat (h.mem (wrap64 (objFieldAddr r.toNat 0 + i))).toNat)
  cases hanswer : readEntry entries r (byteTxnIndex i) with
  | some v =>
    simp only [hanswer] at hread
    have hentry : entryWrite ⟨r, byteTxnIndex i, v⟩ = .byte r.toNat i (untagSmallintByte v) := by
      unfold entryWrite
      rw [if_pos (show (byteTxnIndex i) >>> 63 ≠ 0 from hbyte)]
      show BodyWrite.byte r.toNat (byteTxnIndex i &&& ~~~byteFieldMarker).toNat _ = _
      rw [hplace]
    rw [hentry] at hread
    obtain ⟨e, he, hobject, hindex, hvalue⟩ := readEntry_mem hanswer
    have hentryByte : IsByteEntry e := by
      rw [isByteEntry_iff, hindex, ← isByteEntry_iff ⟨r, byteTxnIndex i, v⟩]
      exact hbyte
    have hvalid := ho.bytes e he hentryByte
    rw [hvalue] at hvalid
    rw [show entries.foldl commitEntry h.mem (wrap64 (objFieldAddr r.toNat 0 + i))
      = untagSmallintByte v from hread]
    exact hvalid.tagged
  | none =>
    simp only [hanswer] at hread
    unfold entryOffset entryWidth at hread
    rw [if_pos hbyte, if_pos hbyte] at hread
    have hsame := hread (r.toNat + (24 + i))
    simp only [hplace] at hsame
    rw [haddress, hsame (Nat.le_refl _) (Nat.lt_succ_self _)]
    rfl

/-- Another entry in the log. -/
theorem Overlay.push (ho : Overlay h live entries) {e : LogEntry} (he : SlotIn h live e)
    (hbyte : IsByteEntry e → IsByteValue e.value) : Overlay h live (entries ++ [e]) := by
  refine ⟨ho.layout, ho.sized, ?_, ?_⟩
  · intro e' he'
    rcases List.mem_append.mp he' with hold | hnew
    · exact ho.slots e' hold
    · rw [List.mem_singleton.mp hnew]
      exact he
  · intro e' he'
    rcases List.mem_append.mp he' with hold | hnew
    · exact ho.bytes e' hold
    · rw [List.mem_singleton.mp hnew]
      exact hbyte

end Installed

/-! ## §4. Allocation. -/

/-- The header and the fields of a new object. -/
def newObject (req : AllocRequest) (object : Nat) (m : Mem) : Mem :=
  let m := writeObject m object req
  if req.format = formatBytes then m else initializeWordFields m object req.size.toNat

theorem initializeWordFields_bytewise (object n : Nat) :
    Bytewise (initializeWordFields · object n) :=
  bytewise_foldl (fun i => bytewise_store64 (objFieldAddr object i) taggedNil) (List.range n)

theorem initializeWordFields_leaves (object n : Nat) {b : Nat}
    (hb : b < object + 24 ∨ object + 24 + 8 * n ≤ b) :
    Leaves (initializeWordFields · object n) b := by
  apply leaves_foldl
  intro i hi m
  have hlt := List.mem_range.mp hi
  exact store64_of_out m taggedNil (by unfold objFieldAddr; omega)

theorem newObject_bytewise (req : AllocRequest) (object : Nat) :
    Bytewise (newObject req object) := by
  have hwrite : Bytewise (writeObject · object req) := by
    unfold writeObject
    exact ((bytewise_zeroFill _ _).comp (bytewise_store64 _ _)).comp
      ((bytewise_store64 _ _).comp (bytewise_store64 _ _))
  by_cases hbytes : req.format = formatBytes
  · unfold newObject
    simp only [if_pos hbytes]
    exact hwrite
  · unfold newObject
    simp only [if_neg hbytes]
    exact (initializeWordFields_bytewise object req.size.toNat).comp hwrite

theorem newObject_leaves (req : AllocRequest) (object : Nat) {b : Nat}
    (hb : b < object ∨ object + req.totalBytes ≤ b) : Leaves (newObject req object) b := by
  intro m
  unfold newObject
  split
  · exact writeObject_of_out m object req hb
  · next hbytes =>
    have hsize : slotWords req.format req.size = req.size.toNat := by
      unfold slotWords
      rw [if_neg hbytes]
    have htotal : req.totalBytes = 8 * (3 + req.size.toNat) := by
      unfold AllocRequest.totalBytes
      rw [hsize]
    have hfields := initializeWordFields_leaves object req.size.toNat (b := b) (by omega)
      (writeObject m object req)
    exact hfields.trans (writeObject_of_out m object req hb)

/-- The header of a new object is the one it was allocated with. -/
theorem newObject_header (req : AllocRequest) (object : Nat) (m : Mem) {i : Nat} (hi : i < 24) :
    newObject req object m (object + i) = writeObject m object req (object + i) := by
  unfold newObject
  split
  · rfl
  · exact initializeWordFields_leaves _ _ (by omega) _

theorem newObject_format (req : AllocRequest) (object : Nat) (m : Mem) :
    objFormat (newObject req object m) object = req.format := by
  rw [← objFormat_writeObject m object req]
  apply load64_congr
  intro i hi
  rw [Nat.add_assoc]
  exact newObject_header req object m (by omega)

theorem newObject_size (req : AllocRequest) (object : Nat) (m : Mem) :
    objSize (newObject req object m) object = req.size := by
  rw [← objSize_writeObject m object req]
  apply load64_congr
  intro i hi
  rw [Nat.add_assoc]
  exact newObject_header req object m (by omega)

/-- Where `om_alloc` puts an object, and what it makes of the tables, does not depend on
the dirty bits. -/
theorem omAlloc_sameButDirty {h k : Heap} (hom : SameButDirty h.om k.om) (req : AllocRequest) :
    match omAlloc h req with
    | some (object, h') => ∃ k', omAlloc k req = some (object, k') ∧
        SameButDirty h'.om k'.om ∧ k'.mem = writeObject k.mem object req
    | none => omAlloc k req = none := by
  have hpageStart : ∀ p, omPageStart k.om p = omPageStart h.om p := by
    intro p
    unfold omPageStart
    rw [hom.start, hom.pageCount]
  have hreuse : reusablePage k.om req.totalBytes = reusablePage h.om req.totalBytes := by
    unfold reusablePage
    simp only [hom.pageCount, hom.reusable, hom.state, hpageStart, hom.free]
  have hbump : bumpObject k.om req.totalBytes = bumpObject h.om req.totalBytes := by
    unfold bumpObject
    rw [hom.free, hom.start]
  have hpageId : ∀ a, omPageIdForAddress k.om a = omPageIdForAddress h.om a := by
    intro a
    unfold omPageIdForAddress
    rw [hom.start, hom.stop]
  have hnote : ∀ object, SameButDirty (noteObject h.om object req.totalBytes)
      (noteObject k.om object req.totalBytes) := by
    intro object
    unfold noteObject
    rw [hpageId, hpageId]
    split
    · refine ⟨hom.free, hom.limit, hom.start, hom.stop, hom.pageCount, fun i => ?_, fun i => ?_,
        fun i => ?_, fun i => ?_, fun i => ?_⟩ <;> simp only <;> split <;>
        simp only [notedPage, hom.used, hom.first, hom.covering, hom.state, hom.reusable,
          hpageStart]
    · exact hom
  unfold omAlloc
  simp only [hreuse, hbump, hom.limit]
  generalize reusablePage h.om req.totalBytes = reusePage
  by_cases hroom : h.om.limit <
      reusePage.elim (bumpObject h.om req.totalBytes) (omPageStart h.om) + req.totalBytes
  · cases reusePage <;> simp only [hpageStart, Option.elim_none, Option.elim_some] at hroom ⊢ <;>
      simp only [if_pos hroom]
  · cases reusePage with
    | none =>
      simp only [Option.elim_none] at hroom
      simp only [if_neg hroom, Option.isNone_none, if_true]
      have hn := hnote (bumpObject h.om req.totalBytes)
      exact ⟨_, rfl, ⟨rfl, hn.limit, hn.start, hn.stop, hn.pageCount, hn.used, hn.first,
        hn.covering, hn.state, hn.reusable⟩, rfl⟩
    | some pageId =>
      simp only [Option.elim_some] at hroom
      simp only [hpageStart, if_neg hroom, Option.isNone_some, Bool.false_eq_true, if_false]
      exact ⟨_, rfl, hnote _, rfl⟩

section Place

variable {h h' : Heap} {live : Set Extent} {req : AllocRequest} {object : Nat}

/-- A new object leaves the bytes of live objects alone. -/
theorem newObject_keeps (hl : Layout h live) (ha : omAlloc h req = some (object, h'))
    {x : Extent} (hx : x ∈ live) {b : Nat} (hb : x.Holds b) :
    newObject req object h.mem b = h.mem b := by
  obtain ⟨-, hunused, -, -⟩ := omAlloc_layout hl ha
  apply newObject_leaves
  by_contra hin
  exact hunused b (by omega) (by omega) ⟨x, hx, hb⟩

theorem newObject_headers (hl : Layout h live) (ha : omAlloc h req = some (object, h'))
    {x : Extent} (hx : x ∈ live) :
    objFormat (newObject req object h.mem) x.addr = objFormat h.mem x.addr ∧
      objSize (newObject req object h.mem) x.addr = objSize h.mem x.addr := by
  have hnonempty := (hl.objects x hx).nonempty
  constructor
  · exact load64_congr
      (fun i hi => newObject_keeps hl ha hx (by unfold Extent.Holds; omega))
  · exact load64_congr
      (fun i hi => newObject_keeps hl ha hx (by unfold Extent.Holds; omega))

/-- The layout with a new object and its fields. -/
theorem newObject_layout (hl : Layout h live) (ha : omAlloc h req = some (object, h')) :
    Layout { h' with mem := newObject req object h.mem }
      (insert ⟨object, req.totalBytes⟩ live) := by
  obtain ⟨hlayout, -⟩ := omAlloc_layout hl ha
  obtain ⟨-, hmem, -⟩ := omAlloc_cases ha
  refine hlayout.congr (SameButDirty.refl h'.om) ?_
  rintro x (rfl | hx)
  · exact objectSlotCount_congr
      (by rw [newObject_format, hmem, objFormat_writeObject])
      (by rw [newObject_size, hmem, objSize_writeObject])
  · obtain ⟨hformat, hsize⟩ := newObject_headers hl ha hx
    rw [(omAlloc_headers hl ha hx).2]
    exact objectSlotCount_congr hformat hsize

/-- **A new object goes beside the pending writes**: it is the same object with the
writes pending and with them installed. -/
theorem Overlay.alloc {entries : List LogEntry} (ho : Overlay h live entries)
    (ha : omAlloc h req = some (object, h')) :
    Overlay { h' with mem := newObject req object h.mem }
        (insert ⟨object, req.totalBytes⟩ live) entries ∧
      entries.foldl commitEntry (newObject req object h.mem)
        = newObject req object (entries.foldl commitEntry h.mem) := by
  refine ⟨⟨newObject_layout ho.layout ha, ?_, ?_, ho.bytes⟩, ?_⟩
  · rintro x (rfl | hx) hbytes
    · rw [newObject_format] at hbytes
      rw [newObject_size]
      exact req.roundsUp hbytes
    · obtain ⟨hformat, hsize⟩ := newObject_headers ho.layout ha hx
      rw [hformat] at hbytes
      rw [hsize]
      exact ho.sized x hx hbytes
  · intro e he
    obtain ⟨⟨x, hx, haddr, hin⟩, hkind⟩ := ho.slots e he
    refine ⟨⟨x, Set.mem_insert_of_mem _ hx, haddr, hin⟩, ?_⟩
    rw [hkind, ← haddr, (newObject_headers ho.layout ha hx).1]
  · obtain ⟨-, hunused, -, -⟩ := omAlloc_layout ho.layout ha
    refine Bytewise.commute (bytewise_foldl commitEntry_bytewise entries)
      (newObject_bytewise req object) ?_ h.mem
    intro b
    by_cases hin : object ≤ b ∧ b < object + req.totalBytes
    · refine .inl (leaves_foldl (fun e he => (ho.slots e he).leaves_outside ho.layout ?_))
      intro x hx hlo hhi
      exact hunused b hin.1 hin.2 ⟨x, hx, by unfold Extent.Holds; omega⟩
    · exact .inr (newObject_leaves req object (by omega))

end Place

end LivingObjects.Txn
