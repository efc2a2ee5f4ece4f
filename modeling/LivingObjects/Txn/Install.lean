/-
  LivingObjects.Txn.Install — the transaction log as an overlay.

  The words of a log stand for a finite map from slots to values: the backward search
  of `txn_log_read` finds the last write to a slot, and the forward loop of `txn_commit`
  leaves that value in it.  Slots for words and slots for bytes share one key space and
  never meet, and of the order of the entries only that of the entries for one slot
  counts.
-/
import LivingObjects.Txn.Overlay

namespace LivingObjects.Txn

open LivingObjects.Lib
open LivingObjects.VM
open LivingObjects.ObjectMemory
open LivingObjects.Journal
open LivingObjects.Checkpoint

/-! ## §1. Writing a log. -/

/-- The words after these writes to an empty log. -/
def writtenLog (w₀ : LogWords) (log : TxnLog) : LogWords :=
  log.entries.foldl txnLogWrite (txnAbort w₀)

theorem HoldsLog.writes {w : LogWords} {before : List LogEntry} (h : HoldsLog w before)
    (entries : List LogEntry) (hroom : before.length + entries.length < 2 ^ 64) :
    HoldsLog (entries.foldl txnLogWrite w) (before ++ entries) := by
  induction entries generalizing w before with
  | nil => rw [List.append_nil]; exact h
  | cons e es ih =>
    rw [List.length_cons] at hroom
    rw [List.append_cons, List.foldl_cons]
    refine ih (h.write e (by omega)) ?_
    rw [List.length_append, List.length_singleton]
    omega

theorem writtenLog_holds (w₀ : LogWords) (log : TxnLog) : HoldsLog (writtenLog w₀ log) log.entries := by
  have hmem := log.inMemory
  have hroom : ([] : List LogEntry).length + log.entries.length < 2 ^ 64 := by
    rw [List.length_nil]
    omega
  exact (txnAbort_holds w₀).writes log.entries hroom

/-! ## §2. Reading. -/

section Read

variable {entries : List LogEntry} {object : Oop} {fieldIndex : UInt64}

theorem readEntry_last {e : LogEntry} (h : LastWrite entries e) :
    readEntry entries e.object e.fieldIndex = some e.value := by
  obtain ⟨before, after, rfl, hafter⟩ := h
  induction after using List.reverseRecOn with
  | nil =>
    rw [readEntry_append, if_pos ⟨rfl, rfl⟩]
  | append_singleton es e' ih =>
    have hother := hafter e' (List.mem_append_right es (List.mem_singleton_self e'))
    have hassoc : before ++ e :: (es ++ [e']) = (before ++ e :: es) ++ [e'] := by
      rw [List.append_assoc, List.cons_append]
    rw [hassoc, readEntry_append, if_neg hother]
    exact ih fun x hx => hafter x (List.mem_append_left [e'] hx)

theorem readEntry_absent
    (h : ∀ e ∈ entries, ¬ (e.object = object ∧ e.fieldIndex = fieldIndex)) :
    readEntry entries object fieldIndex = none := by
  unfold readEntry
  rw [Option.map_eq_none_iff, List.find?_eq_none]
  intro e he
  simpa using h e (List.mem_reverse.mp he)

/-- The entries for a slot. -/
def entriesFor (entries : List LogEntry) (object : Oop) (fieldIndex : UInt64) : List LogEntry :=
  entries.filter fun e => e.object = object ∧ e.fieldIndex = fieldIndex

/-- Only the entries for the slot count. -/
theorem readEntry_eq_entriesFor (entries : List LogEntry) (object : Oop) (fieldIndex : UInt64) :
    readEntry entries object fieldIndex
      = ((entriesFor entries object fieldIndex).getLast?).map LogEntry.value := by
  unfold readEntry entriesFor
  rw [← List.head?_filter, List.filter_reverse, List.head?_reverse]

end Read

/-- A key for words is none for bytes. -/
theorem ne_byteTxnIndex {fieldIndex : UInt64} (h : ¬ fieldIndex >>> 63 ≠ 0) (index : Nat) :
    fieldIndex ≠ byteTxnIndex index := by
  rintro rfl
  have hmarked : 2 ^ 63 ≤ (byteTxnIndex index).toNat := by
    unfold byteTxnIndex
    rw [UInt64.toNat_or]
    exact Nat.left_le_or
  exact h ((isByteEntry_iff ⟨0, byteTxnIndex index, 0⟩).mpr hmarked)

/-! ## §3. Installing. -/

section Installed

variable {h : Heap} {live : Set Extent} {entries : List LogEntry}

/-- Where no entry writes, the heap stays as it is. -/
theorem installed_elsewhere (hs : Separate live) (hslots : ∀ e ∈ entries, SlotIn h live e) {a : Nat}
    (ha : ∀ e ∈ entries, a < e.object.toNat + entryOffset e ∨
      e.object.toNat + entryOffset e + entryWidth e ≤ a) :
    entries.foldl commitEntry h.mem a = h.mem a :=
  leaves_foldl (fun e he => (hslots e he).leaves hs (ha e he)) h.mem

/-- A word holds what the log answers for it, or what it held. -/
theorem installed_word (hs : Separate live) (hslots : ∀ e ∈ entries, SlotIn h live e)
    {e₀ : LogEntry} (he₀ : SlotIn h live e₀) (hword : ¬ IsByteEntry e₀) :
    load64 (entries.foldl commitEntry h.mem)
        (wrap64 (objFieldAddr e₀.object.toNat e₀.fieldIndex.toNat))
      = (readEntry entries e₀.object e₀.fieldIndex).getD
          (load64 h.mem (wrap64 (objFieldAddr e₀.object.toNat e₀.fieldIndex.toNat))) := by
  have hentry : ∀ v, entryWrite { e₀ with value := v } = .word e₀.object.toNat e₀.fieldIndex.toNat v :=
    fun v => if_neg hword
  have haddress : wrap64 (objFieldAddr e₀.object.toNat e₀.fieldIndex.toNat)
      = e₀.object.toNat + entryOffset e₀ := by
    rw [← he₀.address hs]
    unfold entryWrite
    rw [if_neg (show ¬ e₀.fieldIndex >>> 63 ≠ 0 from hword)]
    rfl
  have hwidth : entryWidth e₀ = 8 := if_neg hword
  have hslot := installed_slot hs hslots he₀
  cases hread : readEntry entries e₀.object e₀.fieldIndex with
  | some v =>
    simp only [hread, hentry] at hslot
    exact hslot
  | none =>
    simp only [hread, hwidth] at hslot
    rw [haddress]
    exact load64_congr fun i hi => hslot _ (Nat.le_add_right _ i) (Nat.add_lt_add_left hi _)

/-- A byte holds the low byte of what the log answers for it, or what it held. -/
theorem installed_byte (hs : Separate live) (hslots : ∀ e ∈ entries, SlotIn h live e)
    {e₀ : LogEntry} (he₀ : SlotIn h live e₀) (hbyte : IsByteEntry e₀) :
    entries.foldl commitEntry h.mem
        (wrap64 (objFieldAddr e₀.object.toNat 0 + (e₀.fieldIndex &&& ~~~byteFieldMarker).toNat))
      = ((readEntry entries e₀.object e₀.fieldIndex).map untagSmallintByte).getD
          (h.mem (wrap64 (objFieldAddr e₀.object.toNat 0
            + (e₀.fieldIndex &&& ~~~byteFieldMarker).toNat))) := by
  have hentry : ∀ v, entryWrite { e₀ with value := v } = .byte e₀.object.toNat
      (e₀.fieldIndex &&& ~~~byteFieldMarker).toNat (untagSmallintByte v) :=
    fun v => if_pos hbyte
  have haddress : wrap64 (objFieldAddr e₀.object.toNat 0
      + (e₀.fieldIndex &&& ~~~byteFieldMarker).toNat) = e₀.object.toNat + entryOffset e₀ := by
    rw [← he₀.address hs]
    unfold entryWrite
    rw [if_pos (show e₀.fieldIndex >>> 63 ≠ 0 from hbyte)]
    rfl
  have hwidth : entryWidth e₀ = 1 := if_pos hbyte
  have hslot := installed_slot hs hslots he₀
  cases hread : readEntry entries e₀.object e₀.fieldIndex with
  | some v =>
    simp only [hread, hentry] at hslot
    exact hslot
  | none =>
    simp only [hread, hwidth] at hslot
    rw [haddress]
    exact hslot _ (Nat.le_refl _) (Nat.lt_succ_self _)

/-- What a write leaves in the bytes it covers. -/
theorem heldBy_bytes {w : BodyWrite} {m m' : Mem} (hm : w.HeldBy m) (hm' : w.HeldBy m') {b : Nat}
    (hlo : w.address ≤ b) (hhi : b < w.address + w.size) : m b = m' b := by
  cases w with
  | word object index value =>
    have hsame : load64 m (BodyWrite.word object index value).address
        = load64 m' (BodyWrite.word object index value).address := hm.trans hm'.symm
    obtain ⟨i, rfl⟩ := Nat.exists_eq_add_of_le hlo
    have hi : i < 8 := Nat.lt_of_add_lt_add_left hhi
    have hbyte := congrArg (byteAt · i) hsame
    unfold load64 at hbyte
    simpa only [byteAt_ofBytes _ hi] using hbyte
  | byte object index value =>
    have hb : b = (BodyWrite.byte object index value).address := Nat.le_antisymm (Nat.lt_succ_iff.mp hhi) hlo
    rw [hb]
    exact hm.trans hm'.symm

/-- **Only the order of the entries for one slot counts.** -/
theorem installed_order (hs : Separate live) (hslots : ∀ e ∈ entries, SlotIn h live e)
    {entries' : List LogEntry}
    (hsame : ∀ object fieldIndex,
      entriesFor entries' object fieldIndex = entriesFor entries object fieldIndex) :
    entries'.foldl commitEntry h.mem = entries.foldl commitEntry h.mem := by
  have hmem : ∀ e, e ∈ entries' ↔ e ∈ entries := by
    have hfor : ∀ (l : List LogEntry) (e : LogEntry),
        e ∈ l ↔ e ∈ entriesFor l e.object e.fieldIndex := by
      intro l e
      unfold entriesFor
      simp
    intro e
    rw [hfor entries', hsame, ← hfor]
  have hslots' : ∀ e ∈ entries', SlotIn h live e := fun e he => hslots e ((hmem e).mp he)
  funext a
  by_cases hin : ∃ e ∈ entries, e.object.toNat + entryOffset e ≤ a ∧
      a < e.object.toNat + entryOffset e + entryWidth e
  · -- both logs answer the same for the slot
    obtain ⟨e, he, hlo, hhi⟩ := hin
    have hslot := installed_slot hs hslots (hslots e he)
    have hslot' := installed_slot hs hslots' (hslots e he)
    have hread : readEntry entries' e.object e.fieldIndex
        = readEntry entries e.object e.fieldIndex := by
      rw [readEntry_eq_entriesFor, readEntry_eq_entriesFor, hsame]
    rw [hread] at hslot'
    cases hanswer : readEntry entries e.object e.fieldIndex with
    | none =>
      simp only [hanswer] at hslot hslot'
      rw [hslot a hlo hhi, hslot' a hlo hhi]
    | some v =>
      simp only [hanswer] at hslot hslot'
      have haddress : (entryWrite { e with value := v }).address
          = e.object.toNat + entryOffset e :=
        SlotIn.address hs (e := { e with value := v }) ⟨(hslots e he).object, (hslots e he).format⟩
      have hwidth : (entryWrite { e with value := v }).size = entryWidth e := entryWrite_size _
      exact heldBy_bytes hslot' hslot (by omega) (by omega)
  · -- neither log writes here
    have hout : ∀ e ∈ entries, a < e.object.toNat + entryOffset e ∨
        e.object.toNat + entryOffset e + entryWidth e ≤ a := by
      intro e he
      by_contra hover
      exact hin ⟨e, he, by omega, by omega⟩
    rw [installed_elsewhere hs hslots hout,
      installed_elsewhere hs hslots' fun e he => hout e ((hmem e).mp he)]

end Installed

/-! ## §4. The overlay. -/

/-- The words are an overlay over the heap with these entries. -/
structure IsOverlay (h : Heap) (live : Set Extent) (log : TxnLog) (w : LogWords) : Prop where
  /-- A slot reads as the last write to it. -/
  last : ∀ e, LastWrite log.entries e → txnLogRead w e.object e.fieldIndex = some e.value
  /-- A slot without a write is not found. -/
  absent : ∀ object fieldIndex,
    (∀ e ∈ log.entries, ¬ (e.object = object ∧ e.fieldIndex = fieldIndex)) →
    txnLogRead w object fieldIndex = none
  /-- No key is one for words and one for bytes, and their places do not meet. -/
  keys : ∀ (fieldIndex : UInt64) (index : Nat), ¬ fieldIndex >>> 63 ≠ 0 →
    fieldIndex ≠ byteTxnIndex index
  places : ∀ e e', SlotIn h live e → SlotIn h live e' → ¬ IsByteEntry e → IsByteEntry e' →
    e.object.toNat + entryOffset e + 8 ≤ e'.object.toNat + entryOffset e' ∨
      e'.object.toNat + entryOffset e' + 1 ≤ e.object.toNat + entryOffset e
  /-- After the commit every word and every byte is what the overlay gave. -/
  words : ∀ e, SlotIn h live e → ¬ IsByteEntry e →
    load64 (txnCommitWords w h.mem).1 (wrap64 (objFieldAddr e.object.toNat e.fieldIndex.toNat))
      = (txnLogRead w e.object e.fieldIndex).getD
          (load64 h.mem (wrap64 (objFieldAddr e.object.toNat e.fieldIndex.toNat)))
  bytes : ∀ e, SlotIn h live e → IsByteEntry e →
    (txnCommitWords w h.mem).1
        (wrap64 (objFieldAddr e.object.toNat 0 + (e.fieldIndex &&& ~~~byteFieldMarker).toNat))
      = ((txnLogRead w e.object e.fieldIndex).map untagSmallintByte).getD
          (h.mem (wrap64 (objFieldAddr e.object.toNat 0
            + (e.fieldIndex &&& ~~~byteFieldMarker).toNat)))
  elsewhere : ∀ a, (∀ e ∈ log.entries, a < e.object.toNat + entryOffset e ∨
      e.object.toNat + entryOffset e + entryWidth e ≤ a) →
    (txnCommitWords w h.mem).1 a = h.mem a
  /-- The log is empty then. -/
  emptied : HoldsLog (txnCommitWords w h.mem).2 []
  /-- A log with the same entries for each slot reads and commits alike. -/
  order : ∀ (w₀' : LogWords) (log' : TxnLog),
    (∀ object fieldIndex,
      entriesFor log'.entries object fieldIndex = entriesFor log.entries object fieldIndex) →
    (∀ object fieldIndex,
      txnLogRead (writtenLog w₀' log') object fieldIndex = txnLogRead w object fieldIndex) ∧
    (txnCommitWords (writtenLog w₀' log') h.mem).1 = (txnCommitWords w h.mem).1

/-- **The transaction log is an overlay**, whatever is written to it inside objects. -/
theorem txnLog_overlay {h : Heap} {live : Set Extent} (hs : Separate live) (w₀ : LogWords)
    {log : TxnLog} (hslots : ∀ e ∈ log.entries, SlotIn h live e) :
    IsOverlay h live log (writtenLog w₀ log) := by
  have hholds := writtenLog_holds w₀ log
  obtain ⟨hcommit, hempty⟩ := hholds.commit h.mem
  constructor
  · intro e he
    rw [hholds.read]
    exact readEntry_last he
  · intro object fieldIndex hnone
    rw [hholds.read]
    exact readEntry_absent hnone
  · exact fun fieldIndex index hword => ne_byteTxnIndex hword index
  · intro e e' he he' hword hbyte
    have hapart := he'.apart hs he fun hsame => by
      unfold IsByteEntry at hword hbyte
      rw [hsame.2] at hword
      exact hword hbyte
    unfold entryWidth at hapart
    rwa [if_neg hword, if_pos hbyte] at hapart
  · intro e he hword
    rw [hcommit, hholds.read]
    exact installed_word hs hslots he hword
  · intro e he hbyte
    rw [hcommit, hholds.read]
    exact installed_byte hs hslots he hbyte
  · intro a ha
    rw [hcommit]
    exact installed_elsewhere hs hslots ha
  · exact hempty
  · intro w₀' log' hsame
    have hholds' := writtenLog_holds w₀' log'
    refine ⟨fun object fieldIndex => ?_, ?_⟩
    · rw [hholds'.read, hholds.read, readEntry_eq_entriesFor, readEntry_eq_entriesFor, hsame]
    · rw [hcommit, (hholds'.commit h.mem).1]
      exact installed_order hs hslots hsame

/-- An object of two fields at 65536. -/
def twoFields : Heap where
  om := omInit 65536 4096
  mem := store64 (fun _ => 0) 65552 2

/-- The first field is written twice. -/
def rewritten : TxnLog where
  entries := [⟨65536, 0, 5⟩, ⟨65536, 1, 9⟩, ⟨65536, 0, 13⟩]
  inMemory := by decide

theorem rewritten_overlay :
    IsOverlay twoFields {⟨65536, 40⟩} rewritten (writtenLog (fun _ => 0) rewritten) := by
  refine txnLog_overlay ⟨?_, ?_⟩ _ ?_
  · rintro e rfl e' rfl a - -
    rfl
  · rintro e rfl
    decide
  · have hformat : objFormat twoFields.mem 65536 ≠ formatBytes := by decide +kernel
    intro e he
    simp only [rewritten, List.mem_cons, List.not_mem_nil, or_false] at he
    rcases he with rfl | rfl | rfl
    · exact ⟨⟨_, rfl, rfl, by decide⟩, iff_of_false (by decide) hformat⟩
    · exact ⟨⟨_, rfl, rfl, by decide⟩, iff_of_false (by decide) hformat⟩
    · exact ⟨⟨_, rfl, rfl, by decide⟩, iff_of_false (by decide) hformat⟩

end LivingObjects.Txn
