/-
  LivingObjects.Journal.Relocate — what replaying one frame does to the heap.

  A journaled entry names its object and its value by their offset from the
  heap that logged them.  Replayed into another heap it is the same entry with
  both moved (`relocateEntry`), stored the way a commit stores it
  (`installEntry`).  `replayEntries_bodyWords` says so for a whole frame, and
  says when a frame cannot be replayed.
-/
import LivingObjects.Journal.Replay

namespace LivingObjects.Journal

open LivingObjects.Lib
open LivingObjects.VM
open LivingObjects.ObjectMemory

/-! ## §1. Heaps and relocation. -/

/-- The address range of a heap: a word-aligned buffer inside the address space,
not at its very start. -/
structure HeapRange where
  start : Nat
  limit : Nat
  nonNull : 0 < start
  aligned : start % 8 = 0
  ordered : start ≤ limit
  inMemory : limit < 2 ^ 64

/-- The bytes of a heap range. -/
def HeapRange.used (heap : HeapRange) : Nat := heap.limit - heap.start

/-- A reference into one heap, moved to another. -/
def relocateValue (live : HeapRange) (heapStart : Nat) (value : Oop) : Oop :=
  if isObjectPtr value ∧ live.start ≤ value.toNat ∧ value.toNat < live.limit then
    UInt64.ofNat (heapStart + (value.toNat - live.start))
  else value

/-- An entry logged in one heap, moved to another. -/
def relocateEntry (live : HeapRange) (heapStart : Nat) (e : LogEntry) : LogEntry :=
  { object := UInt64.ofNat (heapStart + (e.object.toNat - live.start))
    fieldIndex := e.fieldIndex
    value := relocateValue live heapStart e.value }

/-- What the replay makes of an entry: the object moved, the value as the restored
heap decodes it. -/
def restoredEntry (live : HeapRange) (heapStart heapUsed : Nat) (e : LogEntry) : LogEntry :=
  { object := UInt64.ofNat (heapStart + (e.object.toNat - live.start))
    fieldIndex := e.fieldIndex
    value := decodeDurableLogValue (encodeDurableLogValue e.value live.start live.limit)
      heapStart heapUsed }

/-- Commit an entry and mark the page it touches. -/
def installEntry (s : ReplayHeap) (e : LogEntry) : ReplayHeap :=
  { mem := commitEntry s.mem e
    oms := markRegistered s.oms e.object.toNat (fun om =>
      if e.fieldIndex >>> 63 ≠ 0 then
        omMarkByteDirty om e.object.toNat (e.fieldIndex &&& ~~~byteFieldMarker).toNat
      else omMarkFieldDirty om e.object.toNat e.fieldIndex.toNat) }

/-- Install every entry of a log, moved to another heap. -/
def installLog (live : HeapRange) (heapStart : Nat) (s : ReplayHeap) (log : TxnLog) : ReplayHeap :=
  (log.entries.map (relocateEntry live heapStart)).foldl installEntry s

/-- A value whose encoding the restored heap can decode: not a reference, the
null word, or a reference to an object inside the restored range. -/
def Decodable (live restored : HeapRange) (value : Oop) : Prop :=
  isObjectPtr value = true → value ≠ 0 →
    live.start ≤ value.toNat ∧ value.toNat < live.limit ∧
      value.toNat - live.start + 8 ≤ restored.used

/-- The logged object lies inside the restored range, and so does the one its
value refers to. -/
structure Restorable (live restored : HeapRange) (e : LogEntry) : Prop where
  object : e.object.toNat - live.start < restored.used
  value : Decodable live restored e.value

/-! ## §2. One entry. -/

/-- Encoding in one heap and decoding in another is relocation. -/
theorem decode_encode (live restored : HeapRange) {value : Oop}
    (h : Decodable live restored value) :
    decodeDurableLogValue (encodeDurableLogValue value live.start live.limit)
        restored.start restored.used
      = relocateValue live restored.start value := by
  unfold encodeDurableLogValue relocateValue
  by_cases href : isObjectPtr value = true ∧ live.start ≤ value.toNat ∧ value.toNat < live.limit
  · obtain ⟨hptr, hlo, hhi⟩ := href
    have htag := (isObjectPtr_iff value).mp hptr
    have haligned := live.aligned
    have hnonnull := live.nonNull
    have hlimit := live.inMemory
    have hne : value ≠ 0 := by
      rintro rfl
      simp only [UInt64.toNat_zero] at hlo
      omega
    obtain ⟨-, -, hused⟩ := h hptr hne
    have hword : (UInt64.ofNat (value.toNat - live.start + 8)).toNat
        = value.toNat - live.start + 8 :=
      UInt64.toNat_ofNat_of_lt' (by simp only [UInt64.size]; omega)
    have hencptr : isObjectPtr (UInt64.ofNat (value.toNat - live.start + 8)) = true := by
      rw [isObjectPtr_iff, hword]
      omega
    rw [if_pos ⟨hptr, hlo, hhi⟩, if_pos ⟨hptr, hlo, hhi⟩]
    unfold decodeDurableLogValue
    rw [hword, if_pos ⟨hencptr, by omega, by omega⟩, Nat.add_sub_cancel]
  · rw [if_neg href, if_neg href]
    unfold decodeDurableLogValue
    rw [if_neg]
    rintro ⟨hptr, h8, hused⟩
    have hne : value ≠ 0 := by
      rintro rfl
      simp at h8
    obtain ⟨hlo, hhi, -⟩ := h hptr hne
    exact href ⟨hptr, hlo, hhi⟩

/-- A restorable entry is restored relocated. -/
theorem restoredEntry_restorable (live restored : HeapRange) {e : LogEntry}
    (h : Restorable live restored e) :
    restoredEntry live restored.start restored.used e = relocateEntry live restored.start e := by
  unfold restoredEntry relocateEntry
  rw [decode_encode live restored h.value]

/-- Replaying the words of an entry whose object lies in the restored range
installs it. -/
theorem replayEntry_within (live restored : HeapRange) {e : LogEntry}
    (hobj : e.object.toNat - live.start < restored.used) (s : ReplayHeap) :
    replayEntry restored.start restored.used (UInt64.ofNat (e.object.toNat - live.start))
        e.fieldIndex (encodeDurableLogValue e.value live.start live.limit) s
      = (true, installEntry s (restoredEntry live restored.start restored.used e)) := by
  have hrange : e.object.toNat < 2 ^ 64 := e.object.toNat_lt
  have hroom : restored.start + restored.used = restored.limit := by
    have := restored.ordered
    unfold HeapRange.used
    omega
  have hlimit := restored.inMemory
  have hoff : (UInt64.ofNat (e.object.toNat - live.start)).toNat = e.object.toNat - live.start :=
    UInt64.toNat_ofNat_of_lt' (by simp only [UInt64.size]; omega)
  have hnew : (UInt64.ofNat (restored.start + (e.object.toNat - live.start))).toNat
      = restored.start + (e.object.toNat - live.start) :=
    UInt64.toNat_ofNat_of_lt' (by simp only [UInt64.size]; omega)
  have hwrap : wrap64 (restored.start + (e.object.toNat - live.start))
      = restored.start + (e.object.toNat - live.start) := wrap64_of_lt (by omega)
  unfold replayEntry installEntry commitEntry restoredEntry
  simp only [hoff, hnew, hwrap]
  rw [if_neg (by omega)]
  by_cases hbyte : e.fieldIndex >>> 63 ≠ 0
  · simp only [if_pos hbyte]
  · simp only [if_neg hbyte]

/-- An entry whose object lies beyond the restored range stops the replay. -/
theorem replayEntry_beyond (live : HeapRange) {heapStart heapUsed : Nat} {e : LogEntry}
    (h : heapUsed ≤ e.object.toNat - live.start) (word : UInt64) (s : ReplayHeap) :
    replayEntry heapStart heapUsed (UInt64.ofNat (e.object.toNat - live.start)) e.fieldIndex word s
      = (false, s) := by
  have hrange : e.object.toNat < 2 ^ 64 := e.object.toNat_lt
  have hoff : (UInt64.ofNat (e.object.toNat - live.start)).toNat = e.object.toNat - live.start :=
    UInt64.toNat_ofNat_of_lt' (by simp only [UInt64.size]; omega)
  unfold replayEntry
  simp only
  rw [hoff, if_pos h]

/-! ## §3. One frame. -/

/-- **Replaying a frame** succeeds exactly when every logged object lies in the
restored range, and then installs the entries in order. -/
theorem replayEntries_within (live restored : HeapRange) (log : TxnLog) (s : ReplayHeap) :
    ((replayEntries restored.start restored.used (bodyWords live.start live.limit log) s).1 = true ↔
      ∀ e ∈ log.entries, e.object.toNat - live.start < restored.used) ∧
    ((∀ e ∈ log.entries, e.object.toNat - live.start < restored.used) →
      replayEntries restored.start restored.used (bodyWords live.start live.limit log) s
        = (true, (log.entries.map (restoredEntry live restored.start restored.used)).foldl
            installEntry s)) := by
  unfold bodyWords
  generalize log.entries = entries
  induction entries generalizing s with
  | nil => exact ⟨⟨fun _ e he => absurd he (by simp), fun _ => rfl⟩, fun _ => rfl⟩
  | cons e es ih =>
    rw [List.flatMap_cons]
    simp only [entryWords, List.cons_append, List.nil_append, replayEntries, List.forall_mem_cons]
    by_cases hobj : e.object.toNat - live.start < restored.used
    · simp only [replayEntry_within live restored hobj s, List.map_cons, List.foldl_cons]
      obtain ⟨hok, hall⟩ := ih (installEntry s (restoredEntry live restored.start restored.used e))
      exact ⟨⟨fun h => ⟨hobj, hok.mp h⟩, fun h => hok.mpr h.2⟩, fun h => hall h.2⟩
    · simp only [replayEntry_beyond live (Nat.le_of_not_lt hobj)]
      exact ⟨⟨fun h => absurd h (by decide), fun h => absurd h.1 hobj⟩, fun h => absurd h.1 hobj⟩

/-- Replaying a frame of restorable entries installs them, relocated. -/
theorem replayEntries_bodyWords (live restored : HeapRange) (log : TxnLog)
    (h : ∀ e ∈ log.entries, Restorable live restored e) (s : ReplayHeap) :
    replayEntries restored.start restored.used (bodyWords live.start live.limit log) s
      = (true, installLog live restored.start s log) := by
  rw [(replayEntries_within live restored log s).2 (fun e he => (h e he).object)]
  unfold installLog
  rw [List.map_congr_left (fun e he => restoredEntry_restorable live restored (h e he))]

/-! ## §4. Encoded values. -/

/-- A reference to an object of so many bytes, its header included, that lies wholly in the
heap it is logged in and, moved, in the bytes that are used of the restored one. -/
structure WhollyInside (live restored : HeapRange) (bytes : Nat) (value : Oop) : Prop where
  reference : isObjectPtr value = true
  headed : wordSize * objHeaderWords ≤ bytes
  start : live.start ≤ value.toNat
  logged : value.toNat + bytes ≤ live.limit
  used : value.toNat - live.start + bytes ≤ restored.used

/-- The values a journal is to give back: immediates, null, and references that are inside. -/
def Journaled (live restored : HeapRange) (value : Oop) : Prop :=
  isObjectPtr value = false ∨ value = 0 ∨ ∃ bytes, WhollyInside live restored bytes value

theorem WhollyInside.within {live restored : HeapRange} {bytes : Nat} {value : Oop}
    (h : WhollyInside live restored bytes value) :
    live.start ≤ value.toNat ∧ value.toNat < live.limit ∧
      value.toNat - live.start + 8 ≤ restored.used := by
  have hheaded := h.headed
  have hstart := h.start
  have hlogged := h.logged
  have hused := h.used
  rw [wordSize, objHeaderWords] at hheaded
  omega

theorem Journaled.decodable {live restored : HeapRange} {value : Oop}
    (h : Journaled live restored value) : Decodable live restored value := by
  intro hptr hne
  rcases h with himmediate | hnull | ⟨bytes, hinside⟩
  · rw [himmediate] at hptr
    cases hptr
  · exact absurd hnull hne
  · exact hinside.within

theorem relocateValue_null (live : HeapRange) (heapStart : Nat) :
    relocateValue live heapStart 0 = 0 := by
  refine if_neg ?_
  intro ⟨_, hstart, _⟩
  have hnonNull := live.nonNull
  rw [UInt64.toNat_zero] at hstart
  omega

theorem relocateValue_immediate (live : HeapRange) (heapStart : Nat) {value : Oop}
    (h : isObjectPtr value = false) : relocateValue live heapStart value = value := by
  refine if_neg ?_
  intro ⟨hptr, _⟩
  rw [h] at hptr
  cases hptr

theorem relocateValue_inside {live restored : HeapRange} (heapStart : Nat) {bytes : Nat}
    {value : Oop} (h : WhollyInside live restored bytes value) :
    relocateValue live heapStart value = UInt64.ofNat (heapStart + (value.toNat - live.start)) :=
  if_pos ⟨h.reference, h.within.1, h.within.2.1⟩

/-- The word of a reference is never null, and still looks like a reference. -/
theorem encode_inside {live restored : HeapRange} {bytes : Nat} {value : Oop}
    (h : WhollyInside live restored bytes value) :
    (encodeDurableLogValue value live.start live.limit).toNat = value.toNat - live.start + 8
      ∧ isObjectPtr (encodeDurableLogValue value live.start live.limit) = true := by
  obtain ⟨hstart, hlimit, -⟩ := h.within
  have hmemory := live.inMemory
  have hnonNull := live.nonNull
  have haligned := live.aligned
  have htag := (isObjectPtr_iff value).mp h.reference
  have hword : (UInt64.ofNat (value.toNat - live.start + 8)).toNat = value.toNat - live.start + 8 :=
    toNat_ofNat64 (by omega)
  rw [encodeDurableLogValue, if_pos ⟨h.reference, hstart, hlimit⟩]
  refine ⟨hword, ?_⟩
  rw [isObjectPtr_iff, hword]
  omega

theorem encode_immediate (live : HeapRange) {value : Oop} (h : isObjectPtr value = false) :
    encodeDurableLogValue value live.start live.limit = value := by
  refine if_neg ?_
  intro ⟨hptr, _⟩
  rw [h] at hptr
  cases hptr

theorem encode_null (live : HeapRange) : encodeDurableLogValue 0 live.start live.limit = 0 := by
  refine if_neg ?_
  intro ⟨_, hstart, _⟩
  have hnonNull := live.nonNull
  rw [UInt64.toNat_zero] at hstart
  omega

/-- The bias keeps the kinds of values apart, and each kind is encoded one to one. -/
theorem encode_injective {live restored : HeapRange} {value other : Oop}
    (hvalue : Journaled live restored value) (hother : Journaled live restored other)
    (h : encodeDurableLogValue value live.start live.limit
      = encodeDurableLogValue other live.start live.limit) : value = other := by
  rcases hvalue with hv | rfl | ⟨bytes, hv⟩
  · rw [encode_immediate live hv] at h
    rcases hother with ho | rfl | ⟨bytes, ho⟩
    · rwa [encode_immediate live ho] at h
    · rwa [encode_null] at h
    · have hptr := (encode_inside ho).2
      rw [← h, hv] at hptr
      cases hptr
  · rw [encode_null] at h
    rcases hother with ho | rfl | ⟨bytes, ho⟩
    · rwa [encode_immediate live ho] at h
    · rfl
    · have hword := (encode_inside ho).1
      rw [← h, UInt64.toNat_zero] at hword
      omega
  · obtain ⟨hword, hptr⟩ := encode_inside hv
    rcases hother with ho | rfl | ⟨bytes', ho⟩
    · rw [h, encode_immediate live ho, ho] at hptr
      cases hptr
    · rw [h, encode_null, UInt64.toNat_zero] at hword
      omega
    · have hword' := (encode_inside ho).1
      rw [← h, hword] at hword'
      have hstart := hv.start
      have hstart' := ho.start
      exact UInt64.toNat_inj.mp (by omega)

/-- **What a journal says of a value is read back**, wherever the heaps are: an immediate
and null as they were, and a reference to an object that is wholly inside both as the
reference to the same object of the restored heap.  No two of these share a word. -/
theorem durableLogValue_roundTrip (live restored : HeapRange) :
    (∀ value, isObjectPtr value = false →
      decodeDurableLogValue (encodeDurableLogValue value live.start live.limit)
        restored.start restored.used = value)
    ∧ decodeDurableLogValue (encodeDurableLogValue 0 live.start live.limit)
        restored.start restored.used = 0
    ∧ (∀ bytes value, WhollyInside live restored bytes value →
      decodeDurableLogValue (encodeDurableLogValue value live.start live.limit)
          restored.start restored.used
        = UInt64.ofNat (restored.start + (value.toNat - live.start)))
    ∧ ∀ value other, Journaled live restored value → Journaled live restored other →
      encodeDurableLogValue value live.start live.limit
          = encodeDurableLogValue other live.start live.limit → value = other := by
  refine ⟨?_, ?_, ?_, ?_⟩
  · intro value himmediate
    have hjournaled : Journaled live restored value := .inl himmediate
    rw [decode_encode live restored hjournaled.decodable, relocateValue_immediate live _ himmediate]
  · have hjournaled : Journaled live restored 0 := .inr (.inl rfl)
    rw [decode_encode live restored hjournaled.decodable, relocateValue_null]
  · intro bytes value hinside
    have hjournaled : Journaled live restored value := .inr (.inr ⟨bytes, hinside⟩)
    rw [decode_encode live restored hjournaled.decodable, relocateValue_inside _ hinside]
  · intro value other hvalue hother h
    exact encode_injective hvalue hother h

end LivingObjects.Journal
