/-
  LivingObjects.Journal.Idempotent — replaying the durable log a second time.

  What `txn_log_replay` reads of the file does not depend on the heap it writes to: a
  file comes down to a verdict and to the entries that are installed before the replay
  stops, wherever that is.  Every byte a run of entries touches keeps what the last one
  puts there, and every page it marks stays marked, so that a second run over the
  result of the first finds nothing left to change.
-/
import LivingObjects.Journal.Relocate
import LivingObjects.Lib.MemProgram

namespace LivingObjects.Journal

open LivingObjects.Lib
open LivingObjects.VM
open LivingObjects.ObjectMemory

/-! ## §1. The entries of a file. -/

/-- The entry that the words of a body install. -/
def storedEntry (heapStart heapUsed : Nat) (objectOffset fieldIndex word : UInt64) : LogEntry where
  object := UInt64.ofNat (heapStart + objectOffset.toNat)
  fieldIndex := fieldIndex
  value := decodeDurableLogValue word heapStart heapUsed

theorem replayEntry_eq (heapStart heapUsed : Nat) (objectOffset fieldIndex word : UInt64)
    (s : ReplayHeap) :
    replayEntry heapStart heapUsed objectOffset fieldIndex word s
      = if heapUsed ≤ objectOffset.toNat then (false, s)
        else (true, installEntry s (storedEntry heapStart heapUsed objectOffset fieldIndex word)) := by
  have hobject : (UInt64.ofNat (heapStart + objectOffset.toNat)).toNat
      = wrap64 (heapStart + objectOffset.toNat) := UInt64.toNat_ofNat
  unfold replayEntry installEntry commitEntry storedEntry
  simp only [hobject]
  refine if_congr Iff.rfl rfl ?_
  by_cases hbyte : fieldIndex >>> 63 ≠ 0
  · simp only [if_pos hbyte]
  · simp only [if_neg hbyte]

/-- A body installs a run of entries, the same on every heap. -/
theorem replayEntries_events (heapStart heapUsed : Nat) : ∀ body : List UInt64,
    ∃ (ok : Bool) (entries : List LogEntry), ∀ s,
      replayEntries heapStart heapUsed body s = (ok, entries.foldl installEntry s)
  | objectOffset :: fieldIndex :: word :: rest => by
    obtain ⟨ok, entries, hrest⟩ := replayEntries_events heapStart heapUsed rest
    simp only [replayEntries, replayEntry_eq]
    by_cases hbeyond : heapUsed ≤ objectOffset.toNat
    · -- the object lies beyond the used part: nothing more of the file is applied
      exact ⟨false, [], fun s => by simp only [if_pos hbeyond]; rfl⟩
    · refine ⟨ok, storedEntry heapStart heapUsed objectOffset fieldIndex word :: entries,
        fun s => ?_⟩
      simp only [if_neg hbeyond]
      exact hrest _
  | [] => ⟨true, [], fun _ => rfl⟩
  | [_] => ⟨true, [], fun _ => rfl⟩
  | [_, _] => ⟨true, [], fun _ => rfl⟩

/-- **A file installs a run of entries, the same on every heap.** -/
theorem txnLogReplay_events (heapStart heapUsed : Nat) (file : Option (List UInt8)) :
    ∃ (ok : Bool) (entries : List LogEntry), ∀ s,
      txnLogReplay heapStart heapUsed file s = (ok, entries.foldl installEntry s) := by
  cases file with
  | none => exact ⟨true, [], fun _ => rfl⟩
  | some file =>
    obtain ⟨ok, entries, hreplay⟩ : ∃ (ok : Bool) (entries : List LogEntry), ∀ s,
        replayFrames readFrame (replayEntries heapStart heapUsed) (file.length + 1) file s
          = (ok, entries.foldl installEntry s) :=
      replayFrames_events (replayEntries_events heapStart heapUsed) (file.length + 1) file
    refine ⟨ok, entries, fun s => ?_⟩
    rw [txnLogReplay_eq heapStart heapUsed file s (Nat.lt_succ_self _), hreplay]

/-! ## §2. The bytes. -/

theorem commitEntry_settles (e : LogEntry) : Settles (commitEntry · e) := by
  unfold commitEntry
  by_cases hbyte : e.fieldIndex >>> 63 ≠ 0
  · simp only [if_pos hbyte]
    exact settles_store8 _ _
  · simp only [if_neg hbyte]
    exact settles_store64 _ _

theorem installEntries_mem (entries : List LogEntry) (s : ReplayHeap) :
    (entries.foldl installEntry s).mem = entries.foldl commitEntry s.mem := by
  induction entries generalizing s with
  | nil => rfl
  | cons e es ih => exact ih (installEntry s e)

/-! ## §3. The dirty pages. -/

/-- The page tables with these pages dirty too. -/
def raisePages (om : Om) (pages : Nat → Bool) : Om :=
  { om with page := fun i => if pages i then { om.page i with dirty := true } else om.page i }

theorem raisePages_twice (om : Om) (pages : Nat → Bool) :
    raisePages (raisePages om pages) pages = raisePages om pages := by
  unfold raisePages
  simp only [Om.mk.injEq, true_and]
  funext i
  cases pages i <;> rfl

theorem raisePages_comm (om : Om) (pages pages' : Nat → Bool) :
    raisePages (raisePages om pages) pages' = raisePages (raisePages om pages') pages := by
  unfold raisePages
  simp only [Om.mk.injEq, true_and]
  funext i
  cases pages i <;> cases pages' i <;> rfl

/-- The pages that marking a range makes dirty, which only the place of the heap decides. -/
def rangePages (om : Om) (startAddress sizeBytes : Nat) (i : Nat) : Bool :=
  if startAddress = 0 ∨ sizeBytes = 0 then false
  else
    match omPageIdForAddress om startAddress,
        omPageIdForAddress om (wrap64 (startAddress + sizeBytes - 1)) with
    | some startPage, some endPage => startPage ≤ i ∧ i ≤ endPage
    | _, _ => false

theorem omMarkAddressRangeDirty_eq (om : Om) (a n : Nat) :
    omMarkAddressRangeDirty om a n = raisePages om (rangePages om a n) := by
  unfold omMarkAddressRangeDirty rangePages
  by_cases hnone : a = 0 ∨ n = 0
  · simp only [if_pos hnone]
    rfl
  · simp only [if_neg hnone]
    rcases omPageIdForAddress om a with _ | first
    · rfl
    rcases omPageIdForAddress om (wrap64 (a + n - 1)) with _ | last
    · rfl
    unfold Om.raiseDirty raisePages
    simp only [decide_eq_true_eq]

/-- The mark that goes with an entry. -/
def entryMark (e : LogEntry) (om : Om) : Om :=
  if e.fieldIndex >>> 63 ≠ 0 then
    omMarkByteDirty om e.object.toNat (e.fieldIndex &&& ~~~byteFieldMarker).toNat
  else omMarkFieldDirty om e.object.toNat e.fieldIndex.toNat

/-- The pages it makes dirty. -/
def entryPages (e : LogEntry) (om : Om) (i : Nat) : Bool :=
  if e.object.toNat = 0 then false
  else if e.fieldIndex >>> 63 ≠ 0 then
    rangePages om (wrap64 (objFieldAddr e.object.toNat 0
      + (e.fieldIndex &&& ~~~byteFieldMarker).toNat)) 1 i
  else rangePages om (wrap64 (objFieldAddr e.object.toNat e.fieldIndex.toNat)) wordSize i

theorem entryMark_eq (e : LogEntry) (om : Om) : entryMark e om = raisePages om (entryPages e om) := by
  unfold entryMark omMarkByteDirty omMarkFieldDirty entryPages
  by_cases hnull : e.object.toNat = 0
  · simp only [if_pos hnull, ite_self]
    rfl
  · simp only [if_neg hnull, omMarkAddressRangeDirty_eq]
    split <;> rfl

theorem entryMark_twice (e : LogEntry) (om : Om) : entryMark e (entryMark e om) = entryMark e om := by
  rw [entryMark_eq, entryMark_eq]
  exact raisePages_twice om (entryPages e om)

theorem entryMark_comm (e e' : LogEntry) (om : Om) :
    entryMark e' (entryMark e om) = entryMark e (entryMark e' om) := by
  rw [entryMark_eq e om, entryMark_eq e' om, entryMark_eq, entryMark_eq]
  exact raisePages_comm om (entryPages e om) (entryPages e' om)

theorem markRegistered_getElem? (oms : List Om) (address : Nat) (mark : Om → Om) (k : Nat) :
    (markRegistered oms address mark)[k]?
      = oms[k]?.map fun om => if omRegisteredForAddress oms address = some k then mark om else om := by
  unfold markRegistered
  cases omRegisteredForAddress oms address with
  | none => simp
  | some index =>
    simp only [List.getElem?_modify, Option.some.injEq]
    split <;> simp

/-- Marking leaves the registrations as they are. -/
theorem omRegisteredForAddress_mark (oms : List Om) (e : LogEntry) (address : Nat) :
    omRegisteredForAddress (markRegistered oms e.object.toNat (entryMark e)) address
      = omRegisteredForAddress oms address := by
  have hranges : (markRegistered oms e.object.toNat (entryMark e)).map (fun om => (om.start, om.stop))
      = oms.map fun om => (om.start, om.stop) := by
    refine List.ext_getElem? fun k => ?_
    rw [List.getElem?_map, List.getElem?_map, markRegistered_getElem?, Option.map_map]
    refine Option.map_congr fun om _ => ?_
    simp only [Function.comp_apply]
    split
    · rw [entryMark_eq]
      rfl
    · rfl
  have hfind : ∀ l : List Om, omRegisteredForAddress l address
      = (l.map fun om => (om.start, om.stop)).findIdx? fun r => r.1 ≤ address && address < r.2 := by
    intro l
    rw [List.findIdx?_map]
    rfl
  rw [hfind, hranges, ← hfind]

/-! ## §4. Entries installed again. -/

theorem installEntry_oms (s : ReplayHeap) (e : LogEntry) :
    (installEntry s e).oms = markRegistered s.oms e.object.toNat (entryMark e) := rfl

/-- The marks of an entry. -/
def markEntryIn (oms : List Om) (e : LogEntry) : List Om :=
  markRegistered oms e.object.toNat (entryMark e)

theorem installEntries_oms (entries : List LogEntry) (s : ReplayHeap) :
    (entries.foldl installEntry s).oms = entries.foldl markEntryIn s.oms := by
  induction entries generalizing s with
  | nil => rfl
  | cons e es ih => exact ih (installEntry s e)

theorem markEntryIn_twice (oms : List Om) (e : LogEntry) :
    markEntryIn (markEntryIn oms e) e = markEntryIn oms e := by
  unfold markEntryIn
  refine List.ext_getElem? fun k => ?_
  rw [markRegistered_getElem?, omRegisteredForAddress_mark, markRegistered_getElem?,
    Option.map_map]
  refine Option.map_congr fun om _ => ?_
  simp only [Function.comp_apply]
  split
  · exact entryMark_twice e om
  · rfl

theorem markEntryIn_comm (oms : List Om) (e e' : LogEntry) :
    markEntryIn (markEntryIn oms e) e' = markEntryIn (markEntryIn oms e') e := by
  unfold markEntryIn
  refine List.ext_getElem? fun k => ?_
  rw [markRegistered_getElem?, omRegisteredForAddress_mark, markRegistered_getElem?,
    markRegistered_getElem?, omRegisteredForAddress_mark, markRegistered_getElem?,
    Option.map_map, Option.map_map]
  refine Option.map_congr fun om _ => ?_
  simp only [Function.comp_apply]
  split <;> split
  · exact entryMark_comm e e' om
  · rfl
  · rfl
  · rfl

/-- Installing a run of entries again changes nothing. -/
theorem installEntries_twice (entries : List LogEntry) (s : ReplayHeap) :
    entries.foldl installEntry (entries.foldl installEntry s) = entries.foldl installEntry s := by
  have hmem : (entries.foldl installEntry (entries.foldl installEntry s)).mem
      = (entries.foldl installEntry s).mem := by
    rw [installEntries_mem, installEntries_mem]
    exact (settles_foldl commitEntry_settles entries).twice s.mem
  have homs : (entries.foldl installEntry (entries.foldl installEntry s)).oms
      = (entries.foldl installEntry s).oms := by
    rw [installEntries_oms, installEntries_oms]
    exact foldl_twice markEntryIn_twice markEntryIn_comm entries s.oms
  calc entries.foldl installEntry (entries.foldl installEntry s)
      = ⟨(entries.foldl installEntry (entries.foldl installEntry s)).mem,
          (entries.foldl installEntry (entries.foldl installEntry s)).oms⟩ := rfl
    _ = ⟨(entries.foldl installEntry s).mem, (entries.foldl installEntry s).oms⟩ := by
      rw [hmem, homs]

/-- **Recovery is idempotent.**  A second replay of the file gives the result and the heap
of the first one. -/
theorem txnLogReplay_twice (heapStart heapUsed : Nat) (file : Option (List UInt8))
    (s : ReplayHeap) :
    txnLogReplay heapStart heapUsed file (txnLogReplay heapStart heapUsed file s).2
      = txnLogReplay heapStart heapUsed file s := by
  obtain ⟨ok, entries, hreplay⟩ := txnLogReplay_events heapStart heapUsed file
  rw [hreplay s, hreplay, installEntries_twice]

end LivingObjects.Journal
