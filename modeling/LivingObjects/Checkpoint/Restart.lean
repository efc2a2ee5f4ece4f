/-
  LivingObjects.Checkpoint.Restart — loading a checkpoint file.

  The restart half of `try_image_primitive`: read and test the header and the
  tables, copy the pages into fresh memory at `base`, turn the offsets in the
  copied objects back into pointers, and replay the durable log.  The lookup of
  the asked-for global in the loaded heap comes after all of this and is not
  part of the model; nor is the unpaged format (`page_count` 0), which the
  checkpoint primitive never writes.
-/
import LivingObjects.Checkpoint.Serialize
import LivingObjects.Journal.Replay

namespace LivingObjects.Checkpoint

open LivingObjects.Lib
open LivingObjects.VM
open LivingObjects.ObjectMemory
open LivingObjects.Journal

/-! ## §1. Relocation. -/

/-- `convert_slot_offset_to_pointer` on the word at `a`. -/
def convertSlotOffsetToPointer (m : Mem) (a heapBase heapUsed : Nat) : Mem :=
  let value := load64 m a
  if isObjectPtr value = false then m
  else if value.toNat < 8 ∨ heapUsed < value.toNat then m
  else store64 m a (UInt64.ofNat (value.toNat - 8 + heapBase))

/-- The address `base + (offset - 8)` of an encoded page object; 0 is `NULL`. -/
def imageObject (base : Nat) (encoded : UInt64) : Nat :=
  if encoded = 0 then 0 else wrap64 (base + encoded.toNat + (2 ^ 64 - 8))

/-- `(uint64_t)current - (uint64_t)image_copy`. -/
def imageOffset (base current : Nat) : Nat := wrap64 (current + 2 ^ 64 - base)

section Relocate

variable (base usedSize : Nat) (t : PageTables) (pageCount : Nat)

/-- The class word and the slots of one loaded object. -/
def relocateObject (m : Mem) (current : Nat) : Mem :=
  let slotCount := objectSlotCount m current
  let m := convertSlotOffsetToPointer m current base usedSize
  if objFormat m current ≠ formatBytes then
    (List.range slotCount).foldl (fun m slot =>
      convertSlotOffsetToPointer m (wrap64 (objFieldAddr current slot)) base usedSize) m
  else m

/-- The object behind `current`, by the tables of the file. -/
def followingImageObject (m : Mem) (current : Nat) : Nat :=
  let next := wrap64 (current + omObjectBytes m current)
  if base + usedSize ≤ next then 0
  else
    let nextPage := imageOffset base next / pageBytes
    if wrap64 (next + 2 ^ 64 - (base + nextPage * pageBytes)) < (t.used.getD nextPage 0).toNat then
      next
    else
      match (List.range pageCount).find? (fun q => nextPage < q && t.first.getD q 0 != 0) with
      | some q => imageObject base (t.first.getD q 0)
      | none => 0

/-- The next object of the walk; one outside the image ends it. -/
def nextImageObject (m : Mem) (current : Nat) : Nat :=
  let next := followingImageObject base usedSize t pageCount m current
  if next ≠ 0 ∧ usedSize ≤ imageOffset base next then 0 else next

/-- The walk of one page; with the fuel spent it has not come to an end. -/
def relocateFrom (pageEndOffset : Nat) : Nat → Nat → Mem → Option Mem
  | 0, _, _ => none
  | fuel + 1, current, m =>
    if current = 0 ∨ usedSize ≤ imageOffset base current
        ∨ pageEndOffset ≤ imageOffset base current then some m
    else
      let m := relocateObject base usedSize m current
      relocateFrom pageEndOffset fuel (nextImageObject base usedSize t pageCount m current) m

/-- The page loop. -/
def relocatePages : Nat → Nat → Mem → Option Mem
  | 0, _, m => some m
  | remaining + 1, pageId, m =>
    if usedSize ≤ pageId * pageBytes then some m
    else do
      let m ← relocateFrom base usedSize t pageCount
        (wrap64 (pageId * pageBytes + (t.used.getD pageId 0).toNat)) (usedSize + 1)
        (imageObject base (t.covering.getD pageId 0)) m
      relocatePages remaining (pageId + 1) m

end Relocate

/-- `image_offsets_to_live_pointers_paged`. -/
def imageOffsetsToLivePointersPaged (base usedSize : Nat) (t : PageTables) (pageCount : Nat)
    (m : Mem) : Option Mem :=
  relocatePages base usedSize t pageCount pageCount 0 m

/-! ## §2. Loading. -/

/-- The page loop of the restart, along the state and checksum tables. -/
def loadPages (base usedSize : Nat) :
    Nat → List UInt64 → List UInt64 → List UInt8 → Mem → Option Mem
  | pageId, state :: states, checksum :: checksums, file, m =>
    if file.length < pageBytes then none
    else
      let page := file.take pageBytes
      if checkpointPageChecksum page ≠ checksum then none
      else
        let pageLiveBytes := checkpointPageLiveBytes usedSize pageId
        let m :=
          if state ≠ PageState.free.word ∧ 0 < pageLiveBytes then
            putBytes m (base + pageId * pageBytes) (page.take pageLiveBytes)
          else m
        loadPages base usedSize (pageId + 1) states checksums (file.drop pageBytes) m
  | _, _, _, _, m => some m

/-- A loaded image: its header and the memory it lies in from `base` on. -/
structure LoadedImage where
  header : CheckpointHeader
  mem : Mem

/-- The restart primitive up to the replay: load and relocate. -/
def loadCheckpoint (base : Nat) (file : Option (List UInt8)) (m : Mem) : Option LoadedImage := do
  let file ← file
  let (header, file) ← readHeader file
  let (t, file) ← checkpointLoadPageTables header.pageCount.toNat file
  if checkpointHeaderIsValid header t = false ∨ header.pageCount = 0 then none
  else
    let m ← loadPages base header.usedSize.toNat 0 t.state t.checksum file m
    let m ← imageOffsetsToLivePointersPaged base header.usedSize.toNat t header.pageCount.toNat m
    return { header := header, mem := m }

/-- The restart primitive: load the checkpoint and replay the durable log on it;
`none` is failure. -/
def restart (base : Nat) (checkpoint journal : Option (List UInt8)) (s : ReplayHeap) :
    Option ReplayHeap := do
  let image ← loadCheckpoint base checkpoint s.mem
  match txnLogReplay base image.header.usedSize.toNat journal { s with mem := image.mem } with
  | (true, s) => some s
  | (false, _) => none

/-! ## §3. What loading puts in memory. -/

theorem putBytes_of_mem (m : Mem) {a i : Nat} (bs : List UInt8) (hi : i < bs.length) :
    putBytes m a bs (a + i) = bs.getD i 0 := by
  unfold putBytes
  rw [if_pos ⟨by omega, by omega⟩, Nat.add_sub_cancel_left]

theorem putBytes_of_out (m : Mem) {a b : Nat} (bs : List UInt8) (h : b < a ∨ a + bs.length ≤ b) :
    putBytes m a bs b = m b := by
  unfold putBytes
  rw [if_neg (by omega)]

/-- Loading pages whose checksums are right succeeds and copies the live bytes of
every page in use. -/
theorem loadPages_some (base usedSize : Nat) (states : List UInt64) (pages : List (List UInt8))
    (hstates : states.length = pages.length) (hpages : ∀ page ∈ pages, page.length = pageBytes) :
    ∀ (pageId : Nat) (m : Mem), ∃ m',
      loadPages base usedSize pageId states (pages.map checkpointPageChecksum) pages.flatten m
        = some m' ∧
      (∀ a, a < base + pageId * pageBytes → m' a = m a) ∧
      ∀ k, (hk : k < pages.length) → states.getD k 0 ≠ PageState.free.word → ∀ i,
        i < checkpointPageLiveBytes usedSize (pageId + k) →
        m' (base + (pageId + k) * pageBytes + i) = pages[k].getD i 0 := by
  induction pages generalizing states with
  | nil =>
    intro pageId m
    refine ⟨m, ?_, fun _ _ => rfl, fun k hk => absurd hk (Nat.not_lt_zero k)⟩
    rw [List.length_eq_zero_iff.mp hstates]
    rfl
  | cons page pages ih =>
    intro pageId m
    rcases states with _ | ⟨state, states⟩
    · exact absurd hstates (by simp)
    have hpage := hpages page List.mem_cons_self
    have htake : (page ++ pages.flatten).take pageBytes = page := List.take_left' hpage
    have hdrop : (page ++ pages.flatten).drop pageBytes = pages.flatten := List.drop_left' hpage
    have hle := checkpointPageLiveBytes_le usedSize pageId
    have hlive : (page.take (checkpointPageLiveBytes usedSize pageId)).length
        = checkpointPageLiveBytes usedSize pageId := by
      rw [List.length_take]
      omega
    obtain ⟨m', hload, hbelow, habove⟩ := ih states (by simpa using hstates)
      (fun p hp => hpages p (List.mem_cons_of_mem page hp)) (pageId + 1)
      (if state ≠ PageState.free.word ∧ 0 < checkpointPageLiveBytes usedSize pageId then
        putBytes m (base + pageId * pageBytes) (page.take (checkpointPageLiveBytes usedSize pageId))
      else m)
    have hup : (pageId + 1) * pageBytes = pageId * pageBytes + pageBytes := Nat.succ_mul _ _
    refine ⟨m', ?_, fun a ha => ?_, ?_⟩
    · rw [List.map_cons, List.flatten_cons, loadPages, htake, hdrop, List.length_append, hpage,
          if_neg (by omega), if_neg (by simp)]
      exact hload
    · rw [hbelow a (by omega)]
      split
      · exact putBytes_of_out m _ (.inl ha)
      · rfl
    · intro k hk hstate i hi
      rcases k with _ | k
      · -- the bytes of this page, below everything loaded later
        simp only [Nat.add_zero] at hi ⊢
        rw [hbelow _ (by omega), if_pos ⟨by simpa using hstate, by omega⟩,
            putBytes_of_mem _ _ (by omega)]
        simp [List.getD, hi]
      · have hlater := habove k (by simpa using hk) (by simpa using hstate) i
          (by rw [show pageId + 1 + k = pageId + (k + 1) by omega]; exact hi)
        rw [show pageId + 1 + k = pageId + (k + 1) by omega] at hlater
        exact hlater

end LivingObjects.Checkpoint
