/-
  LivingObjects.Checkpoint.Format — the checkpoint file and its validator.

  `checkpoint.c`: an eleven-word header, five tables of one word a page (state,
  used bytes, first object, covering object, page checksum) and the pages.  The
  header carries a checksum of itself and the tables.  `checkpointHeaderIsValid`
  and `imageCheckpointValidate` are the two tests; `imageCheckpointValidate_bytes`
  says what the second one amounts to on a file laid out part by part.
-/
import LivingObjects.Lib.WordBytes
import LivingObjects.Lib.Fnv
import LivingObjects.ObjectMemory.Pages

namespace LivingObjects.Checkpoint

open LivingObjects.Lib
open LivingObjects.VM
open LivingObjects.ObjectMemory

/-! ## §1. Header and tables. -/

/-- `ImageCheckpointHeader`. -/
structure CheckpointHeader where
  magic : UInt64
  usedSize : UInt64
  pageBytes : UInt64
  pageCount : UInt64
  generation : UInt64
  symbolTableOffset : UInt64
  symbolClassOffset : UInt64
  contextClassOffset : UInt64
  smalltalkDictOffset : UInt64
  classTableOffset : UInt64
  metadataChecksum : UInt64
  deriving DecidableEq, Repr

/-- `IMAGE_CHECKPOINT_MAGIC`. -/
def imageCheckpointMagic : UInt64 := 0x41524c4f494d4731

/-- The header's words in file order. -/
def CheckpointHeader.words (h : CheckpointHeader) : List UInt64 :=
  [h.magic, h.usedSize, h.pageBytes, h.pageCount, h.generation, h.symbolTableOffset,
    h.symbolClassOffset, h.contextClassOffset, h.smalltalkDictOffset, h.classTableOffset,
    h.metadataChecksum]

/-- The header with these words. -/
def CheckpointHeader.ofWords (ws : List UInt64) : CheckpointHeader where
  magic := ws.getD 0 0
  usedSize := ws.getD 1 0
  pageBytes := ws.getD 2 0
  pageCount := ws.getD 3 0
  generation := ws.getD 4 0
  symbolTableOffset := ws.getD 5 0
  symbolClassOffset := ws.getD 6 0
  contextClassOffset := ws.getD 7 0
  smalltalkDictOffset := ws.getD 8 0
  classTableOffset := ws.getD 9 0
  metadataChecksum := ws.getD 10 0

/-- The five page tables. -/
structure PageTables where
  state : List UInt64
  used : List UInt64
  first : List UInt64
  covering : List UInt64
  checksum : List UInt64
  deriving DecidableEq, Repr

/-! ## §2. Checksums and validity. -/

/-- `checkpoint_hash_bytes`. -/
def checkpointHashBytes (hash : UInt64) (bytes : List UInt8) : UInt64 :=
  fnvFold hash (bytes.map UInt8.toUInt64)

/-- `checkpoint_page_checksum`. -/
def checkpointPageChecksum (bytes : List UInt8) : UInt64 :=
  checkpointHashBytes fnvOffset bytes

/-- `checkpoint_metadata_checksum`. -/
def checkpointMetadataChecksum (header : CheckpointHeader) (t : PageTables) : UInt64 :=
  let hash := checkpointHashBytes fnvOffset
    (wordsBytes { header with metadataChecksum := 0 }.words)
  if header.pageCount ≠ 0 then
    let hash := checkpointHashBytes hash (wordsBytes t.state)
    let hash := checkpointHashBytes hash (wordsBytes t.used)
    let hash := checkpointHashBytes hash (wordsBytes t.first)
    let hash := checkpointHashBytes hash (wordsBytes t.covering)
    checkpointHashBytes hash (wordsBytes t.checksum)
  else hash

/-- The loop body of `checkpoint_header_is_valid`: a known state, and nothing
recorded for a free page. -/
def pageEntryIsValid (t : PageTables) (pageId : Nat) : Bool :=
  let state := t.state.getD pageId 0
  (state == PageState.free.word || state == PageState.head.word
      || state == PageState.continuation.word)
    && !(state == PageState.free.word
      && (t.used.getD pageId 0 != 0 || t.first.getD pageId 0 != 0 || t.covering.getD pageId 0 != 0))

/-- `checkpoint_header_is_valid`. -/
def checkpointHeaderIsValid (header : CheckpointHeader) (t : PageTables) : Bool :=
  if header.magic ≠ imageCheckpointMagic
      ∨ (header.pageBytes ≠ 0 ∧ header.pageBytes ≠ UInt64.ofNat pageBytes) then false
  else if (List.range header.pageCount.toNat).all (pageEntryIsValid t) = false then false
  else header.metadataChecksum == checkpointMetadataChecksum header t

/-! ## §3. Reading a file. -/

/-- `fread` of the header. -/
def readHeader (file : List UInt8) : Option (CheckpointHeader × List UInt8) :=
  if file.length < 88 then none
  else some (CheckpointHeader.ofWords (takeWords 11 file), file.drop 88)

/-- `fread` of one table. -/
def readTable (pageCount : Nat) (file : List UInt8) : Option (List UInt64 × List UInt8) :=
  if file.length < 8 * pageCount then none
  else some (takeWords pageCount file, file.drop (8 * pageCount))

/-- `checkpoint_load_page_tables`. -/
def checkpointLoadPageTables (pageCount : Nat) (file : List UInt8) :
    Option (PageTables × List UInt8) := do
  let (state, file) ← readTable pageCount file
  let (used, file) ← readTable pageCount file
  let (first, file) ← readTable pageCount file
  let (covering, file) ← readTable pageCount file
  let (checksum, file) ← readTable pageCount file
  return (⟨state, used, first, covering, checksum⟩, file)

/-- The page loop of the validator, along the checksum table; free pages are
checked like the others. -/
def checkPages : List UInt64 → List UInt8 → Bool
  | [], _ => true
  | checksum :: checksums, file =>
    if file.length < pageBytes then false
    else if checkpointPageChecksum (file.take pageBytes) ≠ checksum then false
    else checkPages checksums (file.drop pageBytes)

/-- `image_checkpoint_validate`; `none` is an absent file. -/
def imageCheckpointValidate (file : Option (List UInt8)) : Bool :=
  match file with
  | none => false
  | some file =>
    match readHeader file with
    | none => false
    | some (header, file) =>
      match checkpointLoadPageTables header.pageCount.toNat file with
      | none => false
      | some (t, file) =>
        if checkpointHeaderIsValid header t = false then false
        else checkPages t.checksum file

/-! ## §4. Files part by part. -/

/-- A checkpoint file in its parts. -/
structure CheckpointFile where
  header : CheckpointHeader
  tables : PageTables
  pages : List (List UInt8)

/-- The file's bytes. -/
def CheckpointFile.bytes (f : CheckpointFile) : List UInt8 :=
  wordsBytes f.header.words
    ++ (wordsBytes f.tables.state ++ (wordsBytes f.tables.used ++ (wordsBytes f.tables.first
      ++ (wordsBytes f.tables.covering ++ (wordsBytes f.tables.checksum ++ f.pages.flatten)))))

/-- The parts fit together. -/
structure CheckpointFile.WellFormed (f : CheckpointFile) : Prop where
  pageCount : f.header.pageCount.toNat = f.pages.length
  state : f.tables.state.length = f.pages.length
  used : f.tables.used.length = f.pages.length
  first : f.tables.first.length = f.pages.length
  covering : f.tables.covering.length = f.pages.length
  checksum : f.tables.checksum.length = f.pages.length
  pages : ∀ page ∈ f.pages, page.length = pageBytes

theorem readHeader_words (h : CheckpointHeader) (rest : List UInt8) :
    readHeader (wordsBytes h.words ++ rest) = some (h, rest) := by
  have hlen : (wordsBytes h.words).length = 88 := by
    rw [wordsBytes_length]
    rfl
  have htake : takeWords 11 (wordsBytes h.words ++ rest) = h.words :=
    takeWords_wordsBytes h.words rest
  unfold readHeader
  rw [List.length_append, hlen, if_neg (by omega), htake, List.drop_left' hlen]
  rfl

theorem readTable_words {pageCount : Nat} (ws : List UInt64) (hlen : ws.length = pageCount)
    (rest : List UInt8) : readTable pageCount (wordsBytes ws ++ rest) = some (ws, rest) := by
  subst hlen
  unfold readTable
  rw [List.length_append, wordsBytes_length, if_neg (by omega), takeWords_wordsBytes,
      List.drop_left' (wordsBytes_length ws)]

/-- Reading the parts back. -/
theorem CheckpointFile.WellFormed.read {f : CheckpointFile} (wf : f.WellFormed) :
    ∃ rest, readHeader f.bytes = some (f.header, rest) ∧
      checkpointLoadPageTables f.header.pageCount.toNat rest
        = some (f.tables, f.pages.flatten) := by
  have hcount := wf.pageCount
  refine ⟨_, readHeader_words f.header _, ?_⟩
  unfold checkpointLoadPageTables
  rw [readTable_words _ (by rw [wf.state, hcount])]
  simp only [Option.bind_eq_bind, Option.bind_some]
  rw [readTable_words _ (by rw [wf.used, hcount])]
  simp only [Option.bind_some]
  rw [readTable_words _ (by rw [wf.first, hcount])]
  simp only [Option.bind_some]
  rw [readTable_words _ (by rw [wf.covering, hcount])]
  simp only [Option.bind_some]
  rw [readTable_words _ (by rw [wf.checksum, hcount])]
  rfl

/-- The page loop accepts exactly the checksums of the pages. -/
theorem checkPages_flatten (checksums : List UInt64) (pages : List (List UInt8))
    (hlen : checksums.length = pages.length) (hpages : ∀ page ∈ pages, page.length = pageBytes) :
    checkPages checksums pages.flatten = true ↔ checksums = pages.map checkpointPageChecksum := by
  induction pages generalizing checksums with
  | nil =>
    rw [List.length_nil] at hlen
    rw [List.length_eq_zero_iff.mp hlen]
    exact ⟨fun _ => rfl, fun _ => rfl⟩
  | cons page pages ih =>
    rcases checksums with _ | ⟨c, cs⟩
    · exact absurd hlen (by simp)
    have hpage := hpages page List.mem_cons_self
    have htake : (page ++ pages.flatten).take pageBytes = page := List.take_left' hpage
    have hdrop : (page ++ pages.flatten).drop pageBytes = pages.flatten := List.drop_left' hpage
    have hrest := ih cs (by simpa using hlen) (fun p hp => hpages p (List.mem_cons_of_mem page hp))
    rw [List.flatten_cons, checkPages, htake, hdrop, List.length_append, hpage, if_neg (by omega),
        List.map_cons, List.cons_eq_cons]
    by_cases hc : checkpointPageChecksum page = c
    · rw [if_neg (by simpa using hc), hrest]
      exact ⟨fun h => ⟨hc.symm, h⟩, fun h => h.2⟩
    · rw [if_pos hc]
      exact ⟨fun h => absurd h (by decide), fun h => absurd h.1.symm hc⟩

/-- **The validator on a well-formed file**: the header test, and every page has
its checksum. -/
theorem imageCheckpointValidate_bytes {f : CheckpointFile} (wf : f.WellFormed) :
    imageCheckpointValidate (some f.bytes) = true ↔
      checkpointHeaderIsValid f.header f.tables = true ∧
        f.tables.checksum = f.pages.map checkpointPageChecksum := by
  obtain ⟨rest, hheader, htables⟩ := wf.read
  unfold imageCheckpointValidate
  simp only [hheader, htables]
  rw [← checkPages_flatten _ _ wf.checksum wf.pages]
  by_cases hvalid : checkpointHeaderIsValid f.header f.tables = true
  · rw [if_neg (by simp [hvalid])]
    exact ⟨fun h => ⟨hvalid, h⟩, fun h => h.2⟩
  · rw [if_pos (by simpa using hvalid)]
    exact ⟨fun h => absurd h (by decide), fun h => absurd h.1 hvalid⟩

end LivingObjects.Checkpoint
