/-
  LivingObjects.Checkpoint.Incremental — checkpoints that reuse the pages of an older file.

  The checkpoint primitive takes the bytes of a page that is not marked dirty
  from the file already at the path, when that file validates and has as many
  pages, and puts them under the checksum of the page as it is now.  The result
  is a full checkpoint as long as the file is the heap's own last checkpoint and
  every page changed behind the dirty bits since then has been marked dirty by
  something else (`Ready`).  `checkpoints_full` carries that through runs of
  mutations, checkpoints and replacements of the file.
-/
import LivingObjects.Checkpoint.Loadable
import LivingObjects.Checkpoint.Mutations

namespace LivingObjects.Checkpoint

open LivingObjects.Lib
open LivingObjects.VM
open LivingObjects.ObjectMemory
open LivingObjects.Journal

/-! ## §1. Runs. -/

/-- A heap, its checkpoint path, and what happened since its dirty pages were
last cleared. -/
structure VmState where
  heap : Heap
  live : Set Extent
  /-- The file at the path. -/
  disk : Option (List UInt8)
  /-- That file is this heap's last checkpoint. -/
  own : Bool
  /-- Pages changed behind the dirty bits since that checkpoint. -/
  behind : Set Nat

/-- What can happen. -/
inductive Step where
  | mutate (mu : Mutation)
  /-- The checkpoint primitive; `synced` is whether the directory sync after the
  rename succeeds, without it the dirty bits stay. -/
  | checkpoint (roots : ImageRoots) (synced : Bool)
  /-- Another file is put at the path, or the VM goes over to another path. -/
  | replace (file : Option (List UInt8))

/-- One step. -/
def VmState.step (s : VmState) : Step → VmState
  | .mutate mu =>
    { s with
      heap := mu.run s.heap
      live := mu.lives s.heap s.live
      behind := s.behind ∪ mu.behind s.heap }
  | .checkpoint roots synced =>
    match checkpointContents s.heap roots s.disk with
    | none => s
    | some file =>
      { heap := { s.heap with om := if synced then omClearDirtyPages s.heap.om else s.heap.om }
        live := s.live
        disk := some file.bytes
        own := true
        behind := ∅ }
  | .replace file => { s with disk := file, own := false }

/-- A fresh object memory, whatever file is at the path. -/
def VmState.initial (buffer : Buffer) (m : Mem) (disk : Option (List UInt8)) : VmState where
  heap := { om := omInit buffer.addr buffer.size, mem := m }
  live := ∅
  disk := disk
  own := false
  behind := ∅

/-- The page count of a checkpoint taken now. -/
def VmState.pageCount (s : VmState) : Nat :=
  checkpointPageCount (s.heap.om.free - s.heap.om.start)

/-- A checkpoint taken now has no free page, and the file it may take pages from
is the heap's own, with every page changed behind the dirty bits marked dirty. -/
structure VmState.Ready (s : VmState) : Prop where
  noFreePage : ∀ p, p < s.pageCount → (s.heap.om.page p).state ≠ .free
  source : reusableCheckpoint s.disk s.pageCount = none ∨
    (s.own = true ∧ ∀ p ∈ s.behind, p < s.pageCount → (s.heap.om.page p).dirty = true)

/-- The step is one the VM performs. -/
def Step.Legal (s : VmState) : Step → Prop
  | .mutate mu => mu.Legal s.heap s.live
  | .checkpoint _ _ | .replace _ => True

/-- The same, and a checkpoint is taken in a ready state. -/
def Step.Meets (s : VmState) : Step → Prop
  | .checkpoint _ _ => s.Ready
  | step => step.Legal s

/-- The checkpoint has the pages and tables of one written with no earlier file,
and validates. -/
def CheckpointIsFull (h : Heap) (roots : ImageRoots) (disk : Option (List UInt8)) : Prop :=
  ∃ file full, checkpointContents h roots disk = some file ∧
    checkpointContents h roots none = some full ∧
    file.pages = full.pages ∧ file.tables = full.tables ∧
    imageCheckpointValidate (some file.bytes) = true

/-- A checkpoint that finds a nonempty heap is full. -/
def Step.Full (s : VmState) : Step → Prop
  | .checkpoint roots _ =>
    s.heap.om.start < s.heap.om.free → CheckpointIsFull s.heap roots s.disk
  | .mutate _ | .replace _ => True

/-- Something holds of every step of a run, in the state it is taken in. -/
def Along (P : VmState → Step → Prop) : VmState → List Step → Prop
  | _, [] => True
  | s, step :: steps => P s step ∧ Along P (s.step step) steps

/-! ## §2. Pages of a file. -/

theorem flatten_page (pages : List (List UInt8)) (hpages : ∀ page ∈ pages, page.length = pageBytes)
    (p : Nat) (hp : p < pages.length) :
    (pages.flatten.drop (p * pageBytes)).take pageBytes = pages[p] := by
  induction pages generalizing p with
  | nil => exact absurd hp (by simp)
  | cons page pages ih =>
    have hlen := hpages page List.mem_cons_self
    cases p with
    | zero =>
      rw [Nat.zero_mul, List.drop_zero, List.flatten_cons, List.take_left' hlen]
      rfl
    | succ p =>
      have hdrop : (page ++ pages.flatten).drop ((p + 1) * pageBytes)
          = pages.flatten.drop (p * pageBytes) := by
        rw [Nat.succ_mul, Nat.add_comm, ← List.drop_drop, List.drop_left' hlen]
      rw [List.flatten_cons, hdrop]
      exact ih (fun q hq => hpages q (List.mem_cons_of_mem page hq)) p (by simpa using hp)

/-- The bytes at the place of a page. -/
theorem CheckpointFile.WellFormed.page {f : CheckpointFile} (wf : f.WellFormed) {p : Nat}
    (hp : p < f.pages.length) :
    (f.bytes.drop (checkpointPageFileOffset f.pages.length p)).take pageBytes = f.pages[p] := by
  have hheader : (wordsBytes f.header.words).length = 88 := by
    rw [wordsBytes_length]
    rfl
  rw [← flatten_page f.pages wf.pages p hp]
  congr 1
  unfold CheckpointFile.bytes checkpointPageFileOffset
  rw [Nat.add_assoc, ← List.drop_drop, List.drop_left' hheader]
  simp only [← List.append_assoc]
  rw [← List.drop_drop, List.drop_left']
  simp only [List.length_append, wordsBytes_length, wf.state, wf.used, wf.first, wf.covering,
    wf.checksum]
  omega

/-! ## §3. One checkpoint. -/

/-- The file at the path holds the clean, unchanged pages as they serialize now. -/
structure VmState.Current (s : VmState) (file : CheckpointFile) : Prop where
  disk : s.disk = some file.bytes
  wellFormed : file.WellFormed
  inHeap : file.pages.length ≤ s.heap.om.pageCount
  page : ∀ p, (hp : p < file.pages.length) → p ∉ s.behind → (s.heap.om.page p).dirty = false →
    serializePage s.heap s.heap.om.start (s.heap.om.free - s.heap.om.start) p = some file.pages[p]

/-- The invariant of a run. -/
structure VmState.Inv (s : VmState) : Prop where
  layout : Layout s.heap s.live
  refs : RefsBelow s.heap s.live
  current : s.own = true → ∃ file, s.Current file

/-- **A checkpoint taken in a ready state holds fresh pages.** -/
theorem VmState.Inv.holdsFresh {s : VmState} (hs : s.Inv) (hready : s.Ready) {roots : ImageRoots}
    {file : CheckpointFile} (hfile : checkpointContents s.heap roots s.disk = some file) :
    HoldsFresh s.heap file := by
  obtain ⟨fresh, hfresh, -, -, -, -, hpages⟩ := checkpointContents_eq hfile
  obtain ⟨hlen, hget⟩ := serializePages_some hfresh
  have hwritten : ∀ p, (hp' : p < fresh.length) →
      writtenPage s.heap (reusableCheckpoint s.disk s.pageCount) s.pageCount p fresh[p]
        = fresh[p] := by
    intro p hp'
    have hcount : p < s.pageCount := by
      show p < checkpointPageCount (s.heap.om.free - s.heap.om.start)
      omega
    unfold writtenPage
    split
    · rfl
    rcases hready.source with hnone | ⟨hown, hdirty⟩
    · rw [hnone]
    obtain ⟨old, hdisk, wf, -, hpage⟩ := hs.current hown
    rcases hreuse : reusableCheckpoint s.disk s.pageCount with _ | ⟨header, bytes⟩
    · rfl
    -- the old file has this page count, so the bytes read are its page
    obtain ⟨rest, hheader, -⟩ := wf.read
    rw [hdisk] at hreuse
    unfold reusableCheckpoint at hreuse
    simp only [hheader] at hreuse
    split at hreuse
    · cases hreuse
    next hmatch =>
    simp only [Option.some.injEq, Prod.mk.injEq] at hreuse
    obtain ⟨rfl, rfl⟩ := hreuse
    have holdCount : old.pages.length = s.pageCount := by
      have heq : old.header.pageCount = UInt64.ofNat s.pageCount := by
        by_contra hne
        exact hmatch (.inr (.inr (.inl hne)))
      rw [← wf.pageCount, heq]
      exact toNat_ofNat64 (checkpointPageCount_lt hs.layout.placed)
    have hlt : p < s.heap.om.pageCount :=
      Nat.lt_of_lt_of_le hcount (checkpointPageCount_le hs.layout.placed)
    simp only [omPageIsDirty, if_pos hlt]
    cases hclean : (s.heap.om.page p).dirty with
    | true => rfl
    | false =>
      have hbehind : p ∉ s.behind := by
        intro hmem
        rw [hdirty p hmem hcount] at hclean
        cases hclean
      have hold := hpage p (by omega) hbehind hclean
      have hin : p < old.pages.length := by omega
      have hread := wf.page hin
      simp only [holdCount] at hread
      rw [hread]
      have heq : old.pages[p] = fresh[p] := Option.some.inj (hold.symm.trans (hget p hp'))
      rw [heq]
      simp
  have hsame : fresh.mapIdx (writtenPage s.heap (reusableCheckpoint s.disk s.pageCount)
      s.pageCount) = fresh := by
    apply List.ext_getElem (by simp)
    intro p hp hp'
    rw [List.getElem_mapIdx]
    exact hwritten p hp'
  show serializePages s.heap s.heap.om.start (s.heap.om.free - s.heap.om.start) = some file.pages
  rw [hpages]
  exact hfresh.trans (congrArg some hsame.symm)

/-- A file of fresh pages is a full checkpoint. -/
theorem HoldsFresh.isFull {h : Heap} {live : Set Extent} (hl : Layout h live) {roots : ImageRoots}
    {disk : Option (List UInt8)} {file : CheckpointFile}
    (hfile : checkpointContents h roots disk = some file) (hfresh : HoldsFresh h file)
    (hne : h.om.start < h.om.free)
    (hused : ∀ p, p < checkpointPageCount (h.om.free - h.om.start) →
      (h.om.page p).state ≠ .free) : CheckpointIsFull h roots disk := by
  obtain ⟨full, hfull⟩ := checkpointContents_some roots none hl hne
  have hfresh' := holdsFresh_of_absent hfull
  have hpages : file.pages = full.pages := Option.some.inj (hfresh.symm.trans hfresh')
  obtain ⟨pages, hpages₁, -, -, htables, -, -⟩ := checkpointContents_eq hfile
  obtain ⟨pages', hpages₂, -, -, htables', -, -⟩ := checkpointContents_eq hfull
  have hsame : pages = pages' := Option.some.inj (hpages₁.symm.trans hpages₂)
  have wf := checkpointContents_wellFormed hl.placed hfile
  refine ⟨file, full, hfile, hfull, hpages, by rw [htables, htables', hsame], ?_⟩
  exact (imageCheckpointValidate_bytes wf).mpr
    ⟨(checkpointHeader_valid_iff hl hfile).mpr hused, hfresh.checksums hfile⟩

/-! ## §4. Every step keeps the invariant. -/

/-- Clearing dirty bits leaves every page as it was. -/
theorem samePage_clear (h : Heap) (live : Set Extent) (synced : Bool) (p : Nat) :
    SamePage h { h with om := if synced then omClearDirtyPages h.om else h.om } live live p := by
  cases synced with
  | false => exact SamePage.refl h live p
  | true => exact ⟨⟨rfl, rfl, rfl, rfl⟩, rfl, rfl, rfl, rfl, fun _ _ _ => rfl, fun _ _ => Iff.rfl,
      fun _ _ _ => ⟨rfl, rfl⟩⟩

/-- **One step.** -/
theorem VmState.Inv.step {s : VmState} (hs : s.Inv) (step : Step) (hmeets : step.Meets s) :
    (s.step step).Inv := by
  obtain ⟨hl, hrefs, hcurrent⟩ := hs
  cases step with
  | mutate mu =>
    have hkept := Mutation.Legal.kept hl hrefs hmeets
    refine ⟨hkept.layout, hkept.refs, fun hown => ?_⟩
    obtain ⟨file, hdisk, wf, hin, hpage⟩ := hcurrent hown
    refine ⟨file, hdisk, wf, ?_, ?_⟩
    · show file.pages.length ≤ (mu.run s.heap).om.pageCount
      rw [hkept.buffer.pageCount]
      exact hin
    · intro p hp hbehind hclean
      obtain ⟨hold, hnew⟩ := not_or.mp hbehind
      obtain ⟨hbefore, hsame⟩ := Mutation.Legal.samePage hl hrefs hmeets hclean hnew
      exact (serializePage_same hl hkept.layout hsame hrefs hkept.grows (by omega)).trans
        (hpage p hp hold hbefore)
  | checkpoint roots synced =>
    have hs : s.Inv := ⟨hl, hrefs, hcurrent⟩
    have hfresh : ∀ file, checkpointContents s.heap roots s.disk = some file →
        HoldsFresh s.heap file := fun file hfile => hs.holdsFresh hmeets hfile
    show VmState.Inv (match checkpointContents s.heap roots s.disk with
      | none => s
      | some file => _)
    rcases hfile : checkpointContents s.heap roots s.disk with _ | file
    · exact ⟨hl, hrefs, hcurrent⟩
    have hom : SameButDirty s.heap.om
        (if synced then omClearDirtyPages s.heap.om else s.heap.om) := by
      cases synced with
      | false => exact SameButDirty.refl _
      | true => exact omClearDirtyPages_same _
    have hl' : Layout { s.heap with
        om := if synced then omClearDirtyPages s.heap.om else s.heap.om } s.live :=
      hl.congr hom (fun _ _ => rfl)
    refine ⟨hl', ?_, fun _ => ⟨file, rfl, checkpointContents_wellFormed hl.placed hfile, ?_, ?_⟩⟩
    · intro e he a hslot hptr
      show _ ∨ _
      have hold := hrefs e he a hslot hptr
      rw [← hom.free, ← hom.stop] at hold
      exact hold
    · obtain ⟨hlen, -⟩ := serializePages_some (hfresh file hfile)
      have hle := checkpointPageCount_le hl.placed
      show file.pages.length ≤ _
      rw [hlen]
      exact hle.trans (by rw [hom.pageCount])
    · intro p hp _ _
      obtain ⟨hlen, hget⟩ := serializePages_some (hfresh file hfile)
      have hle := checkpointPageCount_le hl.placed
      exact (serializePage_same hl hl' (samePage_clear s.heap s.live synced p) hrefs
        (by rw [hom.free]) (by omega)).trans (hget p hp)
  | replace file => exact ⟨hl, hrefs, fun hown => nomatch hown⟩

/-- A checkpoint in a state with the invariant. -/
theorem VmState.Inv.full {s : VmState} (hs : s.Inv) (step : Step) (hmeets : step.Meets s) :
    step.Full s := by
  cases step with
  | mutate mu => trivial
  | replace file => trivial
  | checkpoint roots synced =>
    intro hne
    obtain ⟨file, hfile⟩ := checkpointContents_some roots s.disk hs.layout hne
    have hready : s.Ready := hmeets
    exact (hs.holdsFresh hready hfile).isFull hs.layout hfile hne hready.noFreePage

/-- Every checkpoint of a run from a state with the invariant is full. -/
theorem VmState.Inv.fullAlong (steps : List Step) {s : VmState} (hs : s.Inv)
    (hmeets : Along Step.Meets s steps) : Along Step.Full s steps := by
  induction steps generalizing s with
  | nil => trivial
  | cons step steps ih => exact ⟨hs.full step hmeets.1, ih (hs.step step hmeets.1) hmeets.2⟩

/-- The state after a run. -/
def VmState.run (s : VmState) (steps : List Step) : VmState := steps.foldl VmState.step s

/-- The invariant holds after a run. -/
theorem VmState.Inv.after (steps : List Step) {s : VmState} (hs : s.Inv)
    (hmeets : Along Step.Meets s steps) : (s.run steps).Inv := by
  induction steps generalizing s with
  | nil => exact hs
  | cons step steps ih => exact ih (hs.step step hmeets.1) hmeets.2

/-- A fresh object memory has the invariant. -/
theorem VmState.initial_inv (buffer : Buffer) (m : Mem) (disk : Option (List UInt8)) :
    (VmState.initial buffer m disk).Inv :=
  ⟨omInit_layout buffer m, fun e he => absurd he (Set.notMem_empty e), fun hown => nomatch hown⟩

/-- **Checkpoints that are full.**  From a fresh object memory, whatever file is at
the path, in every run whose checkpoints are taken in ready states, each of them
has the pages and tables of a checkpoint written with no earlier file, and
validates. -/
theorem checkpoints_full (buffer : Buffer) (m : Mem) (disk : Option (List UInt8))
    (steps : List Step) (hmeets : Along Step.Meets (VmState.initial buffer m disk) steps) :
    Along Step.Full (VmState.initial buffer m disk) steps :=
  (VmState.initial_inv buffer m disk).fullAlong steps hmeets

/-! ## §5. An allocation between two checkpoints. -/

/-- The fresh two-page heap with no file at the path. -/
def freshVm : VmState := VmState.initial twoPages (fun _ => 0) none

/-- An object of one field. -/
def oneField : Step := .mutate (.alloc (fieldsRequest 1 (by decide)))

/-- A store into the field of the first object. -/
def storeField : Step := .mutate (.marked (.word 65536 0 5))

/-- Allocate, checkpoint, allocate, checkpoint. -/
def unmarkedAllocation : List Step :=
  [oneField, .checkpoint noRoots true, oneField, .checkpoint noRoots true]

/-- The same with a marked store into the page before the second checkpoint. -/
def markedAllocation : List Step :=
  [oneField, .checkpoint noRoots true, storeField, oneField, .checkpoint noRoots true]

theorem settled_null {om : Om} (h : 0 < om.free) : Settled om 0 := fun _ => .inl h

/-- The second checkpoint takes the page as it was before the second object. -/
theorem unmarkedAllocation_stale : Along Step.Legal freshVm unmarkedAllocation ∧
    ¬ Along Step.Full freshVm unmarkedAllocation := by
  refine ⟨⟨settled_null (by decide +kernel), trivial, settled_null (by decide +kernel), trivial,
    trivial⟩, ?_⟩
  intro hfull
  obtain ⟨-, -, -, hsecond, -⟩ := hfull
  obtain ⟨file, full, hfile, hfull, hpages, -⟩ := hsecond (by decide +kernel)
  -- the size word of the second object is 1 in the heap and 0 in the file
  have hbyte := congrArg (fun pages => pages.map (fun page => page.getD 48 0)) hpages
  have hstale : ((checkpointContents
      (((freshVm.step oneField).step (.checkpoint noRoots true)).step oneField).heap noRoots
      (((freshVm.step oneField).step (.checkpoint noRoots true)).step oneField).disk).map
      (fun f => f.pages.map (fun page => page.getD 48 0))) = some [0] := by decide +kernel
  have hnew : ((checkpointContents
      (((freshVm.step oneField).step (.checkpoint noRoots true)).step oneField).heap noRoots
      none).map (fun f => f.pages.map (fun page => page.getD 48 0))) = some [1] := by decide +kernel
  rw [hfile] at hstale
  rw [hfull] at hnew
  have heq : some [0] = some [(1 : UInt8)] := by
    rw [← hstale, ← hnew]
    exact congrArg some hbyte
  exact absurd heq (by decide)

theorem VmState.step_checkpoint_live (s : VmState) (roots : ImageRoots) (synced : Bool) :
    (s.step (.checkpoint roots synced)).live = s.live := by
  show VmState.live (match checkpointContents s.heap roots s.disk with
    | none => s
    | some file => _) = s.live
  split <;> rfl

/-- The live objects after an allocation at a known place. -/
theorem alloc_lives (h : Heap) (live : Set Extent) (req : AllocRequest) {obj : Nat}
    (hobj : (omAlloc h req).map Prod.fst = some obj) :
    (Mutation.alloc req).lives h live = insert ⟨obj, req.totalBytes⟩ live := by
  obtain ⟨⟨obj', h'⟩, halloc, rfl⟩ := Option.map_eq_some_iff.mp hobj
  simp only [Mutation.lives, halloc]

theorem oneField_live : (freshVm.step oneField).live = insert ⟨65536, 32⟩ ∅ :=
  alloc_lives freshVm.heap ∅ (fieldsRequest 1 (by decide)) (by decide +kernel)

/-- With the marked store the second checkpoint is full. -/
theorem markedAllocation_full : Along Step.Full freshVm markedAllocation := by
  refine checkpoints_full twoPages (fun _ => 0) none markedAllocation ?_
  refine ⟨settled_null (by decide +kernel), ⟨by decide +kernel, .inl rfl⟩, ?_,
    settled_null (by decide +kernel), ⟨by decide +kernel, .inr ⟨by decide +kernel, ?_⟩⟩, trivial⟩
  · show (BodyWrite.word 65536 0 5).Inside _ _
    refine ⟨⟨65536, 32⟩, ?_, rfl, by decide, fun hptr => absurd hptr (by decide)⟩
    rw [VmState.step_checkpoint_live]
    show _ ∈ (freshVm.step oneField).live
    rw [oneField_live]
    exact Set.mem_insert _ _
  · intro p _ hp
    have hcount : p < 1 := Nat.lt_of_lt_of_le hp (by decide +kernel)
    obtain rfl : p = 0 := by omega
    decide +kernel

end LivingObjects.Checkpoint
