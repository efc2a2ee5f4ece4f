/-
  LivingObjects.Checkpoint.Serialize — serializing a heap with a layout.

  On a heap whose page tables describe its objects the walk of every page ends,
  and what it rewrites are class words and slots: the format and size words the
  restart measures objects by go into the file unchanged.  With the layout the
  file's parts fit together and its header test comes down to one question,
  whether some page of the file is free (`checkpointHeader_valid_iff`).
-/
import LivingObjects.Checkpoint.Writer

namespace LivingObjects.Checkpoint

open LivingObjects.Lib
open LivingObjects.VM
open LivingObjects.ObjectMemory

theorem checkpointPageLiveBytes_le (usedSize pageId : Nat) :
    checkpointPageLiveBytes usedSize pageId ≤ pageBytes := by
  unfold checkpointPageLiveBytes
  split <;> omega

/-! ## §1. What a conversion leaves alone. -/

/-- The byte lies in no class word and no slot of a live object. -/
def Plain (live : Set Extent) (a : Nat) : Prop :=
  ∀ e ∈ live, (a < e.addr ∨ e.addr + 8 ≤ a) ∧ (a < e.addr + 24 ∨ e.addr + e.bytes ≤ a)

/-- Format and size words are plain. -/
theorem plain_header {h : Heap} {live : Set Extent} (hl : Layout h live) {e : Extent}
    (he : e ∈ live) {a : Nat} (hlo : e.addr + 8 ≤ a) (hhi : a < e.addr + 24) : Plain live a := by
  intro e' he'
  have hsize := (hl.objects e he).nonempty
  by_contra hin
  have hholds' : e'.Holds a := by
    have hsize' := (hl.objects e' he').nonempty
    unfold Extent.Holds
    omega
  have hsame := hl.disjoint e he e' he' a ⟨by omega, by omega⟩ hholds'
  subst hsame
  omega

theorem convertSlotPointerToOffset_of_out (copy : Mem) {a heapStart heapLimit i : Nat}
    (h : i < a ∨ a + 8 ≤ i) : convertSlotPointerToOffset copy a heapStart heapLimit i = copy i := by
  unfold convertSlotPointerToOffset
  split
  · rfl
  split
  · rfl
  · exact store64_of_out copy _ h

section Walk

variable {h : Heap} {live : Set Extent} {heapStart pageStart pageEnd : Nat}

/-- Converting a live object leaves the plain bytes of the copy alone. -/
theorem convertObject_plain (hl : Layout h live) {e : Extent} (he : e ∈ live) {heapLimit : Nat}
    (copy : Mem) {i : Nat} (hi : Plain live (pageStart + i)) :
    convertObject h heapStart heapLimit pageStart pageEnd e.addr copy i = copy i := by
  obtain ⟨hclass, hslots⟩ := hi e he
  have hobj := hl.objects e he
  have hheader := hobj.header
  have hbelow := hobj.below
  have hfree := hl.placed.freeLimit
  have hlimit := hl.placed.limitStop
  have hbound := hl.placed.stopBound
  have hfirst : (if pageStart ≤ e.addr then
      convertSlotPointerToOffset copy (e.addr - pageStart) heapStart heapLimit else copy) i
      = copy i := by
    split
    · exact convertSlotPointerToOffset_of_out copy (by omega)
    · rfl
  unfold convertObject
  split
  · refine List.foldlRecOn (motive := fun c : Mem => c i = copy i) _ _ hfirst ?_
    intro c hc slot hslot
    have hrange := List.mem_range.mp hslot
    have hwrap : wrap64 (objFieldAddr e.addr slot) = e.addr + 24 + 8 * slot := by
      unfold objFieldAddr
      exact wrap64_of_lt (by omega)
    unfold convertObjectSlot
    rw [hwrap]
    split
    · rw [convertSlotPointerToOffset_of_out c (by omega), hc]
    · exact hc
  · exact hfirst

/-- **The walk of a page ends** and leaves the plain bytes of the copy alone. -/
theorem convertFrom_some (heapStart pageStart pageEnd : Nat) (hl : Layout h live) :
    ∀ (fuel current : Nat) (copy : Mem), (current = 0 ∨ ∃ e ∈ live, e.addr = current) →
      h.om.free < current + fuel ∨ (current = 0 ∧ 0 < fuel) →
      ∃ copy', convertFrom h heapStart h.om.free pageStart pageEnd fuel current copy = some copy' ∧
        ∀ i, Plain live (pageStart + i) → copy' i = copy i := by
  intro fuel
  induction fuel with
  | zero =>
    intro current copy hcur hfuel
    rcases hcur with rfl | ⟨e, he, rfl⟩
    · omega
    · have hbelow := (hl.objects e he).below
      omega
  | succ fuel ih =>
    intro current copy hcur hfuel
    rw [convertFrom]
    by_cases hstop : current = 0 ∨ h.om.free ≤ current ∨ pageEnd ≤ current
    · exact ⟨copy, by rw [if_pos hstop], fun _ _ => rfl⟩
    rw [if_neg hstop]
    obtain ⟨e, he, rfl⟩ : ∃ e ∈ live, e.addr = current := by
      rcases hcur with hzero | hlive
      · exact absurd (.inl hzero) hstop
      · exact hlive
    have hsize := (hl.objects e he).nonempty
    have hnext := omNextObject_live hl he
    -- the walk goes on from a live object further up, or from nowhere
    obtain ⟨copy', hsome, hplain⟩ := ih (omNextObject h.om h.mem e.addr)
      (convertObject h heapStart h.om.free pageStart pageEnd e.addr copy)
      (by
        rcases hnext with hzero | ⟨e', he', haddr, -⟩
        · exact .inl hzero
        · exact .inr ⟨e', he', haddr.symm⟩)
      (by
        rcases hnext with hzero | ⟨e', he', haddr, hup⟩
        · exact .inr ⟨hzero, by omega⟩
        · exact .inl (by rw [haddr]; omega))
    exact ⟨copy', hsome, fun i hi => by rw [hplain i hi, convertObject_plain hl he copy hi]⟩

/-- Every page serializes; the plain bytes of a page in use are the heap's. -/
theorem serializePage_some (hl : Layout h live) {pageId : Nat} (hp : pageId < h.om.pageCount) :
    ∃ page, serializePage h h.om.start (h.om.free - h.om.start) pageId = some page ∧
      ((h.om.page pageId).state ≠ .free → ∀ i,
        i < checkpointPageLiveBytes (h.om.free - h.om.start) pageId →
        Plain live (h.om.pageStart pageId + i) →
        page.getD i 0 = h.mem (h.om.pageStart pageId + i)) := by
  have hstartFree := hl.placed.startFree
  have hlimit : h.om.start + (h.om.free - h.om.start) = h.om.free := by omega
  have hlive := checkpointPageLiveBytes_le (h.om.free - h.om.start) pageId
  unfold serializePage
  simp only
  by_cases hused : omPageState h.om pageId ≠ .free
      ∧ 0 < checkpointPageLiveBytes (h.om.free - h.om.start) pageId
  · rw [if_pos hused, hlimit]
    unfold checkpointPagePointersToOffsets
    simp only
    rw [hl.placed.pageStart hp, omPageCoveringObject, if_pos hp]
    have hcopy : ∀ i, i < checkpointPageLiveBytes (h.om.free - h.om.start) pageId →
        copyBytes (fun _ => 0) 0 h.mem (h.om.start + pageId * pageBytes)
          (checkpointPageLiveBytes (h.om.free - h.om.start) pageId) i
          = h.mem (h.om.pageStart pageId + i) := by
      intro i hi
      rw [copyBytes_of_mem _ _ (Nat.zero_le i) (by omega)]
      rfl
    by_cases hnone : checkpointPageLiveBytes (h.om.free - h.om.start) pageId = 0
        ∨ (h.om.page pageId).covering = 0
    · rw [if_pos hnone]
      refine ⟨_, rfl, fun _ i hi _ => ?_⟩
      rw [bytesFrom_getD _ _ _ _ (by omega), Nat.zero_add]
      exact hcopy i hi
    · rw [if_neg hnone]
      obtain ⟨e, he, haddr, -, -⟩ := hl.covering pageId (fun hc => hnone (.inr hc))
      obtain ⟨copy', hsome, hplain⟩ := convertFrom_some h.om.start (h.om.pageStart pageId)
        (h.om.pageStart pageId + checkpointPageLiveBytes (h.om.free - h.om.start) pageId)
        hl (h.om.free + 1)
        (h.om.page pageId).covering
        (copyBytes (fun _ => 0) 0 h.mem (h.om.start + pageId * pageBytes)
          (checkpointPageLiveBytes (h.om.free - h.om.start) pageId))
        (.inr ⟨e, he, haddr⟩) (.inl (by omega))
      rw [hsome]
      refine ⟨_, rfl, fun _ i hi hplain' => ?_⟩
      rw [bytesFrom_getD _ _ _ _ (by omega), Nat.zero_add, hplain i hplain']
      exact hcopy i hi
  · rw [if_neg hused]
    refine ⟨_, rfl, fun hstate i hi _ => absurd ⟨?_, by omega⟩ hused⟩
    rw [omPageState, if_pos hp]
    exact hstate

end Walk

/-! ## §2. The file of a heap with a layout. -/

section File

variable {h : Heap} {live : Set Extent} {roots : ImageRoots} {existing : Option (List UInt8)}

theorem checkpointPageCount_le (hp : Placed h.om) :
    checkpointPageCount (h.om.free - h.om.start) ≤ h.om.pageCount := by
  have hpages := hp.pages
  have hfree := hp.freeLimit
  have hlimit := hp.limitStop
  unfold checkpointPageCount
  split
  · omega
  · unfold pageBytes at *
    omega

theorem checkpointPageCount_lt (hp : Placed h.om) :
    checkpointPageCount (h.om.free - h.om.start) < 2 ^ 64 := by
  have hfree := hp.freeLimit
  have hlimit := hp.limitStop
  have hbound := hp.stopBound
  unfold checkpointPageCount
  split
  · omega
  · unfold pageBytes at *
    omega

/-- Serializing a heap with a layout comes to an end. -/
theorem serializePages_isSome (hl : Layout h live) :
    ∃ fresh, serializePages h h.om.start (h.om.free - h.om.start) = some fresh := by
  have hle := checkpointPageCount_le hl.placed
  have hpage : ∀ i ∈ List.range (checkpointPageCount (h.om.free - h.om.start)),
      ∃ page, serializePage h h.om.start (h.om.free - h.om.start) i = some page := by
    intro i hi
    obtain ⟨page, hpage, -⟩ := serializePage_some hl
      (Nat.lt_of_lt_of_le (List.mem_range.mp hi) hle)
    exact ⟨page, hpage⟩
  unfold serializePages
  generalize List.range (checkpointPageCount (h.om.free - h.om.start)) = ids at hpage
  induction ids with
  | nil => exact ⟨[], rfl⟩
  | cons i ids ih =>
    obtain ⟨page, hi⟩ := hpage i List.mem_cons_self
    obtain ⟨pages, hids⟩ := ih (fun j hj => hpage j (List.mem_cons_of_mem i hj))
    exact ⟨page :: pages, by rw [List.mapM_cons, hi, hids]; rfl⟩

/-- The parts of the file the checkpoint primitive writes. -/
theorem checkpointContents_eq {file : CheckpointFile}
    (hfile : checkpointContents h roots existing = some file) :
    ∃ fresh, serializePages h h.om.start (h.om.free - h.om.start) = some fresh ∧
      h.om.start ≠ 0 ∧ h.om.free - h.om.start ≠ 0 ∧
      file.tables = checkpointTables h h.om.start
        (checkpointPageCount (h.om.free - h.om.start)) fresh ∧
      file.header = { checkpointHeader roots h.om.start (h.om.free - h.om.start)
          (checkpointPageCount (h.om.free - h.om.start))
          (reusableCheckpoint existing (checkpointPageCount (h.om.free - h.om.start))) with
        metadataChecksum := checkpointMetadataChecksum
          (checkpointHeader roots h.om.start (h.om.free - h.om.start)
            (checkpointPageCount (h.om.free - h.om.start))
            (reusableCheckpoint existing (checkpointPageCount (h.om.free - h.om.start))))
          file.tables } ∧
      file.pages = fresh.mapIdx (writtenPage h
        (reusableCheckpoint existing (checkpointPageCount (h.om.free - h.om.start)))
        (checkpointPageCount (h.om.free - h.om.start))) := by
  unfold checkpointContents at hfile
  simp only at hfile
  split at hfile
  · cases hfile
  next hne =>
  obtain ⟨fresh, hfresh, rfl⟩ := Option.map_eq_some_iff.mp hfile
  exact ⟨fresh, hfresh, fun h0 => hne (.inl h0), fun h0 => hne (.inr h0), rfl, rfl, rfl⟩

/-- The checkpoint of a nonempty heap with a layout is written. -/
theorem checkpointContents_some (roots : ImageRoots) (existing : Option (List UInt8)) (hl : Layout h live) (hused : h.om.start < h.om.free) :
    ∃ file, checkpointContents h roots existing = some file := by
  have hstart := hl.placed.aboveFirstPage
  unfold pageBytes at hstart
  obtain ⟨fresh, hfresh⟩ := serializePages_isSome hl
  unfold checkpointContents
  simp only
  rw [if_neg (by omega), hfresh]
  exact ⟨_, rfl⟩

/-- The parts of a written file fit together. -/
theorem checkpointContents_wellFormed (hp : Placed h.om) {file : CheckpointFile}
    (hfile : checkpointContents h roots existing = some file) : file.WellFormed := by
  obtain ⟨fresh, hfresh, -, -, htables, hheader, hpages⟩ := checkpointContents_eq hfile
  obtain ⟨hlen, hget⟩ := serializePages_some hfresh
  have hcount := checkpointPageCount_lt hp
  have hpagesLen : file.pages.length = checkpointPageCount (h.om.free - h.om.start) := by
    rw [hpages, List.length_mapIdx, hlen]
  constructor
  · rw [hheader, hpagesLen]
    exact toNat_ofNat64 hcount
  · rw [htables, hpagesLen]
    simp [checkpointTables]
  · rw [htables, hpagesLen]
    simp [checkpointTables]
  · rw [htables, hpagesLen]
    simp [checkpointTables]
  · rw [htables, hpagesLen]
    simp [checkpointTables]
  · rw [htables, hpagesLen]
    simp [checkpointTables, hlen]
  · intro page hpage
    rw [hpages] at hpage
    obtain ⟨i, hi, rfl⟩ := List.mem_mapIdx.mp hpage
    exact writtenPage_length h _ _ i (serializePage_length (hget i hi))

/-! ## §3. The header test. -/

/-- The null page pointer is not encoded as null. -/
theorem pageObjectOffsetInHeap_null {heapStart : Nat} (hstart : pageBytes ≤ heapStart)
    (hbound : heapStart < 2 ^ 64) : pageObjectOffsetInHeap 0 heapStart ≠ 0 := by
  have hptr : isObjectPtr 0 = true := by decide
  unfold pageObjectOffsetInHeap
  rw [if_pos hptr]
  intro hzero
  have hnat : (UInt64.ofNat heapStart).toNat = heapStart := toNat_ofNat64 hbound
  have heq : UInt64.ofNat heapStart = 8 := by grind
  rw [heq] at hnat
  unfold pageBytes at hstart
  simp only [UInt64.reduceToNat] at hnat
  omega

/-- The header test on the entries of one page. -/
theorem pageEntryIsValid_iff (hl : Layout h live) {fresh : List (List UInt8)} {p : Nat}
    (hp : p < checkpointPageCount (h.om.free - h.om.start)) :
    pageEntryIsValid (checkpointTables h h.om.start
        (checkpointPageCount (h.om.free - h.om.start)) fresh) p = true ↔
      (h.om.page p).state ≠ .free := by
  have hpage : p < h.om.pageCount := Nat.lt_of_lt_of_le hp (checkpointPageCount_le hl.placed)
  have hget : ∀ f : Nat → UInt64,
      ((List.range (checkpointPageCount (h.om.free - h.om.start))).map f).getD p 0 = f p := by
    intro f
    simp [List.getD, hp]
  unfold pageEntryIsValid checkpointTables
  simp only [hget, omPageState, if_pos hpage]
  constructor
  · intro hvalid hfree
    have hblank := hl.free p hfree
    have hbound := hl.placed.stopBound
    have hstartFree := hl.placed.startFree
    have hfreeLimit := hl.placed.freeLimit
    have hlimit := hl.placed.limitStop
    have hnull := pageObjectOffsetInHeap_null hl.placed.aboveFirstPage (by omega)
    rw [hfree, omPageFirstObjectStart, if_pos hpage, hblank.2.1] at hvalid
    simp at hvalid
    exact hnull hvalid.1.2
  · intro hstate
    rcases hs : (h.om.page p).state with _ | _ | _
    · exact absurd hs hstate
    · simp [PageState.word]
    · simp [PageState.word]

/-- **The header test fails exactly on a free page**: the writer records the null
first object of a free page as an offset that is not 0. -/
theorem checkpointHeader_valid_iff (hl : Layout h live) {file : CheckpointFile}
    (hfile : checkpointContents h roots existing = some file) :
    checkpointHeaderIsValid file.header file.tables = true ↔
      ∀ p, p < checkpointPageCount (h.om.free - h.om.start) → (h.om.page p).state ≠ .free := by
  obtain ⟨fresh, -, -, -, htables, hheader, -⟩ := checkpointContents_eq hfile
  have hcount : file.header.pageCount.toNat = checkpointPageCount (h.om.free - h.om.start) := by
    rw [hheader]
    exact toNat_ofNat64 (checkpointPageCount_lt hl.placed)
  have hmagic : ¬ (file.header.magic ≠ imageCheckpointMagic
      ∨ (file.header.pageBytes ≠ 0 ∧ file.header.pageBytes ≠ UInt64.ofNat pageBytes)) := by
    rw [hheader]
    simp [checkpointHeader]
  have hsum : file.header.metadataChecksum
      = checkpointMetadataChecksum file.header file.tables := by
    rw [hheader]
    rfl
  have hentries : (List.range file.header.pageCount.toNat).all (pageEntryIsValid file.tables) = true
      ↔ ∀ p, p < checkpointPageCount (h.om.free - h.om.start) →
        (h.om.page p).state ≠ .free := by
    rw [hcount, htables, List.all_eq_true]
    constructor
    · exact fun hall p hp => (pageEntryIsValid_iff hl hp).mp (hall p (List.mem_range.mpr hp))
    · exact fun hall p hp =>
        (pageEntryIsValid_iff hl (List.mem_range.mp hp)).mpr (hall p (List.mem_range.mp hp))
  rw [← hentries]
  unfold checkpointHeaderIsValid
  rw [if_neg hmagic, ← hsum]
  by_cases hall : (List.range file.header.pageCount.toNat).all (pageEntryIsValid file.tables) = true
  · rw [if_neg (by simp [hall])]
    simp [hall]
  · rw [if_pos (by simpa using hall)]
    exact ⟨fun h => absurd h (by decide), fun h => absurd h hall⟩

end File

end LivingObjects.Checkpoint
