/-
  LivingObjects.Checkpoint.Loadable — which checkpoints can be loaded.

  A heap is built by allocations and page releases from a fresh object memory.
  Written with no earlier file present, its checkpoint validates and loads
  exactly when no page below the free pointer is free
  (`checkpoint_loadable_iff`): the tables record the null first object of a free
  page as an offset, which the header test then rejects.

  The positive direction follows the loader's relocation walk through the
  image: the headers in the image are the heap's, so every step goes to another
  live object further up.
-/
import LivingObjects.Checkpoint.Restart

namespace LivingObjects.Checkpoint

open LivingObjects.Lib
open LivingObjects.VM
open LivingObjects.ObjectMemory
open LivingObjects.Journal

/-! ## §1. Encoded page objects. -/

theorem imageOffset_add {base x : Nat} (h : x < 2 ^ 64) : imageOffset base (base + x) = x := by
  unfold imageOffset wrap64
  omega

/-- The encoding of a live object's address leads to its place in the image. -/
theorem imageObject_live {base heapStart object : Nat} (haligned : object % 4 = 0)
    (habove : heapStart ≤ object) (hbound : object < 2 ^ 63)
    (hroom : base + (object - heapStart) < 2 ^ 64) :
    imageObject base (pageObjectOffsetInHeap (UInt64.ofNat object) heapStart)
      = base + (object - heapStart) := by
  have hobj : (UInt64.ofNat object).toNat = object := toNat_ofNat64 (by omega)
  have hstart : (UInt64.ofNat heapStart).toNat = heapStart := toNat_ofNat64 (by omega)
  have hptr : isObjectPtr (UInt64.ofNat object) = true := by
    rw [isObjectPtr_iff, hobj]
    exact haligned
  have henc : (UInt64.ofNat object - UInt64.ofNat heapStart + 8).toNat
      = object - heapStart + 8 := by
    have h8 : (8 : UInt64).toNat = 8 := rfl
    rw [UInt64.toNat_add, UInt64.toNat_sub_of_le _ _ (UInt64.le_iff_toNat_le.mpr (by omega)),
        hobj, hstart, h8]
    omega
  have hne : UInt64.ofNat object - UInt64.ofNat heapStart + 8 ≠ 0 := by
    intro hzero
    rw [hzero] at henc
    simp only [UInt64.toNat_zero] at henc
    omega
  unfold imageObject pageObjectOffsetInHeap
  rw [if_pos hptr, if_neg hne, henc]
  unfold wrap64
  omega

/-- The encoding of the null page object leads outside the image. -/
theorem imageObject_null (base usedSize : Nat) {heapStart : Nat} (hstart : pageBytes ≤ heapStart)
    (hbound : heapStart ≤ 2 ^ 63) (hbase : base ≤ 2 ^ 63) (hused : usedSize ≤ 2 ^ 63) :
    usedSize ≤ imageOffset base (imageObject base (pageObjectOffsetInHeap 0 heapStart)) ∨
      imageObject base (pageObjectOffsetInHeap 0 heapStart) = 0 := by
  have hptr : isObjectPtr 0 = true := by decide
  have hnat : (UInt64.ofNat heapStart).toNat = heapStart := toNat_ofNat64 (by omega)
  have hne := pageObjectOffsetInHeap_null hstart (by omega)
  have henc : (pageObjectOffsetInHeap 0 heapStart).toNat = 2 ^ 64 + 8 - heapStart := by
    have h8 : (8 : UInt64).toNat = 8 := rfl
    have h0 : (0 : UInt64).toNat = 0 := rfl
    unfold pageObjectOffsetInHeap pageBytes at *
    rw [if_pos hptr, UInt64.toNat_add, UInt64.toNat_sub, hnat, h8, h0]
    omega
  left
  unfold imageObject pageBytes at *
  rw [if_neg hne, henc]
  unfold imageOffset wrap64
  omega

/-! ## §2. The image. -/

section Image

variable {h : Heap} {live : Set Extent} {base : Nat}

/-- The image at `base` has the format and size words of every live object. -/
def HeadersAt (h : Heap) (live : Set Extent) (base : Nat) (m : Mem) : Prop :=
  ∀ e ∈ live, ∀ i, 8 ≤ i → i < 24 → m (base + (e.addr - h.om.start) + i) = h.mem (e.addr + i)

theorem HeadersAt.format {m : Mem} (hm : HeadersAt h live base m) {e : Extent} (he : e ∈ live) :
    objFormat m (base + (e.addr - h.om.start)) = objFormat h.mem e.addr := by
  apply load64_congr
  intro i hi
  have hbyte := hm e he (8 + i) (by omega) (by omega)
  rw [← Nat.add_assoc, ← Nat.add_assoc] at hbyte
  exact hbyte

theorem HeadersAt.size {m : Mem} (hm : HeadersAt h live base m) {e : Extent} (he : e ∈ live) :
    objSize m (base + (e.addr - h.om.start)) = objSize h.mem e.addr := by
  apply load64_congr
  intro i hi
  have hbyte := hm e he (16 + i) (by omega) (by omega)
  rw [← Nat.add_assoc, ← Nat.add_assoc] at hbyte
  exact hbyte

theorem HeadersAt.slotCount {m : Mem} (hm : HeadersAt h live base m) {e : Extent}
    (he : e ∈ live) :
    objectSlotCount m (base + (e.addr - h.om.start)) = objectSlotCount h.mem e.addr :=
  objectSlotCount_congr (hm.format he) (hm.size he)

theorem convertSlotOffsetToPointer_of_out (m : Mem) {a heapBase heapUsed i : Nat}
    (h : i < a ∨ a + 8 ≤ i) : convertSlotOffsetToPointer m a heapBase heapUsed i = m i := by
  unfold convertSlotOffsetToPointer
  split
  · rfl
  split
  · rfl
  · exact store64_of_out m _ h

/-- Relocating a live object leaves the headers alone. -/
theorem relocateObject_headers (hl : Layout h live) (usedSize : Nat)
    (hroom : base + (h.om.free - h.om.start) ≤ 2 ^ 63) {m : Mem} (hm : HeadersAt h live base m)
    {e : Extent} (he : e ∈ live) :
    HeadersAt h live base (relocateObject base usedSize m (base + (e.addr - h.om.start))) := by
  have hobj := hl.objects e he
  have habove := hobj.above
  have hbelow := hobj.below
  have hheader := hobj.header
  intro e' he' i hlo hhi
  have hold := hm e' he' i hlo hhi
  obtain ⟨hclass, hslots⟩ := plain_header hl he' (a := e'.addr + i) (by omega) (by omega) e he
  have habove' := (hl.objects e' he').above
  have hfirst : convertSlotOffsetToPointer m (base + (e.addr - h.om.start)) base usedSize
      (base + (e'.addr - h.om.start) + i) = h.mem (e'.addr + i) := by
    rw [convertSlotOffsetToPointer_of_out m (by omega), hold]
  unfold relocateObject
  rw [hm.slotCount he]
  split
  · refine List.foldlRecOn
      (motive := fun m : Mem => m (base + (e'.addr - h.om.start) + i) = h.mem (e'.addr + i))
      _ _ hfirst ?_
    intro m' hm' slot hslot
    have hrange := List.mem_range.mp hslot
    have hwrap : wrap64 (objFieldAddr (base + (e.addr - h.om.start)) slot)
        = base + (e.addr - h.om.start) + 24 + 8 * slot := by
      unfold objFieldAddr
      exact wrap64_of_lt (by omega)
    rw [hwrap, convertSlotOffsetToPointer_of_out m' (by omega), hm']
  · exact hfirst

theorem range_map_getD {α : Type} (d : α) (f : Nat → α) {n q : Nat} (hq : q < n) :
    ((List.range n).map f).getD q d = f q := by
  simp [List.getD, hq]

/-- The used count of a page in the tables of the file. -/
theorem checkpointTables_used (hl : Layout h live) {fresh : List (List UInt8)} {p : Nat}
    (hp : p < checkpointPageCount (h.om.free - h.om.start)) :
    ((checkpointTables h h.om.start (checkpointPageCount (h.om.free - h.om.start))
      fresh).used.getD p 0).toNat = (h.om.page p).used := by
  have hle := checkpointPageCount_le hl.placed
  have hbound := hl.usedBound p
  unfold pageBytes at hbound
  simp only [checkpointTables]
  rw [range_map_getD _ _ hp, omPageUsedBytes, if_pos (by omega)]
  exact toNat_ofNat64 (Nat.lt_of_le_of_lt hbound (by decide))

/-- The covering object of a page in the tables of the file. -/
theorem checkpointTables_covering (hl : Layout h live) (fresh : List (List UInt8)) {p : Nat}
    (hp : p < checkpointPageCount (h.om.free - h.om.start)) :
    (checkpointTables h h.om.start (checkpointPageCount (h.om.free - h.om.start))
      fresh).covering.getD p 0
      = pageObjectOffsetInHeap (UInt64.ofNat (h.om.page p).covering) h.om.start := by
  have hle := checkpointPageCount_le hl.placed
  simp only [checkpointTables]
  rw [range_map_getD _ _ hp, omPageCoveringObject, if_pos (by omega)]

/-- The page of an address below the free pointer is among those of the file. -/
theorem page_lt_checkpointPageCount {used x : Nat} (hx : x < used) :
    x / pageBytes < checkpointPageCount used := by
  unfold checkpointPageCount
  rw [if_neg (by omega)]
  unfold pageBytes
  omega

/-- The end of a live object in the image. -/
theorem image_end (hl : Layout h live) (hroom : base + (h.om.free - h.om.start) ≤ 2 ^ 63)
    {m : Mem} (hm : HeadersAt h live base m) {e : Extent} (he : e ∈ live) :
    wrap64 (base + (e.addr - h.om.start) + omObjectBytes m (base + (e.addr - h.om.start)))
      = base + (e.addr + e.bytes - h.om.start) := by
  have hobj := hl.objects e he
  have hbelow := hobj.below
  have habove := hobj.above
  have hheader := hobj.header
  have hbytes : omObjectBytes m (base + (e.addr - h.om.start)) = e.bytes := by
    unfold omObjectBytes omObjectWords
    rw [hm.slotCount he]
    unfold wrap64 objHeaderWords wordSize
    omega
  rw [hbytes, wrap64_of_lt (by omega)]
  omega

/-- The object behind a live one that is not the last, by the tables of the file. -/
theorem followingImageObject_eq (hl : Layout h live)
    (hroom : base + (h.om.free - h.om.start) ≤ 2 ^ 63) {m : Mem} (hm : HeadersAt h live base m)
    {fresh : List (List UInt8)} {e : Extent} (he : e ∈ live) (hend : e.addr + e.bytes < h.om.free) :
    followingImageObject base (h.om.free - h.om.start)
      (checkpointTables h h.om.start (checkpointPageCount (h.om.free - h.om.start)) fresh)
      (checkpointPageCount (h.om.free - h.om.start)) m (base + (e.addr - h.om.start))
      = if (e.addr + e.bytes - h.om.start) % pageBytes
          < (h.om.page (h.om.pageOf (e.addr + e.bytes))).used then
          base + (e.addr + e.bytes - h.om.start)
        else
          match (List.range (checkpointPageCount (h.om.free - h.om.start))).find? (fun q =>
            h.om.pageOf (e.addr + e.bytes) < q
              && (checkpointTables h h.om.start (checkpointPageCount (h.om.free - h.om.start))
                fresh).first.getD q 0 != 0) with
          | some q => imageObject base ((checkpointTables h h.om.start
              (checkpointPageCount (h.om.free - h.om.start)) fresh).first.getD q 0)
          | none => 0 := by
  have habove := (hl.objects e he).above
  have hcount : h.om.pageOf (e.addr + e.bytes) < checkpointPageCount (h.om.free - h.om.start) :=
    page_lt_checkpointPageCount (by omega)
  have hoff : wrap64 (base + (e.addr + e.bytes - h.om.start) + 2 ^ 64
      - (base + (e.addr + e.bytes - h.om.start) / pageBytes * pageBytes))
      = (e.addr + e.bytes - h.om.start) % pageBytes := by
    unfold wrap64 pageBytes
    omega
  unfold followingImageObject
  simp only [image_end hl hroom hm he]
  rw [if_neg (by omega), imageOffset_add (by omega), hoff]
  refine if_congr ?_ rfl rfl
  rw [show (e.addr + e.bytes - h.om.start) / pageBytes = h.om.pageOf (e.addr + e.bytes) from rfl,
    checkpointTables_used hl hcount]

/-- What the tables of the file say of a live object's successor: none, a place
outside the image, or a live object further up. -/
theorem followingImageObject_live (hl : Layout h live)
    (hroom : base + (h.om.free - h.om.start) ≤ 2 ^ 63) {m : Mem} (hm : HeadersAt h live base m)
    {fresh : List (List UInt8)} {e : Extent} (he : e ∈ live) {next : Nat}
    (hnext : followingImageObject base (h.om.free - h.om.start)
      (checkpointTables h h.om.start (checkpointPageCount (h.om.free - h.om.start)) fresh)
      (checkpointPageCount (h.om.free - h.om.start)) m (base + (e.addr - h.om.start)) = next) :
    next = 0 ∨ h.om.free - h.om.start ≤ imageOffset base next ∨
      ∃ e' ∈ live, next = base + (e'.addr - h.om.start) ∧ e.addr + e.bytes ≤ e'.addr := by
  have hobj := hl.objects e he
  have hp := hl.placed
  have hbelow := hobj.below
  have habove := hobj.above
  have hstop := hp.stopBound
  have hlimit := hp.limitStop
  have hfree := hp.freeLimit
  have hsize := hobj.nonempty
  by_cases hlast : h.om.free ≤ e.addr + e.bytes
  · unfold followingImageObject at hnext
    simp only [image_end hl hroom hm he] at hnext
    rw [if_pos (by omega)] at hnext
    exact .inl hnext.symm
  rw [followingImageObject_eq hl hroom hm he (by omega)] at hnext
  by_cases hcover : (e.addr + e.bytes - h.om.start) % pageBytes
      < (h.om.page (h.om.pageOf (e.addr + e.bytes))).used
  · -- the byte after the object is used, so the next object starts there
    rw [if_pos hcover] at hnext
    obtain ⟨e', he', heq⟩ := live_at_end hl he hcover
    exact .inr (.inr ⟨e', he', by rw [← hnext, heq], by omega⟩)
  · rw [if_neg hcover] at hnext
    split at hnext
    · next q hq =>
      have hfound := List.find?_some hq
      have hrange := List.mem_range.mp (List.mem_of_find?_eq_some hq)
      simp only [Bool.and_eq_true, decide_eq_true_eq] at hfound
      have hfirst : (checkpointTables h h.om.start
          (checkpointPageCount (h.om.free - h.om.start)) fresh).first.getD q 0
          = pageObjectOffsetInHeap (UInt64.ofNat (h.om.page q).first) h.om.start := by
        have hle := checkpointPageCount_le hp
        simp only [checkpointTables]
        rw [range_map_getD _ _ hrange, omPageFirstObjectStart, if_pos (by omega)]
      rw [hfirst] at hnext
      by_cases hnull : (h.om.page q).first = 0
      · -- a null first object is encoded as an address outside the image
        rw [hnull] at hnext
        rw [← hnext]
        rcases imageObject_null base (h.om.free - h.om.start)
          hp.aboveFirstPage (by omega) (by omega) (by omega) with hout | hzero
        · exact .inr (.inl hout)
        · exact .inl hzero
      · obtain ⟨e', he', haddr, hpage'⟩ := hl.first q hnull
        have hobj' := hl.objects e' he'
        have habove' := hobj'.above
        have hbelow' := hobj'.below
        have hsize' := hobj'.nonempty
        have halign' := hobj'.aligned
        rw [← haddr, imageObject_live (by omega) habove' (by omega) (by omega)] at hnext
        refine .inr (.inr ⟨e', he', hnext.symm, ?_⟩)
        have hlater := hfound.1
        unfold Om.pageOf pageBytes at hpage' hlater
        omega
    · exact .inl hnext.symm

/-- **One step of the loader's walk** from a live object ends or leads to a live
object further up. -/
theorem nextImageObject_live (hl : Layout h live)
    (hroom : base + (h.om.free - h.om.start) ≤ 2 ^ 63) {m : Mem} (hm : HeadersAt h live base m)
    (fresh : List (List UInt8)) {e : Extent} (he : e ∈ live) {next : Nat}
    (hnext : nextImageObject base (h.om.free - h.om.start)
      (checkpointTables h h.om.start (checkpointPageCount (h.om.free - h.om.start)) fresh)
      (checkpointPageCount (h.om.free - h.om.start)) m (base + (e.addr - h.om.start)) = next) :
    next = 0 ∨ ∃ e' ∈ live, next = base + (e'.addr - h.om.start) ∧ e.addr + e.bytes ≤ e'.addr := by
  unfold nextImageObject at hnext
  simp only at hnext
  split at hnext
  · exact .inl hnext.symm
  next hin =>
  rcases followingImageObject_live hl hroom hm he hnext with hzero | hout | hlive
  · exact .inl hzero
  · rw [hnext] at hin
    exact .inl (by_contra fun hne => hin ⟨hne, hout⟩)
  · exact .inr hlive

/-- The walk of a page of the image ends and leaves the headers alone. -/
theorem relocateFrom_some (hl : Layout h live)
    (hroom : base + (h.om.free - h.om.start) ≤ 2 ^ 63) (fresh : List (List UInt8))
    (pageEndOffset : Nat) :
    ∀ (fuel current : Nat) (m : Mem), HeadersAt h live base m → 0 < fuel →
      (current = 0 ∨ h.om.free - h.om.start ≤ imageOffset base current ∨
        ∃ e ∈ live, current = base + (e.addr - h.om.start) ∧ h.om.free < e.addr + fuel) →
      ∃ m', relocateFrom base (h.om.free - h.om.start)
          (checkpointTables h h.om.start (checkpointPageCount (h.om.free - h.om.start)) fresh)
          (checkpointPageCount (h.om.free - h.om.start)) pageEndOffset fuel current m = some m' ∧
        HeadersAt h live base m' := by
  intro fuel
  induction fuel with
  | zero => exact fun _ _ _ hfuel _ => absurd hfuel (Nat.lt_irrefl 0)
  | succ fuel ih =>
    intro current m hm _ hcur
    rw [relocateFrom]
    by_cases hstop : current = 0 ∨ h.om.free - h.om.start ≤ imageOffset base current
        ∨ pageEndOffset ≤ imageOffset base current
    · exact ⟨m, by rw [if_pos hstop], hm⟩
    rw [if_neg hstop]
    obtain ⟨e, he, rfl, hfuel⟩ : ∃ e ∈ live, current = base + (e.addr - h.om.start) ∧
        h.om.free < e.addr + (fuel + 1) := by
      rcases hcur with hzero | hout | hlive
      · exact absurd (.inl hzero) hstop
      · exact absurd (.inr (.inl hout)) hstop
      · exact hlive
    have hobj := hl.objects e he
    have hbelow := hobj.below
    have hsize := hobj.nonempty
    have hm' := relocateObject_headers hl (h.om.free - h.om.start) hroom hm he
    refine ih _ _ hm' (by omega) ?_
    rcases nextImageObject_live hl hroom hm' fresh he rfl with hzero | hnext
    · exact .inl hzero
    · obtain ⟨e', he', haddr, hup⟩ := hnext
      exact .inr (.inr ⟨e', he', haddr, by omega⟩)

/-- The relocation of an image with the heap's headers ends. -/
theorem relocatePages_some (hl : Layout h live)
    (hroom : base + (h.om.free - h.om.start) ≤ 2 ^ 63) (fresh : List (List UInt8)) :
    ∀ (remaining pageId : Nat) (m : Mem), HeadersAt h live base m →
      pageId + remaining = checkpointPageCount (h.om.free - h.om.start) →
      ∃ m', relocatePages base (h.om.free - h.om.start)
        (checkpointTables h h.om.start (checkpointPageCount (h.om.free - h.om.start)) fresh)
        (checkpointPageCount (h.om.free - h.om.start)) remaining pageId m = some m' := by
  intro remaining
  induction remaining with
  | zero => exact fun _ m _ _ => ⟨m, rfl⟩
  | succ remaining ih =>
    intro pageId m hm hcount
    rw [relocatePages]
    by_cases hend : h.om.free - h.om.start ≤ pageId * pageBytes
    · exact ⟨m, by rw [if_pos hend]⟩
    rw [if_neg hend]
    have hp := hl.placed
    have hle := checkpointPageCount_le hp
    have hcovering := checkpointTables_covering hl fresh
      (show pageId < checkpointPageCount (h.om.free - h.om.start) by omega)
    have hbound := hp.stopBound
    have hlimit := hp.limitStop
    have hfree := hp.freeLimit
    have hstart := hp.startFree
    rw [hcovering]
    obtain ⟨m', hsome, hm'⟩ := relocateFrom_some hl hroom fresh
      (wrap64 (pageId * pageBytes + ((checkpointTables h h.om.start
        (checkpointPageCount (h.om.free - h.om.start)) fresh).used.getD pageId 0).toNat))
      (h.om.free - h.om.start + 1)
      (imageObject base
        (pageObjectOffsetInHeap (UInt64.ofNat (h.om.page pageId).covering) h.om.start))
      m hm (Nat.succ_pos _) (by
        by_cases hnull : (h.om.page pageId).covering = 0
        · rw [hnull]
          rcases imageObject_null base (h.om.free - h.om.start)
            hp.aboveFirstPage (by omega) (by omega) (by omega) with hout | hzero
          · exact .inr (.inl hout)
          · exact .inl hzero
        · obtain ⟨e, he, haddr, -, -⟩ := hl.covering pageId hnull
          have hobj := hl.objects e he
          have habove := hobj.above
          have hbelow := hobj.below
          have hsize := hobj.nonempty
          have halign := hobj.aligned
          refine .inr (.inr ⟨e, he, ?_, by omega⟩)
          rw [← haddr]
          exact imageObject_live (by omega) habove (by omega) (by omega))
    obtain ⟨m'', hrest⟩ := ih (pageId + 1) m' hm' (by omega)
    exact ⟨m'', by rw [hsome]; exact hrest⟩

end Image

/-! ## §3. Loading a file of fresh pages. -/

section Load

variable {h : Heap} {live : Set Extent} {base : Nat} {roots : ImageRoots}
  {existing : Option (List UInt8)}

/-- A written file that holds every page as it serializes now. -/
def HoldsFresh (h : Heap) (file : CheckpointFile) : Prop :=
  serializePages h h.om.start (h.om.free - h.om.start) = some file.pages

/-- With no earlier file every page is written as it serializes now. -/
theorem holdsFresh_of_absent {file : CheckpointFile}
    (hfile : checkpointContents h roots none = some file) : HoldsFresh h file := by
  obtain ⟨fresh, hfresh, -, -, -, -, hpages⟩ := checkpointContents_eq hfile
  have hsame : fresh.mapIdx (writtenPage h
      (reusableCheckpoint none (checkpointPageCount (h.om.free - h.om.start)))
      (checkpointPageCount (h.om.free - h.om.start))) = fresh := by
    apply List.ext_getElem (by simp)
    intro i hi hi'
    rw [List.getElem_mapIdx]
    unfold writtenPage reusableCheckpoint
    split <;> rfl
  rw [HoldsFresh, hpages, hsame]
  exact hfresh

/-- Fresh pages carry the checksums of the table. -/
theorem HoldsFresh.checksums {file : CheckpointFile} (hf : HoldsFresh h file)
    (hfile : checkpointContents h roots existing = some file) :
    file.tables.checksum = file.pages.map checkpointPageChecksum := by
  obtain ⟨fresh, hfresh, -, -, htables, -, -⟩ := checkpointContents_eq hfile
  have hsame : fresh = file.pages := Option.some.inj (hfresh.symm.trans hf)
  rw [htables, ← hsame]
  rfl

/-- **A file of fresh pages without a free page loads.** -/
theorem loadCheckpoint_some (hl : Layout h live) (hbase : base + (h.om.free - h.om.start) ≤ 2 ^ 63)
    {file : CheckpointFile} (hfile : checkpointContents h roots existing = some file)
    (hfresh : HoldsFresh h file)
    (hused : ∀ p, p < checkpointPageCount (h.om.free - h.om.start) → (h.om.page p).state ≠ .free)
    (m : Mem) :
    ∃ image, loadCheckpoint base (some file.bytes) m = some image ∧
      image.header = file.header := by
  have hp := hl.placed
  have wf := checkpointContents_wellFormed hp hfile
  obtain ⟨rest, hheader, htables⟩ := wf.read
  have hvalid := (checkpointHeader_valid_iff hl hfile).mpr hused
  have hsums := hfresh.checksums hfile
  obtain ⟨hpagesLen, hpages⟩ := serializePages_some hfresh
  obtain ⟨fresh', -, -, hne, htables', hheader', -⟩ := checkpointContents_eq hfile
  have hcount : file.header.pageCount.toNat = checkpointPageCount (h.om.free - h.om.start) := by
    rw [wf.pageCount, hpagesLen]
  have hbound := hp.stopBound
  have hlimit := hp.limitStop
  have hfree := hp.freeLimit
  have hstartFree := hp.startFree
  have husedSize : file.header.usedSize.toNat = h.om.free - h.om.start := by
    rw [hheader']
    exact toNat_ofNat64 (by omega)
  have hcountNe : file.header.pageCount ≠ 0 := by
    intro hzero
    rw [hzero] at hcount
    unfold checkpointPageCount pageBytes at hcount
    rw [if_neg hne] at hcount
    simp only [UInt64.toNat_zero] at hcount
    omega
  obtain ⟨m', hload, -, hbytes⟩ := loadPages_some base (h.om.free - h.om.start)
    file.tables.state file.pages wf.state wf.pages 0 m
  rw [← hsums] at hload
  have hle := checkpointPageCount_le hp
  -- the loaded image has the headers of the heap
  have hm' : HeadersAt h live base m' := by
    intro e he i hlo hhi
    have hobj := hl.objects e he
    have habove := hobj.above
    have hbelow := hobj.below
    have hsize := hobj.nonempty
    have hk : (e.addr + i - h.om.start) / pageBytes < file.pages.length := by
      rw [hpagesLen]
      unfold checkpointPageCount
      rw [if_neg hne]
      unfold pageBytes
      omega
    have hlive : (e.addr + i - h.om.start) % pageBytes < checkpointPageLiveBytes
        (h.om.free - h.om.start) ((e.addr + i - h.om.start) / pageBytes) := by
      unfold checkpointPageLiveBytes pageBytes
      split <;> omega
    have hstate : (h.om.page ((e.addr + i - h.om.start) / pageBytes)).state ≠ .free :=
      hused _ (by rw [← hpagesLen]; exact hk)
    have hplace : base + (0 + (e.addr + i - h.om.start) / pageBytes) * pageBytes
        + (e.addr + i - h.om.start) % pageBytes = base + (e.addr - h.om.start) + i := by
      unfold pageBytes
      omega
    have hsource : h.om.pageStart ((e.addr + i - h.om.start) / pageBytes)
        + (e.addr + i - h.om.start) % pageBytes = e.addr + i := by
      unfold Om.pageStart pageBytes
      omega
    have hword : file.tables.state.getD ((e.addr + i - h.om.start) / pageBytes) 0
        ≠ PageState.free.word := by
      rw [htables']
      simp only [checkpointTables]
      have hlt : (e.addr + i - h.om.start) / pageBytes
          < checkpointPageCount (h.om.free - h.om.start) := by rw [← hpagesLen]; exact hk
      simp only [List.getD, List.getElem?_map, List.getElem?_range hlt, Option.map_some,
        Option.getD_some, omPageState, if_pos (Nat.lt_of_lt_of_le hlt hle)]
      rcases hs : (h.om.page ((e.addr + i - h.om.start) / pageBytes)).state with _ | _ | _
      · exact absurd hs hstate
      · decide
      · decide
    have hcopied := hbytes _ hk hword _ (by rw [Nat.zero_add]; exact hlive)
    rw [hplace] at hcopied
    obtain ⟨page, hpage, hplain⟩ := serializePage_some hl
      (show (e.addr + i - h.om.start) / pageBytes < h.om.pageCount by omega)
    have hsame : page = file.pages[(e.addr + i - h.om.start) / pageBytes] :=
      Option.some.inj (hpage.symm.trans (hpages _ hk))
    have hplainBytes := hplain hstate _ hlive
    rw [hsource] at hplainBytes
    rw [hcopied, ← hsame]
    exact hplainBytes (plain_header hl he (by omega) (by omega))
  obtain ⟨m'', hrelocate⟩ := relocatePages_some hl hbase fresh'
    (checkpointPageCount (h.om.free - h.om.start)) 0 m' hm' (Nat.zero_add _)
  refine ⟨{ header := file.header, mem := m'' }, ?_, rfl⟩
  have hrelocate' : imageOffsetsToLivePointersPaged base (h.om.free - h.om.start) file.tables
      (checkpointPageCount (h.om.free - h.om.start)) m' = some m'' := by
    rw [htables']
    exact hrelocate
  unfold loadCheckpoint
  simp only [Option.bind_eq_bind, Option.bind_some, hheader, htables]
  rw [if_neg (by simp [hvalid, hcountNe]), husedSize, hload]
  simp only [Option.bind_some]
  rw [hcount, hrelocate']
  rfl

end Load

/-! ## §4. Runs of allocations and releases. -/

/-- One call on an object memory. -/
inductive HeapOp where
  | alloc (req : AllocRequest)
  | release (pageId : Nat)

/-- The heap after a call; an allocation that returns `NULL` changes nothing. -/
def HeapOp.run (h : Heap) : HeapOp → Heap
  | .alloc req =>
    match omAlloc h req with
    | some (_, h') => h'
    | none => h
  | .release pageId => { h with om := omReleasePage h.om pageId }

/-- The heap after a sequence of calls. -/
def runOps (h : Heap) (ops : List HeapOp) : Heap := ops.foldl HeapOp.run h

/-- A call that releases a page only when the page shares no object with its
neighbours and the bump pointer is not in it. -/
def HeapOp.Whole (h : Heap) : HeapOp → Prop
  | .alloc _ => True
  | .release pageId => pageId < h.om.pageCount → Releasable h.om pageId

/-- Every release of the run is of a whole page. -/
def ReleasesWhole : Heap → List HeapOp → Prop
  | _, [] => True
  | h, op :: ops => op.Whole h ∧ ReleasesWhole (op.run h) ops

/-- A call keeps the layout. -/
theorem HeapOp.run_layout {h : Heap} {live : Set Extent} (hl : Layout h live) (op : HeapOp)
    (hw : op.Whole h) : ∃ live', Layout (op.run h) live' := by
  cases op with
  | alloc req =>
    unfold HeapOp.run
    simp only
    rcases ha : omAlloc h req with _ | ⟨obj, h'⟩
    · exact ⟨live, hl⟩
    · exact ⟨_, (omAlloc_layout hl ha).1⟩
  | release pageId =>
    by_cases hp : pageId < h.om.pageCount
    · exact ⟨_, omReleasePage_layout hl hp (hw hp)⟩
    · refine ⟨live, ?_⟩
      show Layout { h with om := omReleasePage h.om pageId } live
      unfold omReleasePage
      rw [if_neg hp]
      exact hl

/-- A run whose releases are of whole pages keeps the layout. -/
theorem runOps_layout (ops : List HeapOp) {h : Heap} {live : Set Extent} (hl : Layout h live)
    (hw : ReleasesWhole h ops) : ∃ live', Layout (runOps h ops) live' := by
  induction ops generalizing h live with
  | nil => exact ⟨live, hl⟩
  | cons op ops ih =>
    obtain ⟨live', hl'⟩ := op.run_layout hl hw.1
    exact ih hl' hw.2

/-- The checkpoint written with no earlier file present passes both tests and the
restart primitive loads it wherever there is room. -/
def CheckpointLoads (h : Heap) (roots : ImageRoots) : Prop :=
  ∃ file, checkpointContents h roots none = some file ∧
    checkpointHeaderIsValid file.header file.tables = true ∧
    imageCheckpointValidate (some file.bytes) = true ∧
    ∀ base s, base + (h.om.free - h.om.start) ≤ 2 ^ 63 →
      (restart base (some file.bytes) none s).isSome = true

/-- A heap with a layout: its checkpoint loads exactly when no page is free. -/
theorem checkpointLoads_iff {h : Heap} {live : Set Extent} (hl : Layout h live)
    (hne : h.om.start < h.om.free) (roots : ImageRoots) :
    CheckpointLoads h roots ↔
      ∀ p, p < checkpointPageCount (h.om.free - h.om.start) → (h.om.page p).state ≠ .free := by
  constructor
  · rintro ⟨file, hfile, hvalid, -, -⟩
    exact (checkpointHeader_valid_iff hl hfile).mp hvalid
  · intro hused
    obtain ⟨file, hfile⟩ := checkpointContents_some roots none hl hne
    have hvalid := (checkpointHeader_valid_iff hl hfile).mpr hused
    have hfresh := holdsFresh_of_absent hfile
    have hsums := hfresh.checksums hfile
    have wf := checkpointContents_wellFormed hl.placed hfile
    refine ⟨file, hfile, hvalid, (imageCheckpointValidate_bytes wf).mpr ⟨hvalid, hsums⟩, ?_⟩
    intro base s hroom
    obtain ⟨image, hload, -⟩ := loadCheckpoint_some hl hroom hfile hfresh hused s.mem
    unfold restart
    rw [hload]
    rfl

/-- **Which checkpoints can be loaded.**  After any run of allocations and
releases of whole pages, a nonempty heap's checkpoint passes both tests and
loads exactly when no page it covers is free. -/
theorem checkpoint_loadable_iff (buffer : Buffer) (m : Mem) (ops : List HeapOp)
    (hw : ReleasesWhole { om := omInit buffer.addr buffer.size, mem := m } ops) {h : Heap}
    (hrun : runOps { om := omInit buffer.addr buffer.size, mem := m } ops = h)
    (hne : h.om.start < h.om.free) (roots : ImageRoots) :
    CheckpointLoads h roots ↔
      ∀ p, p < checkpointPageCount (h.om.free - h.om.start) → (h.om.page p).state ≠ .free := by
  obtain ⟨live, hl⟩ := runOps_layout ops (omInit_layout buffer m) hw
  rw [hrun] at hl
  exact checkpointLoads_iff hl hne roots

/-! ## §5. Two pages. -/

/-- Two pages of buffer. -/
def twoPages : Buffer where
  addr := 65536
  size := 8192
  aboveFirstPage := by decide
  aligned := by decide
  inUserSpace := by decide

/-- A request for an object of `n` fields. -/
def fieldsRequest (n : UInt64) (h : 8 * (3 + slotWords formatFields n) ≤ 2 ^ 63) :
    AllocRequest where
  classPtr := 0
  format := formatFields
  size := n
  roundsUp := fun hf => absurd hf (by decide)
  fits := h

/-- Two objects of a page each; the first page is then released. -/
def releaseFirst : List HeapOp :=
  [.alloc (fieldsRequest 509 (by decide)), .alloc (fieldsRequest 509 (by decide)), .release 0]

/-- The same, and a small object that goes into the released page. -/
def reuseFirst : List HeapOp :=
  [.alloc (fieldsRequest 509 (by decide)), .alloc (fieldsRequest 509 (by decide)), .release 0,
    .alloc (fieldsRequest 2 (by decide))]

/-- The fresh two-page heap. -/
def twoPageHeap : Heap := { om := omInit twoPages.addr twoPages.size, mem := fun _ => 0 }

/-- A header without globals. -/
def noRoots : ImageRoots := ⟨0, 0, 0, 0, 0⟩

theorem releaseFirst_whole : ReleasesWhole twoPageHeap releaseFirst :=
  ⟨trivial, trivial, fun _ => .inr (by decide +kernel), trivial⟩

/-- A released page inside the heap: the checkpoint does not load. -/
theorem releasedPage_not_loadable : ¬ CheckpointLoads (runOps twoPageHeap releaseFirst) noRoots := by
  obtain ⟨live, hl⟩ := runOps_layout releaseFirst
    (omInit_layout twoPages (fun _ => 0)) releaseFirst_whole
  intro hloads
  exact (checkpointLoads_iff hl (by decide +kernel) noRoots).mp hloads 0 (by decide +kernel)
    (by decide +kernel)

/-- Once the released page is reused the checkpoint loads. -/
theorem reusedPage_loadable : CheckpointLoads (runOps twoPageHeap reuseFirst) noRoots :=
  (checkpoint_loadable_iff twoPages (fun _ => 0) reuseFirst
    ⟨trivial, trivial, fun _ => .inr (by decide +kernel), trivial, trivial⟩ rfl
    (by decide +kernel) noRoots).mpr (by decide +kernel)

end LivingObjects.Checkpoint
