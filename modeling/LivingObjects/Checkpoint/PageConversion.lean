/-
  LivingObjects.Checkpoint.PageConversion — the pages and the whole image.

  The checkpoint primitive converts a heap page by page
  (`checkpoint_page_pointers_to_offsets`), and `object.c` converts a copy of the whole used
  range (`image_live_pointers_to_offsets_paged`).  The words a page's walk converts are
  noted; over all pages they are the class words and slots of the live objects, each once,
  in ascending order, and the converted pages one behind the other are the converted image.
-/
import LivingObjects.Checkpoint.RoundTrip

namespace LivingObjects.Checkpoint

open LivingObjects.Lib
open LivingObjects.VM
open LivingObjects.ObjectMemory

/-! ## §1. The pages. -/

/-- A page as `checkpoint_page_pointers_to_offsets` gets it, and what it makes of it: the
live bytes of the page. -/
def convertedPage (h : Heap) (usedSize pageId : Nat) : Option (List UInt8) :=
  let pageLiveBytes := checkpointPageLiveBytes usedSize pageId
  let copy := copyBytes (fun _ => 0) 0 h.mem (h.om.start + pageId * pageBytes) pageLiveBytes
  (checkpointPagePointersToOffsets h h.om.start (h.om.start + usedSize) copy usedSize pageId).map
    fun copy => bytesFrom copy 0 pageLiveBytes

/-- All pages. -/
def convertedPages (h : Heap) (usedSize : Nat) : Option (List (List UInt8)) :=
  (List.range (checkpointPageCount usedSize)).mapM (convertedPage h usedSize)

/-! ## §2. The words that are converted. -/

section Words

variable (h : Heap) (heapLimit pageStart pageEnd : Nat)

/-- Those of one object, for each time `checkpoint_convert_slot_pointer_to_offset` is
called. -/
def convertedObject (current : Nat) : List Nat :=
  (if pageStart ≤ current then [current] else []) ++
    if objFormat h.mem current ≠ formatBytes then
      ((List.range (objectSlotCount h.mem current)).map fun slot =>
        wrap64 (objFieldAddr current slot)).filter fun slotAddress =>
          pageStart ≤ slotAddress ∧ wrap64 (slotAddress + wordSize) ≤ pageEnd
    else []

/-- Those of the walk. -/
def convertedFrom : Nat → Nat → List Nat
  | 0, _ => []
  | fuel + 1, current =>
    if current = 0 ∨ heapLimit ≤ current ∨ pageEnd ≤ current then []
    else convertedObject h pageStart pageEnd current
      ++ convertedFrom fuel (omNextObject h.om h.mem current)

end Words

/-- The words `checkpoint_page_pointers_to_offsets` converts in a page. -/
def convertedWords (h : Heap) (usedSize pageId : Nat) : List Nat :=
  let pageStart := omPageStart h.om pageId
  let pageLiveBytes := checkpointPageLiveBytes usedSize pageId
  let heapLimit := h.om.start + usedSize
  let current := omPageCoveringObject h.om pageId
  if pageLiveBytes = 0 ∨ current = 0 then []
  else convertedFrom h heapLimit pageStart (pageStart + pageLiveBytes) (heapLimit + 1) current

/-- Words of a page converted in turn. -/
def convertAll (g : UInt64 → UInt64) (pageStart : Nat) (words : List Nat) (copy : Mem) : Mem :=
  words.foldl (fun copy a => convertWord g copy (a - pageStart)) copy

section Words

variable {h : Heap} {heapStart heapLimit pageStart pageEnd : Nat}

theorem convertObject_eq (current : Nat) (copy : Mem) :
    convertObject h heapStart heapLimit pageStart pageEnd current copy
      = convertAll (toOffset heapStart heapLimit) pageStart
          (convertedObject h pageStart pageEnd current) copy := by
  have hslots : ∀ (slots : List Nat) (copy : Mem),
      slots.foldl (convertObjectSlot heapStart heapLimit pageStart pageEnd current) copy
        = convertAll (toOffset heapStart heapLimit) pageStart
            ((slots.map fun slot => wrap64 (objFieldAddr current slot)).filter fun slotAddress =>
              pageStart ≤ slotAddress ∧ wrap64 (slotAddress + wordSize) ≤ pageEnd) copy := by
    intro slots copy
    unfold convertAll
    rw [List.foldl_filter, List.foldl_map]
    refine List.foldl_ext _ _ _ fun copy' slot _ => ?_
    unfold convertObjectSlot
    simp only [convertSlotPointerToOffset_eq, decide_eq_true_eq]
  unfold convertObject convertedObject
  simp only [convertSlotPointerToOffset_eq, hslots]
  by_cases hclass : pageStart ≤ current
  · rw [if_pos hclass, if_pos hclass]
    split <;> rfl
  · rw [if_neg hclass, if_neg hclass]
    split <;> rfl

theorem convertFrom_eq {fuel current : Nat} {copy copy' : Mem}
    (hsome : convertFrom h heapStart heapLimit pageStart pageEnd fuel current copy = some copy') :
    copy' = convertAll (toOffset heapStart heapLimit) pageStart
      (convertedFrom h heapLimit pageStart pageEnd fuel current) copy := by
  induction fuel generalizing current copy with
  | zero => cases hsome
  | succ fuel ih =>
    rw [convertFrom] at hsome
    rw [convertedFrom]
    split at hsome
    · rw [if_pos ‹_›]
      exact (Option.some.inj hsome).symm
    · rw [if_neg ‹_›, ih hsome, convertObject_eq]
      exact (List.foldl_append).symm

end Words

section Layout

variable {h : Heap} {live : Set Extent} {pageStart pageEnd : Nat}

/-- Of a live object the words on the page are converted. -/
theorem mem_convertedObject (hl : Layout h live) {e : Extent} (he : e ∈ live)
    (hclass : e.addr + 8 ≤ pageEnd) {a : Nat} :
    a ∈ convertedObject h pageStart pageEnd e.addr ↔
      a ∈ objectWords h e ∧ pageStart ≤ a ∧ a + 8 ≤ pageEnd := by
  have hobj := hl.objects e he
  have hheader := hobj.header
  have hbelow := hobj.below
  have hfree := hl.placed.freeLimit
  have hlimit := hl.placed.limitStop
  have hbound := hl.placed.stopBound
  have haddr : ∀ slot, slot < objectSlotCount h.mem e.addr →
      wrap64 (objFieldAddr e.addr slot) = objFieldAddr e.addr slot ∧
        wrap64 (objFieldAddr e.addr slot + wordSize) = objFieldAddr e.addr slot + 8 := by
    intro slot hslot
    unfold objFieldAddr wordSize
    exact ⟨wrap64_of_lt (by omega), wrap64_of_lt (by omega)⟩
  unfold convertedObject objectWords
  rw [List.mem_append]
  constructor
  · rintro (hmem | hmem)
    · split at hmem
      · rw [List.mem_singleton.mp hmem]
        exact ⟨.inl rfl, ‹_›, hclass⟩
      · cases hmem
    · split at hmem
      · next hformat =>
        obtain ⟨hslot, hpage⟩ := List.mem_filter.mp hmem
        obtain ⟨slot, hlt, rfl⟩ := List.mem_map.mp hslot
        have hat := haddr slot (List.mem_range.mp hlt)
        rw [decide_eq_true_eq, hat.1, hat.2] at hpage
        rw [hat.1]
        exact ⟨.inr ⟨hformat, slot, List.mem_range.mp hlt, rfl⟩, hpage⟩
      · cases hmem
  · rintro ⟨rfl | ⟨hformat, slot, hslot, rfl⟩, hlo, hhi⟩
    · exact .inl (by rw [if_pos hlo]; exact List.mem_singleton.mpr rfl)
    · have hat := haddr slot hslot
      refine .inr ?_
      rw [if_pos hformat]
      refine List.mem_filter.mpr ⟨List.mem_map.mpr ⟨slot, List.mem_range.mpr hslot, hat.1⟩, ?_⟩
      rw [decide_eq_true_eq, hat.2]
      exact ⟨hlo, hhi⟩

/-- They ascend. -/
theorem convertedObject_ascends (hl : Layout h live) {e : Extent} (he : e ∈ live) :
    (convertedObject h pageStart pageEnd e.addr).Pairwise (· < ·) := by
  have hobj := hl.objects e he
  have hheader := hobj.header
  have hbelow := hobj.below
  have hfree := hl.placed.freeLimit
  have hlimit := hl.placed.limitStop
  have hbound := hl.placed.stopBound
  have haddr : ∀ slot ∈ List.range (objectSlotCount h.mem e.addr),
      wrap64 (objFieldAddr e.addr slot) = e.addr + 24 + 8 * slot := by
    intro slot hslot
    have hlt := List.mem_range.mp hslot
    unfold objFieldAddr
    exact wrap64_of_lt (by omega)
  unfold convertedObject
  rw [List.map_congr_left haddr]
  refine List.pairwise_append.mpr ⟨?_, ?_, fun a ha b hb => ?_⟩
  · split
    · exact List.pairwise_singleton _ _
    · exact List.Pairwise.nil
  · split
    · refine List.Pairwise.filter _ (List.pairwise_map.mpr ?_)
      exact List.pairwise_lt_range.imp fun hlt => by omega
    · exact List.Pairwise.nil
  · split at ha
    · split at hb
      · obtain ⟨hslot, -⟩ := List.mem_filter.mp hb
        obtain ⟨slot, -, rfl⟩ := List.mem_map.mp hslot
        rw [List.mem_singleton.mp ha]
        omega
      · cases hb
    · cases ha

/-- From an object on a page with a higher one on the page the walk goes on to the object
behind it, which is on the page too. -/
theorem next_of_higher (hl : Layout h live) {p : Nat} {e e' : Extent} (he : e ∈ live)
    (hon : e.OnPage h.om p) (he' : e' ∈ live) (hon' : e'.OnPage h.om p) (hlt : e.addr < e'.addr) :
    ∃ next ∈ live, omNextObject h.om h.mem e.addr = next.addr ∧ next.OnPage h.om p ∧
      next.addr ≤ e'.addr := by
  have hbehind := hl.le_of_addr_lt he he' hlt
  have hpage := hon.2
  have hstarts : h.om.pageOf e'.addr = p :=
    (startsOn_iff (hl.objects e' he').above).mp ⟨by omega, hon'.1⟩
  obtain ⟨hin, hused, next, hnext, haddr, honNext⟩ := next_on_page hl he hon he' hstarts hlt
  refine ⟨next, hnext, ?_, honNext, by omega⟩
  rw [omNextObject_eq hl he hin, if_pos hused, haddr]

/-- **The walk of a page** converts words of live objects on the page, in ascending order,
and from an object on the page on all of them. -/
theorem convertedFrom_words (hl : Layout h live) {p : Nat}
    (hend : pageEnd = min h.om.free (h.om.pageStart (p + 1))) :
    ∀ (fuel : Nat) (e : Extent), e ∈ live → h.om.free < e.addr + fuel →
      (convertedFrom h h.om.free pageStart pageEnd fuel e.addr).Pairwise (· < ·) ∧
      (∀ a ∈ convertedFrom h h.om.free pageStart pageEnd fuel e.addr,
        e.addr ≤ a ∧ a ∈ oopWords h live ∧ pageStart ≤ a ∧ a + 8 ≤ pageEnd) ∧
      (e.OnPage h.om p → ∀ e' ∈ live, e'.OnPage h.om p → e.addr ≤ e'.addr →
        ∀ a ∈ objectWords h e', pageStart ≤ a → a + 8 ≤ pageEnd →
          a ∈ convertedFrom h h.om.free pageStart pageEnd fuel e.addr) := by
  have hplaced := hl.placed
  have hfirst := hplaced.aboveFirstPage
  have hstartAligned := hplaced.startAligned
  have hfreeAligned := hplaced.freeAligned
  intro fuel
  induction fuel with
  | zero =>
    intro e he hfuel
    have hbelow := (hl.objects e he).below
    omega
  | succ fuel ih =>
    intro e he hfuel
    have hobj := hl.objects e he
    have hsize := hobj.nonempty
    have habove := hobj.above
    have hbelow := hobj.below
    have haligned := hobj.aligned
    rw [convertedFrom]
    by_cases hstop : e.addr = 0 ∨ h.om.free ≤ e.addr ∨ pageEnd ≤ e.addr
    · rw [if_pos hstop]
      refine ⟨.nil, fun a ha => absurd ha List.not_mem_nil, fun hon => ?_⟩
      have hbefore := hon.1
      unfold pageBytes at hfirst
      omega
    rw [if_neg hstop]
    have hclass : e.addr + 8 ≤ pageEnd := by
      unfold Om.pageStart pageBytes at hend
      omega
    have hown : ∀ a ∈ convertedObject h pageStart pageEnd e.addr,
        a ∈ objectWords h e ∧ pageStart ≤ a ∧ a + 8 ≤ pageEnd :=
      fun a ha => (mem_convertedObject hl he hclass).mp ha
    have hself : ∀ e' ∈ live, e'.addr = e.addr → e' = e :=
      fun e' he' haddr => hl.eq_of_addr he' he haddr
    rcases omNextObject_live hl he with hzero | ⟨e₂, he₂, haddr₂, hup⟩
    · -- the walk ends here
      have hnone : convertedFrom h h.om.free pageStart pageEnd fuel
          (omNextObject h.om h.mem e.addr) = [] := by
        rw [hzero]
        cases fuel with
        | zero => rfl
        | succ fuel => exact if_pos (.inl rfl)
      rw [hnone, List.append_nil]
      refine ⟨convertedObject_ascends hl he, fun a ha => ?_, fun hon e' he' hon' hle a ha hlo hhi => ?_⟩
      · have hwords := hown a ha
        exact ⟨(objectWords_bounds hl he hwords.1).1, ⟨e, he, hwords.1⟩, hwords.2⟩
      · rcases Nat.eq_or_lt_of_le hle with heq | hlt
        · rw [hself e' he' heq.symm] at ha
          exact (mem_convertedObject hl he hclass).mpr ⟨ha, hlo, hhi⟩
        · obtain ⟨e₃, he₃, haddr₃, -⟩ := next_of_higher hl he hon he' hon' hlt
          have habove₃ := (hl.objects e₃ he₃).above
          unfold pageBytes at hfirst
          omega
    · obtain ⟨hascends, hinside, hall⟩ := ih e₂ he₂ (by omega)
      rw [haddr₂]
      refine ⟨List.pairwise_append.mpr ⟨convertedObject_ascends hl he, hascends, ?_⟩, ?_, ?_⟩
      · intro a ha b hb
        have hbounds := objectWords_bounds hl he (hown a ha).1
        have hle := (hinside b hb).1
        omega
      · intro a ha
        rcases List.mem_append.mp ha with ha | ha
        · have hwords := hown a ha
          exact ⟨(objectWords_bounds hl he hwords.1).1, ⟨e, he, hwords.1⟩, hwords.2⟩
        · obtain ⟨hle, hrest⟩ := hinside a ha
          exact ⟨by omega, hrest⟩
      · intro hon e' he' hon' hle a ha hlo hhi
        rcases Nat.eq_or_lt_of_le hle with heq | hlt
        · rw [hself e' he' heq.symm] at ha
          exact List.mem_append_left _ ((mem_convertedObject hl he hclass).mpr ⟨ha, hlo, hhi⟩)
        · obtain ⟨e₃, he₃, haddr₃, hon₃, hle₃⟩ := next_of_higher hl he hon he' hon' hlt
          have hsame := hl.eq_of_addr he₃ he₂ (haddr₃.symm.trans haddr₂)
          subst hsame
          exact List.mem_append_right _ (hall hon₃ e' he' hon' hle₃ a ha hlo hhi)

/-! ## §3. One page. -/

/-- Where the live bytes of a page end. -/
theorem pageEnd_eq (hp : Placed h.om) {p : Nat}
    (hin : p < checkpointPageCount (h.om.free - h.om.start)) :
    0 < checkpointPageLiveBytes (h.om.free - h.om.start) p ∧
      h.om.pageStart p + checkpointPageLiveBytes (h.om.free - h.om.start) p
        = min h.om.free (h.om.pageStart (p + 1)) := by
  have hstartFree := hp.startFree
  have hpos : p * pageBytes < h.om.free - h.om.start := by
    unfold checkpointPageCount at hin
    split at hin
    · omega
    · unfold pageBytes at *
      omega
  unfold checkpointPageLiveBytes Om.pageStart pageBytes at *
  rw [if_neg (by omega)]
  omega

/-- The object of a converted word on a page is on the page. -/
theorem onPage_of_word (hl : Layout h live) {e : Extent} (he : e ∈ live) {a p : Nat}
    (ha : a ∈ objectWords h e) (hlo : h.om.pageStart p ≤ a) (hhi : a < h.om.pageStart (p + 1)) :
    e.OnPage h.om p := by
  obtain ⟨hle, hend, -⟩ := objectWords_bounds hl he ha
  exact ⟨by omega, by omega⟩

/-- **The words a page converts** are those of live objects that lie on it, in ascending
order. -/
theorem convertedWords_spec (hl : Layout h live) (hent : Entered h.om live) {p : Nat}
    (hin : p < checkpointPageCount (h.om.free - h.om.start)) :
    (convertedWords h (h.om.free - h.om.start) p).Pairwise (· < ·) ∧
      ∀ a, a ∈ convertedWords h (h.om.free - h.om.start) p ↔
        a ∈ oopWords h live ∧ h.om.pageStart p ≤ a ∧
          a + 8 ≤ min h.om.free (h.om.pageStart (p + 1)) := by
  have hstartFree := hl.placed.startFree
  have hcount : p < h.om.pageCount := Nat.lt_of_lt_of_le hin (checkpointPageCount_le hl.placed)
  obtain ⟨hpos, hend⟩ := pageEnd_eq hl.placed hin
  unfold convertedWords
  dsimp only
  rw [hl.placed.pageStart hcount, omPageCoveringObject, if_pos hcount, hend,
    show h.om.start + (h.om.free - h.om.start) = h.om.free by omega]
  by_cases hnone : (h.om.page p).covering = 0
  · rw [if_pos (.inr hnone)]
    refine ⟨.nil, fun a => ⟨fun ha => absurd ha List.not_mem_nil, ?_⟩⟩
    rintro ⟨⟨e, he, ha⟩, hlo, hhi⟩
    have hon := onPage_of_word hl he ha hlo (by omega)
    exact absurd hnone (hent.covering e he p hon).1
  · rw [if_neg (by omega)]
    obtain ⟨e, he, haddr, hpage, hbehind⟩ := hl.covering p hnone
    have hon := (onPage_iff (hl.objects e he).above).mpr ⟨hpage, hbehind⟩
    obtain ⟨hascends, hinside, hall⟩ := @convertedFrom_words _ _ (h.om.pageStart p) _ hl p rfl
      (h.om.free + 1) e he (by omega)
    rw [← haddr]
    refine ⟨hascends, fun a => ⟨fun ha => (hinside a ha).2, ?_⟩⟩
    rintro ⟨⟨e', he', ha⟩, hlo, hhi⟩
    have hon' := onPage_of_word hl he' ha hlo (by omega)
    have hlowest := (hent.covering e' he' p hon').2
    exact hall hon e' he' hon' (by omega) a ha hlo hhi

/-- The page is converted by visits of these words. -/
theorem checkpointPagePointersToOffsets_eq (hl : Layout h live) {p : Nat}
    (hin : p < checkpointPageCount (h.om.free - h.om.start)) (copy : Mem) :
    checkpointPagePointersToOffsets h h.om.start h.om.free copy (h.om.free - h.om.start) p
      = some (convertAll (toOffset h.om.start h.om.free) (h.om.pageStart p)
          (convertedWords h (h.om.free - h.om.start) p) copy) := by
  have hstartFree := hl.placed.startFree
  have hcount : p < h.om.pageCount := Nat.lt_of_lt_of_le hin (checkpointPageCount_le hl.placed)
  unfold checkpointPagePointersToOffsets convertedWords
  dsimp only
  rw [hl.placed.pageStart hcount, omPageCoveringObject, if_pos hcount,
    show h.om.start + (h.om.free - h.om.start) = h.om.free by omega]
  by_cases hnone : checkpointPageLiveBytes (h.om.free - h.om.start) p = 0 ∨
      (h.om.page p).covering = 0
  · rw [if_pos hnone, if_pos hnone]
    rfl
  · rw [if_neg hnone, if_neg hnone]
    obtain ⟨e, he, haddr, -, -⟩ := hl.covering p fun hzero => hnone (.inr hzero)
    obtain ⟨copy', hsome, -⟩ := convertFrom_some h.om.start (h.om.pageStart p)
      (h.om.pageStart p + checkpointPageLiveBytes (h.om.free - h.om.start) p) hl (h.om.free + 1)
      (h.om.page p).covering copy (.inr ⟨e, he, haddr⟩) (.inl (by omega))
    rw [hsome, convertFrom_eq hsome]

/-- **A converted page is its stretch of the converted image.** -/
theorem convertedPage_eq (hl : Layout h live) (hent : Entered h.om live)
    (hstart : h.om.free - h.om.start + 8 < h.om.start) {image : Mem}
    (hword : ∀ a ∈ oopWords h live, load64 image (imageAddr h.om 0 a)
      = toOffset h.om.start h.om.free (load64 h.mem a))
    (hother : ∀ i, h.om.start ≤ i → i < h.om.free →
      (∀ a ∈ oopWords h live, i < a ∨ a + 8 ≤ i) → image (imageAddr h.om 0 i) = h.mem i)
    {p : Nat} (hin : p < checkpointPageCount (h.om.free - h.om.start)) :
    convertedPage h (h.om.free - h.om.start) p
      = some (bytesFrom image (p * pageBytes)
          (checkpointPageLiveBytes (h.om.free - h.om.start) p)) := by
  have hstartFree := hl.placed.startFree
  have hstartAligned := hl.placed.startAligned
  have hfreeAligned := hl.placed.freeAligned
  obtain ⟨hascends, hmem⟩ := convertedWords_spec hl hent hin
  obtain ⟨hpos, hend⟩ := pageEnd_eq hl.placed hin
  generalize hlive : checkpointPageLiveBytes (h.om.free - h.om.start) p = n at hpos hend
  have hpage : h.om.pageStart p = h.om.start + p * pageBytes := rfl
  have hnext : h.om.pageStart (p + 1) = h.om.start + p * pageBytes + 4096 := by
    unfold Om.pageStart pageBytes
    omega
  have haligned8 : p * pageBytes % 8 = 0 := by
    unfold pageBytes
    omega
  have hsource : ∀ i, i < n → copyBytes (fun _ => 0) 0 h.mem (h.om.start + p * pageBytes) n i
      = h.mem (h.om.pageStart p + i) := fun i hi => by
    rw [copyBytes_of_mem _ _ (Nat.zero_le i) (by omega)]
    rfl
  have hcells : ∀ a ∈ convertedWords h (h.om.free - h.om.start) p,
      h.om.pageStart p ≤ a ∧ a + 8 ≤ h.om.pageStart p + n ∧ a % 8 = 0 ∧ a ∈ oopWords h live := by
    intro a ha
    obtain ⟨hoop, hlo, hhi⟩ := (hmem a).mp ha
    obtain ⟨e, he, hwords⟩ := hoop
    exact ⟨hlo, by omega, (objectWords_bounds hl he hwords).2.2, e, he, hwords⟩
  unfold convertedPage
  dsimp only
  rw [hlive, show h.om.start + (h.om.free - h.om.start) = h.om.free by omega,
    checkpointPagePointersToOffsets_eq hl hin, Option.map_some]
  refine congrArg some (bytesFrom_congr fun i hi => ?_)
  generalize hcopy : copyBytes (fun _ => 0) 0 h.mem (h.om.start + p * pageBytes) n = copy at hsource
  have hapart : Apart {b | ∃ a ∈ convertedWords h (h.om.free - h.om.start) p,
      a - h.om.pageStart p = b} := by
    rintro _ ⟨a, ha, rfl⟩ _ ⟨b, hb, rfl⟩
    have hat := hcells a ha
    have hbt := hcells b hb
    omega
  have hpass := (Pass.refl (toOffset h.om.start h.om.free) {b | ∃ a ∈ convertedWords h
    (h.om.free - h.om.start) p, a - h.om.pageStart p = b} copy).foldl
      (f := fun copy a => convertWord (toOffset h.om.start h.om.free) copy (a - h.om.pageStart p))
      (fun a => a - h.om.pageStart p) (convertedWords h (h.om.free - h.om.start) p)
      (fun _ _ => rfl) hapart (fun a _ => toOffset_idem hstart _) fun a ha => ⟨a, ha, rfl⟩
  rw [Nat.zero_add]
  by_cases hcell : ∃ a ∈ convertedWords h (h.om.free - h.om.start) p,
      a ≤ h.om.pageStart p + i ∧ h.om.pageStart p + i < a + 8
  · obtain ⟨a, ha, hle, hlt⟩ := hcell
    obtain ⟨hlo, hhi, -, hoop⟩ := hcells a ha
    have hloaded : load64 copy (a - h.om.pageStart p) = load64 h.mem a := by
      refine load64_congr fun k hk => ?_
      rw [hsource _ (by omega)]
      congr 1
      omega
    have hconverted : load64 (convertAll (toOffset h.om.start h.om.free) (h.om.pageStart p)
        (convertedWords h (h.om.free - h.om.start) p) copy) (a - h.om.pageStart p)
        = load64 image (imageAddr h.om 0 a) := by
      rw [hword a hoop, ← hloaded]
      exact hpass.word _ ⟨a, ha, rfl⟩ (.inr ⟨a, ha, rfl⟩)
    have hbyte := eq_of_load64_eq hconverted (i := h.om.pageStart p + i - a) (by omega)
    have hleft : a - h.om.pageStart p + (h.om.pageStart p + i - a) = i := by omega
    have hright : imageAddr h.om 0 a + (h.om.pageStart p + i - a) = p * pageBytes + i := by
      unfold imageAddr
      omega
    rw [hleft, hright] at hbyte
    exact hbyte
  · have hold : convertAll (toOffset h.om.start h.om.free) (h.om.pageStart p)
        (convertedWords h (h.om.free - h.om.start) p) copy i = copy i := by
      refine hpass.other i ?_
      rintro _ ⟨a, ha, rfl⟩
      by_contra hnot
      have hat := hcells a ha
      exact hcell ⟨a, ha, by omega, by omega⟩
    have hsame := hother (h.om.pageStart p + i) (by omega) (by omega) fun a hoop => by
      by_contra hnot
      obtain ⟨e, he, hwords⟩ := hoop
      have haligned := (objectWords_bounds hl he hwords).2.2
      exact hcell ⟨a, (hmem a).mpr ⟨⟨e, he, hwords⟩, by omega, by omega⟩, by omega, by omega⟩
    have hright : imageAddr h.om 0 (h.om.pageStart p + i) = p * pageBytes + i := by
      unfold imageAddr
      omega
    rw [hright] at hsame
    rw [hold, hsource i hi, hsame]

/-! ## §4. All pages. -/

/-- The live bytes of the first pages, one page behind the other. -/
theorem flatten_pages (m : Mem) (usedSize n : Nat) :
    ((List.range n).map fun p =>
        bytesFrom m (p * pageBytes) (checkpointPageLiveBytes usedSize p)).flatten
      = bytesFrom m 0 (min usedSize (n * pageBytes)) := by
  induction n with
  | zero => rw [Nat.zero_mul, Nat.min_zero]; rfl
  | succ n ih =>
    rw [List.range_succ, List.map_append, List.flatten_append, ih, List.map_singleton,
      List.flatten_singleton]
    unfold checkpointPageLiveBytes
    split
    · rw [show min usedSize (n * pageBytes) = min usedSize ((n + 1) * pageBytes) by
        unfold pageBytes at *
        omega]
      exact List.append_nil _
    · have hfull : min usedSize (n * pageBytes) = n * pageBytes := by omega
      have happend := bytesFrom_append m 0 (n * pageBytes) (min (usedSize - n * pageBytes) pageBytes)
      rw [Nat.zero_add] at happend
      rw [hfull, happend]
      congr 1
      unfold pageBytes at *
      omega

/-- The pages reach over the used range. -/
theorem le_pageCount_mul (usedSize : Nat) : usedSize ≤ checkpointPageCount usedSize * pageBytes := by
  unfold checkpointPageCount
  split
  · omega
  · unfold pageBytes
    omega

/-- **Over all pages each class word and each slot is converted once**, in ascending order. -/
theorem convertedWords_once (hl : Layout h live) (hent : Entered h.om live) :
    ((List.range (checkpointPageCount (h.om.free - h.om.start))).flatMap
        (convertedWords h (h.om.free - h.om.start))).Pairwise (· < ·) ∧
      ∀ a, a ∈ (List.range (checkpointPageCount (h.om.free - h.om.start))).flatMap
          (convertedWords h (h.om.free - h.om.start)) ↔ a ∈ oopWords h live := by
  have hspec := fun p (hp : p ∈ List.range (checkpointPageCount (h.om.free - h.om.start))) =>
    convertedWords_spec hl hent (List.mem_range.mp hp)
  refine ⟨List.pairwise_flatMap.mpr ⟨fun p hp => (hspec p hp).1, ?_⟩, fun a => ⟨fun ha => ?_, ?_⟩⟩
  · refine List.pairwise_lt_range.imp_of_mem fun {p q} hp hq hlt a ha b hb => ?_
    have hbelow := (((hspec p hp).2 a).mp ha).2.2
    have habove := (((hspec q hq).2 b).mp hb).2.1
    have hpages : h.om.pageStart (p + 1) ≤ h.om.pageStart q := by
      unfold Om.pageStart pageBytes
      omega
    omega
  · obtain ⟨p, hp, hmem⟩ := List.mem_flatMap.mp ha
    exact (((hspec p hp).2 a).mp hmem).1
  · intro hoop
    obtain ⟨hlo, hhi⟩ := oopWord_bounds hl hoop
    have haligned : a % 8 = 0 := by
      obtain ⟨e, he, hwords⟩ := hoop
      exact (objectWords_bounds hl he hwords).2.2
    have hstart := hl.placed.startAligned
    have hp : (a - h.om.start) / pageBytes < checkpointPageCount (h.om.free - h.om.start) :=
      page_lt_checkpointPageCount (by omega)
    refine List.mem_flatMap.mpr ⟨_, List.mem_range.mpr hp,
      ((hspec _ (List.mem_range.mpr hp)).2 a).mpr ⟨hoop, ?_, ?_⟩⟩
    · unfold Om.pageStart pageBytes
      omega
    · unfold Om.pageStart pageBytes
      omega

end Layout

/-- **The pages are the image.**  For every heap a program builds on a base above its used
size and 8, the page copies converted page by page are, one behind the other, the copy of
the used range converted as a whole; each class word and each slot of a live object is
converted once, and every other byte is as in the heap. -/
theorem pages_are_image (buffer : Buffer) {s : Arena} (hs : Built buffer s) {usedSize : Nat}
    (hused : s.heap.om.free - s.heap.om.start = usedSize) (hstart : usedSize + 8 < s.heap.om.start)
    (blank : Mem) :
    ∃ image pages, imageLivePointersToOffsetsPaged s.heap
        (copyBytes blank 0 s.heap.mem s.heap.om.start usedSize) usedSize = some image ∧
      convertedPages s.heap usedSize = some pages ∧
      pages.flatten = bytesFrom image 0 usedSize ∧
      ((List.range (checkpointPageCount usedSize)).flatMap (convertedWords s.heap usedSize)).Nodup ∧
      (∀ a, a ∈ (List.range (checkpointPageCount usedSize)).flatMap (convertedWords s.heap usedSize)
        ↔ a ∈ oopWords s.heap s.live) ∧
      (∀ a ∈ oopWords s.heap s.live, load64 image (imageAddr s.heap.om 0 a)
        = toOffset s.heap.om.start s.heap.om.free (load64 s.heap.mem a)) ∧
      ∀ i, s.heap.om.start ≤ i → i < s.heap.om.free →
        (∀ a ∈ oopWords s.heap s.live, i < a ∨ a + 8 ≤ i) →
        image (imageAddr s.heap.om 0 i) = s.heap.mem i := by
  subst hused
  obtain ⟨hl, hent⟩ := hs.tabled
  obtain ⟨h, live⟩ := s
  simp only at hl hent hstart ⊢
  have hstartFree := hl.placed.startFree
  obtain ⟨hascends, hmem⟩ := convertedWords_once hl hent
  have honce : ((List.range (checkpointPageCount (h.om.free - h.om.start))).flatMap
      (convertedWords h (h.om.free - h.om.start))).Nodup :=
    hascends.imp fun hlt => Nat.ne_of_lt hlt
  rcases Nat.eq_or_lt_of_le hstartFree with hempty | hused
  · -- nothing has been allocated
    have hzero : h.om.free - h.om.start = 0 := by omega
    refine ⟨_, [], by rw [imageLivePointersToOffsetsPaged, if_pos (.inr hzero)], ?_, ?_, honce,
      hmem, fun a ha => ?_, fun i hlo hhi => ?_⟩
    · rw [hzero]
      rfl
    · rw [hzero]
      rfl
    · have hbounds := oopWord_bounds hl ha
      omega
    · omega
  · obtain ⟨image, himage, hword, hother⟩ := convert_copy hl hent hused hstart blank
    have hpages : convertedPages h (h.om.free - h.om.start)
        = some ((List.range (checkpointPageCount (h.om.free - h.om.start))).map fun p =>
            bytesFrom image (p * pageBytes)
              (checkpointPageLiveBytes (h.om.free - h.om.start) p)) :=
      mapM_eq_some_iff.mpr (List.forall₂_map_right_iff.mpr (List.forall₂_same.mpr fun p hp =>
        convertedPage_eq hl hent hstart hword hother (List.mem_range.mp hp)))
    have hle := le_pageCount_mul (h.om.free - h.om.start)
    refine ⟨image, _, himage, hpages, ?_, honce, hmem, hword, hother⟩
    rw [flatten_pages, Nat.min_eq_left hle]

/-- The one page of `selfPointer`. -/
theorem selfPointer_pages_are_image :
    ∃ image pages, imageLivePointersToOffsetsPaged selfPointer.heap
        (copyBytes (fun _ => 0) 0 selfPointer.heap.mem selfPointer.heap.om.start 48) 48
          = some image ∧
      convertedPages selfPointer.heap 48 = some pages ∧
      pages.flatten = bytesFrom image 0 48 ∧
      ((List.range (checkpointPageCount 48)).flatMap (convertedWords selfPointer.heap 48)).Nodup ∧
      (∀ a, a ∈ (List.range (checkpointPageCount 48)).flatMap (convertedWords selfPointer.heap 48)
        ↔ a ∈ oopWords selfPointer.heap selfPointer.live) ∧
      (∀ a ∈ oopWords selfPointer.heap selfPointer.live,
        load64 image (imageAddr selfPointer.heap.om 0 a)
          = toOffset selfPointer.heap.om.start selfPointer.heap.om.free
            (load64 selfPointer.heap.mem a)) ∧
      ∀ i, selfPointer.heap.om.start ≤ i → i < selfPointer.heap.om.free →
        (∀ a ∈ oopWords selfPointer.heap selfPointer.live, i < a ∨ a + 8 ≤ i) →
        image (imageAddr selfPointer.heap.om 0 i) = selfPointer.heap.mem i :=
  pages_are_image smallBuffer selfPointer_built (by decide +kernel) (by decide +kernel) fun _ => 0

end LivingObjects.Checkpoint
