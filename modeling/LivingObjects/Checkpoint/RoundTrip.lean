/-
  LivingObjects.Checkpoint.RoundTrip — the paged conversions undo each other.

  `image_live_pointers_to_offsets_paged` rewrites the class words and slots of a copy
  of the heap, `image_offsets_to_live_pointers_paged` those of an image loaded
  elsewhere.  Both walk page by page from the covering object and come to an object
  once for every page it is on.  Both walks are passes over the same words
  (`walk_pass`), and the two conversions are such that a second visit does nothing;
  together they move every pointer into the heap by the distance of the two bases and
  leave everything else alone (`image_round_trip`).
-/
import Mathlib
import LivingObjects.Lib.WordPass
import LivingObjects.ObjectMemory.HeapWalk
import LivingObjects.Checkpoint.Loadable

namespace LivingObjects.Checkpoint

open LivingObjects.Lib
open LivingObjects.VM
open LivingObjects.ObjectMemory

/-! ## §1. From pointers to offsets. -/

section Copy

variable (h : Heap) (heapStart heapLimit : Nat)

/-- The class word and the slots of one object in the copy; `object.c` has its own
`convert_slot_pointer_to_offset`, the same as the checkpoint primitive's. -/
def convertImageObject (current : Nat) (copy : Mem) : Mem :=
  let offset := current - heapStart
  let copy := convertSlotPointerToOffset copy offset heapStart heapLimit
  if objFormat h.mem current ≠ formatBytes then
    (List.range (objectSlotCount h.mem current)).foldl (fun copy slot =>
      convertSlotPointerToOffset copy (objFieldAddr offset slot) heapStart heapLimit) copy
  else copy

/-- The walk of one page; with the fuel spent it has not come to an end. -/
def convertImageFrom (pageEnd : Nat) : Nat → Nat → Mem → Option Mem
  | 0, _, _ => none
  | fuel + 1, current, copy =>
    if current = 0 ∨ heapLimit ≤ current ∨ pageEnd ≤ current then some copy
    else convertImageFrom pageEnd fuel (omNextObject h.om h.mem current)
      (convertImageObject h heapStart heapLimit current copy)

/-- The page loop. -/
def convertImagePages : List Nat → Mem → Option Mem
  | [], copy => some copy
  | pageId :: pages, copy => do
    let copy ← convertImageFrom h heapStart heapLimit
      (omPageStart h.om pageId + omPageUsedBytes h.om pageId) (heapLimit + 1)
      (omPageCoveringObject h.om pageId) copy
    convertImagePages pages copy

end Copy

/-- `image_live_pointers_to_offsets_paged` on a copy of the heap; the copy is indexed
from 0. -/
def imageLivePointersToOffsetsPaged (h : Heap) (copy : Mem) (usedSize : Nat) : Option Mem :=
  if h.om.start = 0 ∨ usedSize = 0 then some copy
  else convertImagePages h h.om.start (h.om.start + usedSize) (List.range h.om.pageCount) copy

/-! ## §2. The two conversions of a word. -/

/-- What `convert_slot_pointer_to_offset` makes of a word. -/
def toOffset (heapStart heapLimit : Nat) (value : Oop) : Oop :=
  if isObjectPtr value = false ∨ value = 0 then value
  else if value.toNat < heapStart ∨ heapLimit ≤ value.toNat then value
  else UInt64.ofNat (value.toNat - heapStart + 8)

/-- What `convert_slot_offset_to_pointer` makes of a word. -/
def toPointer (heapBase heapUsed : Nat) (value : Oop) : Oop :=
  if isObjectPtr value = false then value
  else if value.toNat < 8 ∨ heapUsed < value.toNat then value
  else UInt64.ofNat (value.toNat - 8 + heapBase)

theorem convertSlotPointerToOffset_eq (copy : Mem) (a heapStart heapLimit : Nat) :
    convertSlotPointerToOffset copy a heapStart heapLimit
      = convertWord (toOffset heapStart heapLimit) copy a := by
  unfold convertSlotPointerToOffset convertWord toOffset
  simp only
  split
  · exact (store64_load64_self copy a).symm
  split
  · exact (store64_load64_self copy a).symm
  · rfl

theorem convertSlotOffsetToPointer_eq (m : Mem) (a heapBase heapUsed : Nat) :
    convertSlotOffsetToPointer m a heapBase heapUsed
      = convertWord (toPointer heapBase heapUsed) m a := by
  unfold convertSlotOffsetToPointer convertWord toPointer
  simp only
  split
  · exact (store64_load64_self m a).symm
  split
  · exact (store64_load64_self m a).symm
  · rfl

/-- A word of the heap after the move: a pointer into the used range keeps its
relative offset, everything else stays. -/
def movedWord (h : Heap) (base : Nat) (value : Oop) : Oop :=
  if isObjectPtr value = true ∧ h.om.start ≤ value.toNat ∧ value.toNat < h.om.free then
    UInt64.ofNat (base + (value.toNat - h.om.start))
  else value

/-- A word the conversions are meant for: an immediate, the start of an object, or a
word (such as null) that is neither a heap address nor looks like an offset. -/
def Relocatable (h : Heap) (live : Set Extent) (value : Oop) : Prop :=
  isObjectPtr value = false ∨ (∃ e ∈ live, value.toNat = e.addr) ∨
  ((value.toNat < h.om.start ∨ h.om.free ≤ value.toNat) ∧
    (value.toNat < 8 ∨ h.om.free - h.om.start < value.toNat))

section Words

variable {h : Heap} {live : Set Extent} {base : Nat} {value : Oop}

/-- The two cases of a relocatable word: it stays in both conversions, or it becomes
an offset and then an address of the image. -/
theorem relocatable_cases (base : Nat) (hl : Layout h live) (hv : Relocatable h live value) :
    (toOffset h.om.start h.om.free value = value ∧
      toPointer base (h.om.free - h.om.start) value = value ∧ movedWord h base value = value) ∨
    (isObjectPtr value = true ∧ value ≠ 0 ∧ h.om.start ≤ value.toNat ∧
      value.toNat + 24 ≤ h.om.free ∧ value.toNat % 8 = 0) := by
  by_cases hptr : isObjectPtr value = false
  · refine .inl ⟨?_, ?_, ?_⟩
    · unfold toOffset
      rw [if_pos (.inl hptr)]
    · unfold toPointer
      rw [if_pos hptr]
    · unfold movedWord
      rw [if_neg (by simp [hptr])]
  rcases hv with himm | ⟨e, he, haddr⟩ | ⟨hout, hnot⟩
  · exact absurd himm hptr
  · have hobj := hl.objects e he
    have habove := hobj.above
    have hbelow := hobj.below
    have hsize := hobj.nonempty
    have hfirst := hl.placed.aboveFirstPage
    unfold pageBytes at hfirst
    refine .inr ⟨by simpa using hptr, ?_, by omega, by omega, by rw [haddr]; exact hobj.aligned⟩
    rintro rfl
    simp only [UInt64.toNat_zero] at haddr
    omega
  · refine .inl ⟨?_, ?_, ?_⟩
    · unfold toOffset
      rw [if_pos hout, ite_self]
    · unfold toPointer
      rw [if_neg hptr, if_pos hnot]
    · unfold movedWord
      rw [if_neg (by omega)]

/-- The offset of a pointer into the heap. -/
theorem toOffset_toNat (hl : Layout h live) (hptr : isObjectPtr value = true) (hne : value ≠ 0)
    (hlo : h.om.start ≤ value.toNat) (hhi : value.toNat + 24 ≤ h.om.free) :
    (toOffset h.om.start h.om.free value).toNat = value.toNat - h.om.start + 8 := by
  have hbound := hl.placed.stopBound
  have hfree := hl.placed.freeLimit
  have hlimit := hl.placed.limitStop
  unfold toOffset
  rw [if_neg (by simp [hptr, hne]), if_neg (by omega)]
  exact toNat_ofNat64 (by omega)

/-- Converting to an offset a second time does nothing: an offset lies below the heap. -/
theorem toOffset_idem {heapStart heapLimit : Nat} (hhigh : heapLimit - heapStart + 8 < heapStart)
    (value : Oop) :
    toOffset heapStart heapLimit (toOffset heapStart heapLimit value)
      = toOffset heapStart heapLimit value := by
  by_cases hout : (isObjectPtr value = false ∨ value = 0) ∨
      (value.toNat < heapStart ∨ heapLimit ≤ value.toNat)
  · have hsame : toOffset heapStart heapLimit value = value := by
      unfold toOffset
      split
      · rfl
      · rw [if_pos (hout.resolve_left ‹_›)]
    rw [hsame, hsame]
  · have hbound := value.toNat_lt
    have hnat : (toOffset heapStart heapLimit value).toNat = value.toNat - heapStart + 8 := by
      unfold toOffset
      rw [if_neg fun h => hout (.inl h), if_neg fun h => hout (.inr h)]
      exact toNat_ofNat64 (by omega)
    generalize toOffset heapStart heapLimit value = offset at hnat
    unfold toOffset
    split
    · rfl
    · rw [if_pos (by omega)]

/-- An offset becomes the address with the same distance from the base. -/
theorem toPointer_toOffset (hl : Layout h live) (hv : Relocatable h live value) :
    toPointer base (h.om.free - h.om.start) (toOffset h.om.start h.om.free value)
      = movedWord h base value := by
  rcases relocatable_cases base hl hv with
    ⟨hsame, hsame', hmoved⟩ | ⟨hptr, hne, hlo, hhi, halign⟩
  · rw [hsame, hsame', hmoved]
  · have hnat := toOffset_toNat hl hptr hne hlo hhi
    have hstart := hl.placed.startAligned
    have hptr' : isObjectPtr (toOffset h.om.start h.om.free value) = true := by
      rw [isObjectPtr_iff, hnat]
      omega
    unfold toPointer movedWord
    rw [if_neg (by simp [hptr']), if_neg (by omega), if_pos ⟨hptr, hlo, by omega⟩, hnat]
    congr 1
    omega

/-- Converting to an address a second time does nothing. -/
theorem toPointer_idem (hl : Layout h live) (hhigh : h.om.free - h.om.start < base)
    (hroom : base + (h.om.free - h.om.start) ≤ 2 ^ 63) (hv : Relocatable h live value) :
    toPointer base (h.om.free - h.om.start) (movedWord h base value) = movedWord h base value := by
  rcases relocatable_cases base hl hv with
    ⟨-, hsame', hmoved⟩ | ⟨hptr, hne, hlo, hhi, halign⟩
  · rw [hmoved, hsame']
  · have hnat : (movedWord h base value).toNat = base + (value.toNat - h.om.start) := by
      unfold movedWord
      rw [if_pos ⟨hptr, hlo, by omega⟩]
      exact toNat_ofNat64 (by omega)
    unfold toPointer
    split
    · rfl
    · rw [if_pos (by omega)]

end Words

/-! ## §3. The words that are converted. -/

/-- The class word and the slots of an object. -/
def objectWords (h : Heap) (e : Extent) : Set Nat :=
  {a | a = e.addr ∨ (objFormat h.mem e.addr ≠ formatBytes ∧
    ∃ slot, slot < objectSlotCount h.mem e.addr ∧ objFieldAddr e.addr slot = a)}

/-- Those of all live objects. -/
def oopWords (h : Heap) (live : Set Extent) : Set Nat := {a | ∃ e ∈ live, a ∈ objectWords h e}

/-- Where an address of the heap lies in an image at `base`. -/
def imageAddr (om : Om) (base a : Nat) : Nat := base + (a - om.start)

section Cells

variable {h : Heap} {live : Set Extent} {base : Nat}

theorem objectWords_bounds (hl : Layout h live) {e : Extent} (he : e ∈ live) {a : Nat}
    (ha : a ∈ objectWords h e) : e.addr ≤ a ∧ a + 8 ≤ e.addr + e.bytes ∧ a % 8 = 0 := by
  have hobj := hl.objects e he
  have hheader := hobj.header
  have halign := hobj.aligned
  have hsize := hobj.nonempty
  rcases ha with rfl | ⟨-, slot, hslot, rfl⟩
  · omega
  · unfold objFieldAddr
    omega

theorem imageWords_apart (hl : Layout h live) (base : Nat) :
    Apart (imageAddr h.om base '' oopWords h live) := by
  rintro _ ⟨a, ⟨e, he, ha⟩, rfl⟩ _ ⟨b, ⟨e', he', hb⟩, rfl⟩
  obtain ⟨hlo, -, halign⟩ := objectWords_bounds hl he ha
  obtain ⟨hlo', -, halign'⟩ := objectWords_bounds hl he' hb
  have habove := (hl.objects e he).above
  have habove' := (hl.objects e' he').above
  have hstart := hl.placed.startAligned
  unfold imageAddr
  omega

/-- Bytes outside the converted words of the heap are outside those of the image. -/
theorem outside_image (base : Nat) (hl : Layout h live) {i : Nat} (hi : h.om.start ≤ i)
    (hout : ∀ a ∈ oopWords h live, i < a ∨ a + 8 ≤ i) :
    ∀ a ∈ imageAddr h.om base '' oopWords h live,
      imageAddr h.om base i < a ∨ a + 8 ≤ imageAddr h.om base i := by
  rintro _ ⟨a, ⟨e, he, ha⟩, rfl⟩
  have habove := (hl.objects e he).above
  obtain ⟨hlo, -, -⟩ := objectWords_bounds hl he ha
  have hside := hout a ⟨e, he, ha⟩
  unfold imageAddr
  omega

/-- Format and size words are not converted. -/
theorem header_outside (hl : Layout h live) {e : Extent} (he : e ∈ live) {i : Nat}
    (hlo : e.addr + 8 ≤ i) (hhi : i < e.addr + 24) :
    ∀ a ∈ oopWords h live, i < a ∨ a + 8 ≤ i := by
  rintro a ⟨e', he', ha⟩
  obtain ⟨hclass, hbody⟩ := plain_header hl he hlo hhi e' he'
  have hheader' := (hl.objects e' he').header
  rcases ha with rfl | ⟨-, slot, hslot, rfl⟩
  · omega
  · unfold objFieldAddr
    omega

/-- A pass over an image leaves the headers alone. -/
theorem HeadersAt.pass (hl : Layout h live) {g : UInt64 → UInt64} {m m' : Mem} {done : Set Nat}
    (hm : HeadersAt h live base m)
    (hpass : Pass g (imageAddr h.om base '' oopWords h live) m done m') :
    HeadersAt h live base m' := by
  intro e he i hlo hhi
  have habove := (hl.objects e he).above
  have hout := outside_image base hl (show h.om.start ≤ e.addr + i by omega)
    (header_outside hl he (by omega) (by omega))
  have haddr : base + (e.addr - h.om.start) + i = imageAddr h.om base (e.addr + i) := by
    unfold imageAddr
    omega
  rw [← hm e he i hlo hhi, haddr]
  exact hpass.other _ hout

end Cells

/-! ## §4. One object. -/

/-- Rewriting the words of one object in an image at `base`. -/
def passObject (h : Heap) (base : Nat) (g : UInt64 → UInt64) (e : Extent) (c : Mem) : Mem :=
  let c := convertWord g c (imageAddr h.om base e.addr)
  if objFormat h.mem e.addr ≠ formatBytes then
    (List.range (objectSlotCount h.mem e.addr)).foldl (fun c slot =>
      convertWord g c (imageAddr h.om base (objFieldAddr e.addr slot))) c
  else c

section Object

variable {h : Heap} {live : Set Extent} {base : Nat} {g : UInt64 → UInt64} {m c : Mem}

theorem passObject_pass (hl : Layout h live)
    (hg : ∀ a ∈ imageAddr h.om base '' oopWords h live, g (g (load64 m a)) = g (load64 m a))
    {e : Extent} (he : e ∈ live) {done : Set Nat}
    (hpass : Pass g (imageAddr h.om base '' oopWords h live) m done c) :
    Pass g (imageAddr h.om base '' oopWords h live) m
      (done ∪ imageAddr h.om base '' objectWords h e) (passObject h base g e c) := by
  have hapart := imageWords_apart hl base
  have hclass := hpass.convert hapart hg (a := imageAddr h.om base e.addr)
    ⟨e.addr, ⟨e, he, .inl rfl⟩, rfl⟩
  unfold passObject
  simp only
  split
  · next hformat =>
    have hslots := hclass.foldl
      (fun slot => imageAddr h.om base (objFieldAddr e.addr slot))
      (List.range (objectSlotCount h.mem e.addr)) (fun _ _ => rfl) hapart hg (fun slot hslot =>
        ⟨_, ⟨e, he, .inr ⟨hformat, slot, List.mem_range.mp hslot, rfl⟩⟩, rfl⟩)
    refine hslots.mono ?_
    rintro a (ha | ⟨b, rfl | ⟨-, slot, hslot, rfl⟩, rfl⟩)
    · exact .inl (.inr ha)
    · exact .inl (.inl rfl)
    · exact .inr ⟨slot, List.mem_range.mpr hslot, rfl⟩
  · next hformat =>
    refine hclass.mono ?_
    rintro a (ha | ⟨b, rfl | ⟨hslots, -⟩, rfl⟩)
    · exact .inr ha
    · exact .inl rfl
    · exact absurd hslots hformat

/-- The first conversion visits an object. -/
theorem convertImageObject_eq (hl : Layout h live) {e : Extent} (he : e ∈ live) (c : Mem) :
    convertImageObject h h.om.start h.om.free e.addr c
      = passObject h 0 (toOffset h.om.start h.om.free) e c := by
  have habove := (hl.objects e he).above
  have hclass : imageAddr h.om 0 e.addr = e.addr - h.om.start := Nat.zero_add _
  have hslot : ∀ slot, imageAddr h.om 0 (objFieldAddr e.addr slot)
      = objFieldAddr (e.addr - h.om.start) slot := by
    intro slot
    unfold imageAddr objFieldAddr
    omega
  unfold convertImageObject passObject
  simp only [convertSlotPointerToOffset_eq, hclass, hslot]

/-- The second conversion visits an object. -/
theorem relocateObject_eq (hl : Layout h live) (hm : HeadersAt h live base c)
    (hroom : base + (h.om.free - h.om.start) ≤ 2 ^ 63) {e : Extent} (he : e ∈ live) :
    relocateObject base (h.om.free - h.om.start) c (base + (e.addr - h.om.start))
      = passObject h base (toPointer base (h.om.free - h.om.start)) e c := by
  have hobj := hl.objects e he
  have habove := hobj.above
  have hbelow := hobj.below
  have hheader := hobj.header
  have hformat : objFormat (convertSlotOffsetToPointer c (base + (e.addr - h.om.start)) base
      (h.om.free - h.om.start)) (base + (e.addr - h.om.start)) = objFormat h.mem e.addr := by
    rw [← hm.format he]
    apply load64_congr
    intro i hi
    exact convertSlotOffsetToPointer_of_out c (by omega)
  unfold relocateObject passObject
  simp only [hformat, hm.slotCount he]
  rw [convertSlotOffsetToPointer_eq]
  split
  · refine List.foldl_ext _ _ _ fun c' slot hslot => ?_
    have hrange := List.mem_range.mp hslot
    have haddr : wrap64 (objFieldAddr (base + (e.addr - h.om.start)) slot)
        = imageAddr h.om base (objFieldAddr e.addr slot) := by
      unfold objFieldAddr imageAddr
      rw [wrap64_of_lt (by omega)]
      omega
    rw [haddr, convertSlotOffsetToPointer_eq]
  · rfl

end Object

/-! ## §5. One page. -/

section Walk

variable {h : Heap} {live : Set Extent}

/-- A live object with another one above it that starts on the same page is followed
at once by a live object on the page. -/
theorem next_on_page (hl : Layout h live) {p : Nat} {e e' : Extent} (he : e ∈ live)
    (hon : e.OnPage h.om p) (he' : e' ∈ live) (hstarts : h.om.pageOf e'.addr = p)
    (hlt : e.addr < e'.addr) :
    e.addr + e.bytes < h.om.free ∧
    (e.addr + e.bytes - h.om.start) % pageBytes
      < (h.om.page (h.om.pageOf (e.addr + e.bytes))).used ∧
    ∃ next ∈ live, next.addr = e.addr + e.bytes ∧ next.OnPage h.om p := by
  have hsize := (hl.objects e he).nonempty
  have habove := (hl.objects e he).above
  have hsize' := (hl.objects e' he').nonempty
  have hbelow' := (hl.objects e' he').below
  have hbehind := hl.le_of_addr_lt he he' hlt
  have hpage : h.om.pageOf (e.addr + e.bytes) = h.om.pageOf e'.addr := by
    unfold Extent.OnPage Om.pageOf Om.pageStart pageBytes at *
    omega
  have hfilled := hl.filled he' ⟨Nat.le_refl _, by omega⟩
    (show h.om.start ≤ e.addr + e.bytes by omega) hbehind hpage
  have hused := (hl.covered (e.addr + e.bytes) (by omega)).mp hfilled
  obtain ⟨next, hnext, haddr⟩ := live_at_end hl he hused
  refine ⟨by omega, hused, next, hnext, haddr, ?_⟩
  have hsizeNext := (hl.objects next hnext).nonempty
  have honNext := onPage_of_holds (hl.objects next hnext).above
    (show next.Holds next.addr from ⟨Nat.le_refl _, by omega⟩)
  rw [haddr, hpage, hstarts] at honNext
  exact honNext

/-- An object on a page starts below the end of its used bytes. -/
theorem on_page_below_used (hl : Layout h live) {p : Nat} {e : Extent} (he : e ∈ live)
    (hon : e.OnPage h.om p) : e.addr < h.om.pageStart p + (h.om.page p).used := by
  have hsize := (hl.objects e he).nonempty
  have habove := (hl.objects e he).above
  obtain ⟨b, hb, hpage, htop⟩ := exists_top (by omega) hon
  have hlo := hb.1
  have hused := (hl.covered b (by omega)).mp ⟨e, he, hb⟩
  rw [hpage] at hused
  unfold Om.pageOf Om.pageStart pageBytes at *
  omega

/-- **The walk of a page is a pass** over the words of the objects on it.  The walk
goes from object to object through some image of the heap; what it visits and where
it goes next is the caller's. -/
theorem walk_pass (hl : Layout h live) {base : Nat} {g : UInt64 → UInt64} {m : Mem} {p : Nat}
    (place : Nat → Nat) (walk : Nat → Nat → Mem → Option Mem) (stop : Nat → Prop)
    [DecidablePred stop] (visit : Nat → Mem → Mem) (next : Mem → Nat → Nat)
    (hwalk : ∀ fuel current c, walk (fuel + 1) current c
      = if stop current then some c else walk fuel (next (visit current c) current) (visit current c))
    (hvisit : ∀ e ∈ live, ∀ c done,
      Pass g (imageAddr h.om base '' oopWords h live) m done c →
      Pass g (imageAddr h.om base '' oopWords h live) m
        (done ∪ imageAddr h.om base '' objectWords h e) (visit (place e.addr) c))
    (hnext : ∀ e ∈ live, ∀ c done,
      Pass g (imageAddr h.om base '' oopWords h live) m done c →
      stop (next c (place e.addr)) ∨
        ∃ e' ∈ live, next c (place e.addr) = place e'.addr ∧ e.addr + e.bytes ≤ e'.addr)
    (hfollow : ∀ e ∈ live, ∀ c done,
      Pass g (imageAddr h.om base '' oopWords h live) m done c →
      e.addr + e.bytes < h.om.free →
      (e.addr + e.bytes - h.om.start) % pageBytes
        < (h.om.page (h.om.pageOf (e.addr + e.bytes))).used →
      next c (place e.addr) = place (e.addr + e.bytes))
    (hgoes : ∀ e ∈ live, e.OnPage h.om p → ¬ stop (place e.addr))
    (hplace : ∀ e ∈ live, ∀ e' ∈ live, place e.addr = place e'.addr → e.addr = e'.addr) :
    ∀ (fuel : Nat) (e : Extent) (c : Mem) (done : Set Nat), e ∈ live → h.om.free < e.addr + fuel →
      Pass g (imageAddr h.om base '' oopWords h live) m done c →
      ∃ c' done', walk fuel (place e.addr) c = some c' ∧ done ⊆ done' ∧
        Pass g (imageAddr h.om base '' oopWords h live) m done' c' ∧
        (e.OnPage h.om p → ∀ e' ∈ live, h.om.pageOf e'.addr = p → e.addr ≤ e'.addr →
          imageAddr h.om base '' objectWords h e' ⊆ done') := by
  intro fuel
  induction fuel with
  | zero =>
    intro e c done he hfuel
    have hbelow := (hl.objects e he).below
    omega
  | succ fuel ih =>
    intro e c done he hfuel hpass
    rw [hwalk]
    by_cases hstop : stop (place e.addr)
    · rw [if_pos hstop]
      exact ⟨c, done, rfl, subset_rfl, hpass, fun hon => absurd hstop (hgoes e he hon)⟩
    rw [if_neg hstop]
    have hsize := (hl.objects e he).nonempty
    have hbelow := (hl.objects e he).below
    have hvisited := hvisit e he c done hpass
    -- the object itself is the lowest one the walk still has to come to
    have hself : ∀ e' ∈ live, e'.addr = e.addr → e' = e :=
      fun e' he' haddr => hl.eq_of_addr he' he haddr
    rcases hnext e he _ _ hvisited with hend | ⟨e₂, he₂, haddr₂, hup⟩
    · obtain ⟨fuel, rfl⟩ : ∃ k, fuel = k + 1 := ⟨fuel - 1, by omega⟩
      refine ⟨_, _, by rw [hwalk, if_pos hend], Set.subset_union_left, hvisited, ?_⟩
      intro hon e' he' hstarts hge
      rcases Nat.eq_or_lt_of_le hge with heq | hlt
      · rw [hself e' he' heq.symm]
        exact Set.subset_union_right
      · obtain ⟨hin, hused, e₂, he₂, haddr, hon₂⟩ := next_on_page hl he hon he' hstarts hlt
        rw [hfollow e he _ _ hvisited hin hused, ← haddr] at hend
        exact absurd hend (hgoes e₂ he₂ hon₂)
    · rw [haddr₂]
      obtain ⟨c', done', hsome, hsub, hpass', hcover⟩ := ih e₂ _ _ he₂ (by omega) hvisited
      refine ⟨c', done', hsome, fun a ha => hsub (.inl ha), hpass', ?_⟩
      intro hon e' he' hstarts hge
      rcases Nat.eq_or_lt_of_le hge with heq | hlt
      · rw [hself e' he' heq.symm]
        exact fun a ha => hsub (.inr ha)
      · obtain ⟨hin, hused, e₃, he₃, haddr, hon₃⟩ := next_on_page hl he hon he' hstarts hlt
        rw [hfollow e he _ _ hvisited hin hused, ← haddr] at haddr₂
        have hsame := hl.eq_of_addr he₃ he₂ (hplace e₃ he₃ e₂ he₂ haddr₂)
        subst hsame
        have hbehind := hl.le_of_addr_lt he he' hlt
        exact hcover hon₃ e' he' hstarts (by omega)

/-- The words of the objects that start on a page. -/
def pageWords (h : Heap) (live : Set Extent) (p : Nat) : Set Nat :=
  {a | ∃ e ∈ live, h.om.pageOf e.addr = p ∧ a ∈ objectWords h e}

/-- The covering object of a page, from which the walks start: there is none when
nothing is on the page, and else it is the lowest. -/
theorem covering_cases (hl : Layout h live) (hent : Entered h.om live) (p : Nat) :
    ((h.om.page p).covering = 0 ∧ pageWords h live p = ∅) ∨
    ∃ e ∈ live, (h.om.page p).covering = e.addr ∧ e.OnPage h.om p ∧
      ∀ e' ∈ live, h.om.pageOf e'.addr = p → e.addr ≤ e'.addr := by
  have hstarts : ∀ e' ∈ live, h.om.pageOf e'.addr = p → e'.OnPage h.om p := by
    intro e' he' hpage
    have hsize' := (hl.objects e' he').nonempty
    rw [← hpage]
    exact onPage_of_holds (hl.objects e' he').above ⟨Nat.le_refl _, by omega⟩
  by_cases hnone : (h.om.page p).covering = 0
  · refine .inl ⟨hnone, Set.eq_empty_iff_forall_notMem.mpr ?_⟩
    rintro a ⟨e', he', hpage, -⟩
    exact (hent.covering e' he' p (hstarts e' he' hpage)).1 hnone
  · obtain ⟨e, he, haddr, hpage, hend⟩ := hl.covering p hnone
    refine .inr ⟨e, he, haddr.symm, (onPage_iff (hl.objects e he).above).mpr ⟨hpage, hend⟩, ?_⟩
    intro e' he' hpage'
    rw [haddr]
    exact (hent.covering e' he' p (hstarts e' he' hpage')).2

/-- **The first conversion of a page** is a pass that comes to all objects starting on
the page. -/
theorem convertImageFrom_pass (hl : Layout h live) (hent : Entered h.om live) {m c : Mem}
    (hg : ∀ a ∈ imageAddr h.om 0 '' oopWords h live,
      toOffset h.om.start h.om.free (toOffset h.om.start h.om.free (load64 m a))
        = toOffset h.om.start h.om.free (load64 m a)) {done : Set Nat}
    (hpass : Pass (toOffset h.om.start h.om.free) (imageAddr h.om 0 '' oopWords h live) m done c)
    {p : Nat} (hp : p < h.om.pageCount) :
    ∃ c' done', convertImageFrom h h.om.start h.om.free
        (omPageStart h.om p + omPageUsedBytes h.om p) (h.om.free + 1)
        (omPageCoveringObject h.om p) c = some c' ∧
      done ∪ imageAddr h.om 0 '' pageWords h live p ⊆ done' ∧
      Pass (toOffset h.om.start h.om.free) (imageAddr h.om 0 '' oopWords h live) m done' c' := by
  rw [hl.placed.pageStart hp, omPageUsedBytes, if_pos hp, omPageCoveringObject, if_pos hp]
  rcases covering_cases hl hent p with ⟨hnone, hempty⟩ | ⟨e, he, hcover, hon, hlowest⟩
  · rw [hnone, hempty, Set.image_empty, Set.union_empty]
    exact ⟨c, done, by rw [convertImageFrom, if_pos (.inl rfl)], subset_rfl, hpass⟩
  rw [hcover]
  have hfirst := hl.placed.aboveFirstPage
  unfold pageBytes at hfirst
  have habove := (hl.objects e he).above
  obtain ⟨c', done', hsome, hsub, hpass', hall⟩ := walk_pass hl (p := p) (fun a => a)
    (convertImageFrom h h.om.start h.om.free (h.om.pageStart p + (h.om.page p).used))
    (fun current => current = 0 ∨ h.om.free ≤ current ∨
      h.om.pageStart p + (h.om.page p).used ≤ current)
    (convertImageObject h h.om.start h.om.free)
    (fun _ current => omNextObject h.om h.mem current)
    (fun fuel current c => rfl)
    (fun e he c done hpass => by
      rw [convertImageObject_eq hl he]
      exact passObject_pass hl hg he hpass)
    (fun e he c done _ => by
      rcases omNextObject_live hl he with hzero | ⟨e', he', haddr, hup⟩
      · exact .inl (.inl hzero)
      · exact .inr ⟨e', he', haddr, hup⟩)
    (fun e he c done _ hin hused => by
      show omNextObject h.om h.mem e.addr = e.addr + e.bytes
      rw [omNextObject_eq hl he hin, if_pos hused])
    (fun e he hon => by
      have habove := (hl.objects e he).above
      have hbelow := (hl.objects e he).below
      have hsize := (hl.objects e he).nonempty
      have hend := on_page_below_used hl he hon
      omega)
    (fun e he e' he' heq => heq)
    (h.om.free + 1) e c done he (by omega) hpass
  refine ⟨c', done', hsome, ?_, hpass'⟩
  rintro a (ha | ⟨b, ⟨e', he', hpage, hb⟩, rfl⟩)
  · exact hsub ha
  · exact hall hon e' he' hpage (hlowest e' he' hpage) ⟨b, hb, rfl⟩

/-- **The second conversion of a page** is a pass that comes to all objects starting
on the page. -/
theorem relocateFrom_pass (hl : Layout h live) (hent : Entered h.om live) {base : Nat}
    (hhigh : h.om.free - h.om.start < base) (hroom : base + (h.om.free - h.om.start) ≤ 2 ^ 63)
    (fresh : List (List UInt8)) {m c : Mem} (hm : HeadersAt h live base m)
    (hg : ∀ a ∈ imageAddr h.om base '' oopWords h live,
      toPointer base (h.om.free - h.om.start) (toPointer base (h.om.free - h.om.start) (load64 m a))
        = toPointer base (h.om.free - h.om.start) (load64 m a)) {done : Set Nat}
    (hpass : Pass (toPointer base (h.om.free - h.om.start))
      (imageAddr h.om base '' oopWords h live) m done c)
    {p : Nat} (hp : p < checkpointPageCount (h.om.free - h.om.start)) :
    ∃ c' done', relocateFrom base (h.om.free - h.om.start)
        (checkpointTables h h.om.start (checkpointPageCount (h.om.free - h.om.start)) fresh)
        (checkpointPageCount (h.om.free - h.om.start))
        (wrap64 (p * pageBytes + ((checkpointTables h h.om.start
          (checkpointPageCount (h.om.free - h.om.start)) fresh).used.getD p 0).toNat))
        (h.om.free - h.om.start + 1)
        (imageObject base ((checkpointTables h h.om.start
          (checkpointPageCount (h.om.free - h.om.start)) fresh).covering.getD p 0)) c = some c' ∧
      done ∪ imageAddr h.om base '' pageWords h live p ⊆ done' ∧
      Pass (toPointer base (h.om.free - h.om.start)) (imageAddr h.om base '' oopWords h live) m
        done' c' := by
  have hpl := hl.placed
  have hstartFree := hpl.startFree
  have hbound := hpl.stopBound
  have hlimit := hpl.limitStop
  have hfree := hpl.freeLimit
  have hle := checkpointPageCount_le hpl
  have hpages := hpl.pages
  have husedBound := hl.usedBound p
  have hpageEnd : wrap64 (p * pageBytes + (h.om.page p).used) = p * pageBytes + (h.om.page p).used := by
    unfold pageBytes at *
    exact wrap64_of_lt (by omega)
  rw [checkpointTables_used hl hp, checkpointTables_covering hl _ hp, hpageEnd]
  rcases covering_cases hl hent p with ⟨hnone, hempty⟩ | ⟨e, he, hcover, hon, hlowest⟩
  · -- the null covering object is encoded as an address outside the image
    rw [hnone, hempty, Set.image_empty, Set.union_empty]
    refine ⟨c, done, ?_, subset_rfl, hpass⟩
    rw [relocateFrom, if_pos]
    rcases imageObject_null base (h.om.free - h.om.start) hpl.aboveFirstPage (by omega) (by omega)
      (by omega) with hout | hzero
    · exact .inr (.inl hout)
    · exact .inl hzero
  have hobj := hl.objects e he
  have habove := hobj.above
  have hbelow := hobj.below
  have hsize := hobj.nonempty
  have halign := hobj.aligned
  rw [hcover, imageObject_live (by omega) habove (by omega) (by omega)]
  obtain ⟨c', done', hsome, hsub, hpass', hall⟩ := walk_pass hl (p := p)
    (fun a => base + (a - h.om.start))
    (relocateFrom base (h.om.free - h.om.start)
      (checkpointTables h h.om.start (checkpointPageCount (h.om.free - h.om.start)) fresh)
      (checkpointPageCount (h.om.free - h.om.start)) (p * pageBytes + (h.om.page p).used))
    (fun current => current = 0 ∨ h.om.free - h.om.start ≤ imageOffset base current ∨
      p * pageBytes + (h.om.page p).used ≤ imageOffset base current)
    (fun current c => relocateObject base (h.om.free - h.om.start) c current)
    (fun c current => nextImageObject base (h.om.free - h.om.start)
      (checkpointTables h h.om.start (checkpointPageCount (h.om.free - h.om.start)) fresh)
      (checkpointPageCount (h.om.free - h.om.start)) c current)
    (fun fuel current c => rfl)
    (fun e he c done hpass => by
      show Pass _ _ _ _ (relocateObject base (h.om.free - h.om.start) c
        (base + (e.addr - h.om.start)))
      rw [relocateObject_eq hl (hm.pass hl hpass) hroom he]
      exact passObject_pass hl hg he hpass)
    (fun e he c done hpass => by
      rcases nextImageObject_live hl hroom (hm.pass hl hpass) fresh he rfl with
        hzero | ⟨e', he', haddr, hup⟩
      · exact .inl (.inl hzero)
      · exact .inr ⟨e', he', haddr, hup⟩)
    (fun e he c done hpass hin hused => by
      have habove := (hl.objects e he).above
      show nextImageObject base _ _ _ c (base + (e.addr - h.om.start)) = _
      unfold nextImageObject
      simp only
      rw [followingImageObject_eq hl hroom (hm.pass hl hpass) he hin, if_pos hused,
        imageOffset_add (by omega), if_neg (by omega)])
    (fun e he hon => by
      have habove := (hl.objects e he).above
      have hbelow := (hl.objects e he).below
      have hsize := (hl.objects e he).nonempty
      have hend := on_page_below_used hl he hon
      simp only [imageOffset_add (show e.addr - h.om.start < 2 ^ 64 by omega)]
      unfold Om.pageStart at hend
      omega)
    (fun e he e' he' heq => by
      have habove := (hl.objects e he).above
      have habove' := (hl.objects e' he').above
      have heq : base + (e.addr - h.om.start) = base + (e'.addr - h.om.start) := heq
      omega)
    (h.om.free - h.om.start + 1) e c done he (by omega) hpass
  refine ⟨c', done', hsome, ?_, hpass'⟩
  rintro a (ha | ⟨b, ⟨e', he', hpage, hb⟩, rfl⟩)
  · exact hsub ha
  · exact hall hon e' he' hpage (hlowest e' he' hpage) ⟨b, hb, rfl⟩

/-! ## §6. All pages. -/

/-- The first conversion is a pass over the words of the pages it goes through. -/
theorem convertImagePages_pass (hl : Layout h live) (hent : Entered h.om live) {m : Mem}
    (hg : ∀ a ∈ imageAddr h.om 0 '' oopWords h live,
      toOffset h.om.start h.om.free (toOffset h.om.start h.om.free (load64 m a))
        = toOffset h.om.start h.om.free (load64 m a)) :
    ∀ (pages : List Nat) (c : Mem) (done : Set Nat), (∀ p ∈ pages, p < h.om.pageCount) →
      Pass (toOffset h.om.start h.om.free) (imageAddr h.om 0 '' oopWords h live) m done c →
      ∃ c' done', convertImagePages h h.om.start h.om.free pages c = some c' ∧ done ⊆ done' ∧
        (∀ p ∈ pages, imageAddr h.om 0 '' pageWords h live p ⊆ done') ∧
        Pass (toOffset h.om.start h.om.free) (imageAddr h.om 0 '' oopWords h live) m done' c' := by
  intro pages
  induction pages with
  | nil => exact fun c done _ hpass => ⟨c, done, rfl, subset_rfl, fun p hp => (nomatch hp), hpass⟩
  | cons p pages ih =>
    intro c done hin hpass
    obtain ⟨c₁, done₁, hfirst, hsub₁, hpass₁⟩ :=
      convertImageFrom_pass hl hent hg hpass (hin p List.mem_cons_self)
    obtain ⟨c', done', hrest, hsub, hall, hpass'⟩ :=
      ih c₁ done₁ (fun q hq => hin q (List.mem_cons_of_mem p hq)) hpass₁
    refine ⟨c', done', ?_, fun a ha => hsub (hsub₁ (.inl ha)), ?_, hpass'⟩
    · rw [convertImagePages, hfirst]
      exact hrest
    · intro q hq
      rcases List.mem_cons.mp hq with rfl | hq
      · exact fun a ha => hsub (hsub₁ (.inr ha))
      · exact hall q hq

/-- The second conversion is a pass over the words of the pages it goes through. -/
theorem relocatePages_pass (hl : Layout h live) (hent : Entered h.om live) {base : Nat}
    (hhigh : h.om.free - h.om.start < base) (hroom : base + (h.om.free - h.om.start) ≤ 2 ^ 63)
    (fresh : List (List UInt8)) {m : Mem} (hm : HeadersAt h live base m)
    (hg : ∀ a ∈ imageAddr h.om base '' oopWords h live,
      toPointer base (h.om.free - h.om.start) (toPointer base (h.om.free - h.om.start) (load64 m a))
        = toPointer base (h.om.free - h.om.start) (load64 m a)) :
    ∀ (remaining pageId : Nat) (c : Mem) (done : Set Nat),
      pageId + remaining = checkpointPageCount (h.om.free - h.om.start) →
      Pass (toPointer base (h.om.free - h.om.start)) (imageAddr h.om base '' oopWords h live) m
        done c →
      ∃ c' done', relocatePages base (h.om.free - h.om.start)
          (checkpointTables h h.om.start (checkpointPageCount (h.om.free - h.om.start)) fresh)
          (checkpointPageCount (h.om.free - h.om.start)) remaining pageId c = some c' ∧
        done ⊆ done' ∧
        (∀ p, pageId ≤ p → p < checkpointPageCount (h.om.free - h.om.start) →
          imageAddr h.om base '' pageWords h live p ⊆ done') ∧
        Pass (toPointer base (h.om.free - h.om.start)) (imageAddr h.om base '' oopWords h live) m
          done' c' := by
  intro remaining
  induction remaining with
  | zero =>
    exact fun pageId c done hcount hpass =>
      ⟨c, done, rfl, subset_rfl, fun p hlo hhi => by omega, hpass⟩
  | succ remaining ih =>
    intro pageId c done hcount hpass
    have hpos : pageId * pageBytes < h.om.free - h.om.start := by
      have hlt : pageId < checkpointPageCount (h.om.free - h.om.start) := by omega
      unfold checkpointPageCount at hlt
      split at hlt
      · omega
      · unfold pageBytes at *
        omega
    rw [relocatePages, if_neg (by omega)]
    obtain ⟨c₁, done₁, hfirst, hsub₁, hpass₁⟩ := relocateFrom_pass hl hent hhigh hroom fresh hm hg
      hpass (show pageId < checkpointPageCount (h.om.free - h.om.start) by omega)
    obtain ⟨c', done', hrest, hsub, hall, hpass'⟩ := ih (pageId + 1) c₁ done₁ (by omega) hpass₁
    refine ⟨c', done', ?_, fun a ha => hsub (hsub₁ (.inl ha)), ?_, hpass'⟩
    · rw [hfirst]
      exact hrest
    · intro p hlo hhi
      rcases Nat.eq_or_lt_of_le hlo with rfl | hlt
      · exact fun a ha => hsub (hsub₁ (.inr ha))
      · exact hall p (by omega) hhi

end Walk

/-! ## §7. The round trip. -/

/-- The heaps a program builds on a buffer: it allocates, and stores into objects in
any way that leaves their formats and sizes alone. -/
inductive Built (buffer : Buffer) : Arena → Prop
  | init (m : Mem) : Built buffer (Arena.initial buffer m)
  | alloc {s : Arena} (hs : Built buffer s) (req : AllocRequest) : Built buffer (s.step (.alloc req))
  | store {s : Arena} (hs : Built buffer s) (m : Mem)
      (hheader : ∀ e ∈ s.live, objFormat m e.addr = objFormat s.heap.mem e.addr ∧
        objSize m e.addr = objSize s.heap.mem e.addr) :
      Built buffer { s with heap := { s.heap with mem := m } }

theorem Built.tabled {buffer : Buffer} {s : Arena} (hs : Built buffer s) : s.Tabled := by
  induction hs with
  | init m => exact Arena.initial_tabled buffer m
  | alloc hs req ih => exact ih.sweep (.alloc req) trivial
  | store hs m hheader ih =>
    refine ⟨ih.layout.congr (SameButDirty.refl _) fun e he => ?_, ih.entered⟩
    obtain ⟨hformat, hsize⟩ := hheader e he
    exact objectSlotCount_congr hformat hsize

/-- The image at `base` is the heap moved there. -/
structure Moved (s : Arena) (base : Nat) (m : Mem) : Prop where
  /-- Class words and slots: a pointer into the heap has the same relative offset. -/
  word : ∀ a ∈ oopWords s.heap s.live,
    load64 m (imageAddr s.heap.om base a) = movedWord s.heap base (load64 s.heap.mem a)
  /-- Everything else is the same, byte by byte. -/
  other : ∀ i, s.heap.om.start ≤ i → i < s.heap.om.free →
    (∀ a ∈ oopWords s.heap s.live, i < a ∨ a + 8 ≤ i) →
    m (imageAddr s.heap.om base i) = s.heap.mem i

section Trip

variable {h : Heap} {live : Set Extent}

/-- A converted word lies in the used range. -/
theorem oopWord_bounds (hl : Layout h live) {a : Nat} (ha : a ∈ oopWords h live) :
    h.om.start ≤ a ∧ a + 8 ≤ h.om.free := by
  obtain ⟨e, he, ha⟩ := ha
  obtain ⟨hlo, hhi, -⟩ := objectWords_bounds hl he ha
  have habove := (hl.objects e he).above
  have hbelow := (hl.objects e he).below
  omega

/-- The page of a converted word's object. -/
theorem oopWord_page (hl : Layout h live) {a : Nat} (ha : a ∈ oopWords h live) :
    ∃ p, p < checkpointPageCount (h.om.free - h.om.start) ∧ a ∈ pageWords h live p := by
  obtain ⟨e, he, ha⟩ := ha
  have habove := (hl.objects e he).above
  have hbelow := (hl.objects e he).below
  have hsize := (hl.objects e he).nonempty
  exact ⟨h.om.pageOf e.addr, page_lt_checkpointPageCount (by omega), e, he, rfl, ha⟩

/-- **The first conversion** of a copy of the used range. -/
theorem convert_copy (hl : Layout h live) (hent : Entered h.om live)
    (hused : h.om.start < h.om.free) (hstart : h.om.free - h.om.start + 8 < h.om.start)
    (blank : Mem) :
    ∃ image, imageLivePointersToOffsetsPaged h
        (copyBytes blank 0 h.mem h.om.start (h.om.free - h.om.start)) (h.om.free - h.om.start)
          = some image ∧
      (∀ a ∈ oopWords h live, load64 image (imageAddr h.om 0 a)
        = toOffset h.om.start h.om.free (load64 h.mem a)) ∧
      ∀ i, h.om.start ≤ i → i < h.om.free → (∀ a ∈ oopWords h live, i < a ∨ a + 8 ≤ i) →
        image (imageAddr h.om 0 i) = h.mem i := by
  have hcopy : ∀ i, h.om.start ≤ i → i < h.om.free →
      copyBytes blank 0 h.mem h.om.start (h.om.free - h.om.start) (imageAddr h.om 0 i)
        = h.mem i := by
    intro i hlo hhi
    unfold imageAddr
    rw [copyBytes_of_mem _ _ (Nat.zero_le _) (by omega)]
    congr 1
    omega
  have hold : ∀ a ∈ oopWords h live,
      load64 (copyBytes blank 0 h.mem h.om.start (h.om.free - h.om.start)) (imageAddr h.om 0 a)
        = load64 h.mem a := by
    intro a ha
    obtain ⟨hlo, hhi⟩ := oopWord_bounds hl ha
    apply load64_congr
    intro i hi
    rw [← hcopy (a + i) (by omega) (by omega)]
    congr 1
    unfold imageAddr
    omega
  obtain ⟨image, done, hsome, -, hall, hpass⟩ := convertImagePages_pass hl hent
    (m := copyBytes blank 0 h.mem h.om.start (h.om.free - h.om.start))
    (fun a _ => toOffset_idem hstart _)
    (List.range h.om.pageCount) _ ∅ (fun p hp => List.mem_range.mp hp) (Pass.refl _ _ _)
  refine ⟨image, ?_, fun a ha => ?_, fun i hlo hhi hout => ?_⟩
  · unfold imageLivePointersToOffsetsPaged
    rw [if_neg (by omega), show h.om.start + (h.om.free - h.om.start) = h.om.free by omega]
    exact hsome
  · obtain ⟨p, hp, hpage⟩ := oopWord_page hl ha
    have hin := hall p (List.mem_range.mpr (Nat.lt_of_lt_of_le hp (checkpointPageCount_le hl.placed)))
    rw [hpass.word _ ⟨a, ha, rfl⟩ (hin ⟨a, hpage, rfl⟩), hold a ha]
  · rw [hpass.other _ (outside_image _ hl hlo hout)]
    exact hcopy i hlo hhi

/-- **The second conversion** of the image, loaded at `base`. -/
theorem relocate_image (hl : Layout h live) (hent : Entered h.om live)
    (hused : h.om.start < h.om.free) {base : Nat} (hbase : h.om.free - h.om.start < base)
    (hroom : base + (h.om.free - h.om.start) ≤ 2 ^ 63)
    (hwords : ∀ a ∈ oopWords h live, Relocatable h live (load64 h.mem a))
    (fresh : List (List UInt8)) (m : Mem) {image : Mem}
    (himage : ∀ a ∈ oopWords h live, load64 image (imageAddr h.om 0 a)
      = toOffset h.om.start h.om.free (load64 h.mem a))
    (hsame : ∀ i, h.om.start ≤ i → i < h.om.free →
      (∀ a ∈ oopWords h live, i < a ∨ a + 8 ≤ i) → image (imageAddr h.om 0 i) = h.mem i) :
    ∃ m', imageOffsetsToLivePointersPaged base (h.om.free - h.om.start)
        (checkpointTables h h.om.start (checkpointPageCount (h.om.free - h.om.start)) fresh)
        (checkpointPageCount (h.om.free - h.om.start))
        (copyBytes m base image 0 (h.om.free - h.om.start)) = some m' ∧
      (∀ a ∈ oopWords h live,
        load64 m' (imageAddr h.om base a) = movedWord h base (load64 h.mem a)) ∧
      ∀ i, h.om.start ≤ i → i < h.om.free → (∀ a ∈ oopWords h live, i < a ∨ a + 8 ≤ i) →
        m' (imageAddr h.om base i) = h.mem i := by
  have hcopy : ∀ i, h.om.start ≤ i → i < h.om.free →
      copyBytes m base image 0 (h.om.free - h.om.start) (imageAddr h.om base i)
        = image (imageAddr h.om 0 i) := by
    intro i hlo hhi
    unfold imageAddr
    rw [copyBytes_of_mem _ _ (by omega) (by omega), Nat.add_sub_cancel_left]
  have hold : ∀ a ∈ oopWords h live,
      load64 (copyBytes m base image 0 (h.om.free - h.om.start)) (imageAddr h.om base a)
        = toOffset h.om.start h.om.free (load64 h.mem a) := by
    intro a ha
    obtain ⟨hlo, hhi⟩ := oopWord_bounds hl ha
    rw [← himage a ha]
    apply load64_congr
    intro i hi
    rw [show imageAddr h.om base a + i = imageAddr h.om base (a + i) by unfold imageAddr; omega,
      hcopy (a + i) (by omega) (by omega)]
    congr 1
    unfold imageAddr
    omega
  have hheaders : HeadersAt h live base (copyBytes m base image 0 (h.om.free - h.om.start)) := by
    intro e he i hlo hhi
    have habove := (hl.objects e he).above
    have hbelow := (hl.objects e he).below
    have hsize := (hl.objects e he).nonempty
    rw [show base + (e.addr - h.om.start) + i = imageAddr h.om base (e.addr + i) by
        unfold imageAddr; omega, hcopy (e.addr + i) (by omega) (by omega)]
    exact hsame (e.addr + i) (by omega) (by omega) (header_outside hl he (by omega) (by omega))
  obtain ⟨m', done, hsome, -, hall, hpass⟩ := relocatePages_pass hl hent hbase hroom fresh hheaders
    (by
      rintro _ ⟨a, ha, rfl⟩
      rw [hold a ha, toPointer_toOffset hl (hwords a ha)]
      exact toPointer_idem hl hbase hroom (hwords a ha))
    (checkpointPageCount (h.om.free - h.om.start)) 0 _ ∅ (Nat.zero_add _) (Pass.refl _ _ _)
  refine ⟨m', hsome, fun a ha => ?_, fun i hlo hhi hout => ?_⟩
  · obtain ⟨p, hp, hpage⟩ := oopWord_page hl ha
    rw [hpass.word _ ⟨a, ha, rfl⟩ (hall p (Nat.zero_le p) hp ⟨a, hpage, rfl⟩), hold a ha]
    exact toPointer_toOffset hl (hwords a ha)
  · rw [hpass.other _ (outside_image _ hl hlo hout), hcopy i hlo hhi]
    exact hsame i hlo hhi hout

end Trip

/-- **The paged conversions undo each other.**  For every heap a program builds, with
a base above its used size and 8 and with relocatable words: a copy of the used
range converts to an image, and the image, loaded at any address above the used size,
converts to the heap moved there. -/
theorem image_round_trip (buffer : Buffer) {s : Arena} (hs : Built buffer s) {usedSize : Nat}
    (hused : s.heap.om.free - s.heap.om.start = usedSize) (hstart : usedSize + 8 < s.heap.om.start)
    (hwords : ∀ a ∈ oopWords s.heap s.live, Relocatable s.heap s.live (load64 s.heap.mem a))
    {base : Nat} (hbase : usedSize < base) (hroom : base + usedSize ≤ 2 ^ 63)
    (blank m : Mem) (fresh : List (List UInt8)) :
    ∃ image, imageLivePointersToOffsetsPaged s.heap
        (copyBytes blank 0 s.heap.mem s.heap.om.start usedSize) usedSize = some image ∧
      ∃ m', imageOffsetsToLivePointersPaged base usedSize
          (checkpointTables s.heap s.heap.om.start (checkpointPageCount usedSize) fresh)
          (checkpointPageCount usedSize) (copyBytes m base image 0 usedSize) = some m' ∧
        Moved s base m' := by
  subst hused
  obtain ⟨hl, hent⟩ := hs.tabled
  obtain ⟨h, live⟩ := s
  simp only at hl hent hstart hwords hbase hroom ⊢
  have hstartFree := hl.placed.startFree
  rcases Nat.eq_or_lt_of_le hstartFree with hempty | hused
  · -- nothing has been allocated
    have hzero : h.om.free - h.om.start = 0 := by omega
    refine ⟨_, by rw [imageLivePointersToOffsetsPaged, if_pos (.inr hzero)],
      copyBytes m base (copyBytes blank 0 h.mem h.om.start (h.om.free - h.om.start)) 0
        (h.om.free - h.om.start), ?_, ⟨fun a ha => ?_, fun i hlo hhi => ?_⟩⟩
    · rw [hzero]
      rfl
    · have hbounds := oopWord_bounds hl ha
      omega
    · simp only at hlo hhi
      omega
  obtain ⟨image, himage, hword₁, hother₁⟩ := convert_copy hl hent hused hstart blank
  obtain ⟨m', hload, hword₂, hother₂⟩ :=
    relocate_image hl hent hused hbase hroom hwords fresh m hword₁ hother₁
  exact ⟨image, himage, m', hload, hword₂, hother₂⟩

/-- One object of three fields, the first of which points to the object itself. -/
def selfPointer : Arena :=
  let s := smallArena.step (.alloc threeFields)
  { s with heap := { s.heap with mem := setObjField s.heap.mem 65536 0 65536 } }

theorem selfPointer_live : selfPointer.live = {⟨65536, 48⟩} := by
  obtain ⟨h', -, hstep⟩ := smallArena.step_alloc threeFields 65536 (by decide +kernel)
  show (smallArena.step (.alloc threeFields)).live = _
  rw [hstep]
  exact LawfulSingleton.insert_empty_eq _

theorem selfPointer_built : Built smallBuffer selfPointer := by
  refine .store (.alloc (.init (fun _ => 0)) threeFields) _ fun e he => ?_
  have he : e ∈ selfPointer.live := he
  rw [selfPointer_live] at he
  obtain rfl : e = ⟨65536, 48⟩ := he
  decide +kernel

/-- The image of that heap, loaded at 131072, is the heap moved there. -/
theorem selfPointer_round_trip :
    ∃ image, imageLivePointersToOffsetsPaged selfPointer.heap
        (copyBytes (fun _ => 0) 0 selfPointer.heap.mem selfPointer.heap.om.start 48) 48
          = some image ∧
      ∃ m', imageOffsetsToLivePointersPaged 131072 48
          (checkpointTables selfPointer.heap selfPointer.heap.om.start (checkpointPageCount 48) [])
          (checkpointPageCount 48) (copyBytes (fun _ => 0) 131072 image 0 48) = some m' ∧
        Moved selfPointer 131072 m' := by
  refine image_round_trip smallBuffer selfPointer_built (by decide +kernel) (by decide +kernel) ?_
    (by decide) (by decide) (fun _ => 0) (fun _ => 0) []
  rintro a ⟨e, he, ha⟩
  rw [selfPointer_live] at he
  obtain rfl : e = ⟨65536, 48⟩ := he
  rcases ha with rfl | ⟨-, slot, hslot, rfl⟩
  · exact .inr (.inr (by decide +kernel))
  · -- the first field points to the object, the others are null
    have hcount : objectSlotCount selfPointer.heap.mem 65536 = 3 := by decide +kernel
    have hlt : slot < 3 := hcount ▸ hslot
    interval_cases slot
    · refine .inr (.inl ⟨⟨65536, 48⟩, ?_, by decide +kernel⟩)
      rw [selfPointer_live]
      rfl
    · exact .inr (.inr (by decide +kernel))
    · exact .inr (.inr (by decide +kernel))

end LivingObjects.Checkpoint
