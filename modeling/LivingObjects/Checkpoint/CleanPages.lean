/-
  LivingObjects.Checkpoint.CleanPages — pages that serialize as they did before.

  A page serializes to the same bytes in two states of the heap when nothing in
  it changed (`SamePage`): its table entries, its live bytes, the objects that
  reach into it and their headers.  The free pointer may have moved in between;
  it bounds what counts as a reference into the heap, so no slot may hold an
  address between the old free pointer and the end of the buffer (`RefsBelow`).

  `serializePage_same` runs the two walks in step.
-/
import LivingObjects.Checkpoint.Serialize

namespace LivingObjects.Checkpoint

open LivingObjects.Lib
open LivingObjects.VM
open LivingObjects.ObjectMemory

/-! ## §1. Unchanged pages and settled references. -/

/-- The object reaches into the page. -/
def Touches (om : Om) (p : Nat) (e : Extent) : Prop :=
  e.addr < om.pageStart (p + 1) ∧ om.pageStart p < e.addr + e.bytes

/-- The bytes of the page the checkpoint covers. -/
def liveBytes (h : Heap) (p : Nat) : Nat := checkpointPageLiveBytes (h.om.free - h.om.start) p

/-- Nothing in the page changed between two states. -/
structure SamePage (h h' : Heap) (live live' : Set Extent) (p : Nat) : Prop where
  buffer : SameBuffer h.om h'.om
  state : (h'.om.page p).state = (h.om.page p).state
  used : (h'.om.page p).used = (h.om.page p).used
  covering : (h'.om.page p).covering = (h.om.page p).covering
  sameLive : liveBytes h' p = liveBytes h p
  bytes : ∀ a, h.om.pageStart p ≤ a → a < h.om.pageStart p + liveBytes h p → h'.mem a = h.mem a
  objects : ∀ e, Touches h.om p e → (e ∈ live ↔ e ∈ live')
  headers : ∀ e ∈ live, Touches h.om p e → objFormat h'.mem e.addr = objFormat h.mem e.addr ∧
    objectSlotCount h'.mem e.addr = objectSlotCount h.mem e.addr

theorem SamePage.refl (h : Heap) (live : Set Extent) (p : Nat) : SamePage h h live live p :=
  ⟨⟨rfl, rfl, rfl, rfl⟩, rfl, rfl, rfl, rfl, fun _ _ _ => rfl, fun _ _ => Iff.rfl,
    fun _ _ _ => ⟨rfl, rfl⟩⟩

theorem SamePage.trans {h h' h'' : Heap} {live live' live'' : Set Extent} {p : Nat}
    (hs : SamePage h h' live live' p) (hs' : SamePage h' h'' live' live'' p) :
    SamePage h h'' live live'' p := by
  have hps : ∀ q, h'.om.pageStart q = h.om.pageStart q := by
    intro q
    unfold Om.pageStart
    rw [hs.buffer.start]
  have htouch : ∀ e, Touches h.om p e → Touches h'.om p e := by
    intro e he
    unfold Touches
    rw [hps, hps]
    exact he
  constructor
  · exact ⟨hs'.buffer.start.trans hs.buffer.start, hs'.buffer.limit.trans hs.buffer.limit,
      hs'.buffer.stop.trans hs.buffer.stop, hs'.buffer.pageCount.trans hs.buffer.pageCount⟩
  · exact hs'.state.trans hs.state
  · exact hs'.used.trans hs.used
  · exact hs'.covering.trans hs.covering
  · exact hs'.sameLive.trans hs.sameLive
  · intro a hlo hhi
    rw [hs'.bytes a (by rw [hps]; exact hlo) (by rw [hps, hs.sameLive]; exact hhi)]
    exact hs.bytes a hlo hhi
  · exact fun e he => (hs.objects e he).trans (hs'.objects e (htouch e he))
  · intro e he ht
    obtain ⟨hf, hc⟩ := hs.headers e he ht
    obtain ⟨hf', hc'⟩ := hs'.headers e ((hs.objects e ht).mp he) (htouch e ht)
    exact ⟨hf'.trans hf, hc'.trans hc⟩

/-- A value that is no reference into the part of the buffer above the free pointer. -/
def Settled (om : Om) (value : Oop) : Prop :=
  isObjectPtr value = true → value.toNat < om.free ∨ om.stop ≤ value.toNat

/-- The word holds a class or a slot of the object. -/
def SlotOf (m : Mem) (e : Extent) (a : Nat) : Prop :=
  a = e.addr ∨ ∃ k, k < objectSlotCount m e.addr ∧ objFormat m e.addr ≠ formatBytes ∧
    a = e.addr + 24 + 8 * k

/-- Every class word and slot of the live objects is settled. -/
def RefsBelow (h : Heap) (live : Set Extent) : Prop :=
  ∀ e ∈ live, ∀ a, SlotOf h.mem e a → Settled h.om (load64 h.mem a)

/-! ## §2. One object in two states. -/

/-- A settled word converts alike under both free pointers. -/
theorem convertSlot_settled {om : Om} {copy : Mem} {a heapStart limit : Nat}
    (hv : Settled om (load64 copy a)) (hlo : om.free ≤ limit) (hhi : limit ≤ om.stop) :
    convertSlotPointerToOffset copy a heapStart om.free
      = convertSlotPointerToOffset copy a heapStart limit := by
  unfold convertSlotPointerToOffset
  by_cases hptr : isObjectPtr (load64 copy a) = false ∨ load64 copy a = 0
  · rw [if_pos hptr, if_pos hptr]
  · have htag : isObjectPtr (load64 copy a) = true := by
      by_contra hfalse
      exact hptr (.inl (by simpa using hfalse))
    rw [if_neg hptr, if_neg hptr]
    rcases hv htag with hbelow | habove
    · by_cases hstart : (load64 copy a).toNat < heapStart
      · rw [if_pos (.inl hstart), if_pos (.inl hstart)]
      · rw [if_neg (by omega), if_neg (by omega)]
    · rw [if_pos (.inr (by omega)), if_pos (.inr (by omega))]

section Object

variable {h h' : Heap} {live live' : Set Extent} {p : Nat}

/-- The copy still holds the heap's bytes from an address on. -/
def Untouched (h : Heap) (p : Nat) (a : Nat) (copy : Mem) : Prop :=
  ∀ i, i < liveBytes h p → a ≤ h.om.pageStart p + i → copy i = h.mem (h.om.pageStart p + i)

/-- One word in step. -/
theorem convertSlot_same (hrefs : RefsBelow h live) (hgrow : h.om.free ≤ h'.om.free)
    (hstop : h'.om.free ≤ h.om.stop) {e : Extent} (he : e ∈ live) {a : Nat}
    (hslot : SlotOf h.mem e a) (hlo : h.om.pageStart p ≤ a)
    (hhi : a + 8 ≤ h.om.pageStart p + liveBytes h p) {copy : Mem}
    (hcopy : Untouched h p a copy) :
    convertSlotPointerToOffset copy (a - h.om.pageStart p) h.om.start h.om.free
        = convertSlotPointerToOffset copy (a - h.om.pageStart p) h.om.start h'.om.free ∧
      Untouched h p (a + 8)
        (convertSlotPointerToOffset copy (a - h.om.pageStart p) h.om.start h.om.free) := by
  have hword : load64 copy (a - h.om.pageStart p) = load64 h.mem a := by
    apply load64_congr
    intro i hi
    rw [hcopy _ (by omega) (by omega)]
    congr 1
    omega
  refine ⟨convertSlot_settled ?_ hgrow hstop, ?_⟩
  · rw [hword]
    exact hrefs e he a hslot
  · intro i hi hlater
    rw [convertSlotPointerToOffset_of_out copy (by omega)]
    exact hcopy i hi (by omega)

/-- The slots of an object in step, up to any number of them. -/
theorem convertSlots_same (hl : Layout h live) (hrefs : RefsBelow h live)
    (hgrow : h.om.free ≤ h'.om.free) (hstop : h'.om.free ≤ h.om.stop) {e : Extent} (he : e ∈ live)
    (hfields : objFormat h.mem e.addr ≠ formatBytes) {copy : Mem}
    (hcopy : Untouched h p (e.addr + 24) copy) :
    ∀ n, n ≤ objectSlotCount h.mem e.addr →
      (List.range n).foldl (convertObjectSlot h.om.start h.om.free (h.om.pageStart p)
          (h.om.pageStart p + liveBytes h p) e.addr) copy
        = (List.range n).foldl (convertObjectSlot h.om.start h'.om.free (h.om.pageStart p)
          (h.om.pageStart p + liveBytes h p) e.addr) copy ∧
      Untouched h p (e.addr + 24 + 8 * n)
        ((List.range n).foldl (convertObjectSlot h.om.start h.om.free (h.om.pageStart p)
          (h.om.pageStart p + liveBytes h p) e.addr) copy) := by
  intro n
  induction n with
  | zero => exact fun _ => ⟨rfl, hcopy⟩
  | succ n ih =>
    intro hn
    obtain ⟨heq, huntouched⟩ := ih (by omega)
    have hobj := hl.objects e he
    have hheader := hobj.header
    have hbelow := hobj.below
    have hfree := hl.placed.freeLimit
    have hlimit := hl.placed.limitStop
    have hbound := hl.placed.stopBound
    have hwrap : wrap64 (objFieldAddr e.addr n) = e.addr + 24 + 8 * n := by
      unfold objFieldAddr
      exact wrap64_of_lt (by omega)
    have hwrap' : wrap64 (e.addr + 24 + 8 * n + wordSize) = e.addr + 24 + 8 * n + 8 := by
      unfold wordSize
      exact wrap64_of_lt (by omega)
    rw [List.range_succ, List.foldl_append, List.foldl_append, ← heq]
    simp only [List.foldl_cons, List.foldl_nil, convertObjectSlot, hwrap, hwrap']
    by_cases hin : h.om.pageStart p ≤ e.addr + 24 + 8 * n
        ∧ e.addr + 24 + 8 * n + 8 ≤ h.om.pageStart p + liveBytes h p
    · rw [if_pos hin, if_pos hin]
      obtain ⟨hsame, hrest⟩ := convertSlot_same hrefs hgrow hstop he
        (.inr ⟨n, by omega, hfields, rfl⟩) hin.1 hin.2 huntouched
      exact ⟨hsame, fun i hi hlater => hrest i hi (by omega)⟩
    · rw [if_neg hin, if_neg hin]
      exact ⟨rfl, fun i hi hlater => huntouched i hi (by omega)⟩

/-- One object in step; what lies above it in the copy is as it was. -/
theorem convertObject_same (hl : Layout h live) (hs : SamePage h h' live live' p)
    (hrefs : RefsBelow h live) (hgrow : h.om.free ≤ h'.om.free) (hstop : h'.om.free ≤ h.om.stop)
    {e : Extent} (he : e ∈ live) (ht : Touches h.om p e)
    (hin : e.addr < h.om.pageStart p + liveBytes h p) {copy : Mem}
    (hcopy : Untouched h p e.addr copy) :
    convertObject h h.om.start h.om.free (h.om.pageStart p) (h.om.pageStart p + liveBytes h p)
        e.addr copy
      = convertObject h' h.om.start h'.om.free (h.om.pageStart p)
        (h.om.pageStart p + liveBytes h p) e.addr copy ∧
      Untouched h p (e.addr + e.bytes)
        (convertObject h h.om.start h.om.free (h.om.pageStart p)
          (h.om.pageStart p + liveBytes h p) e.addr copy) := by
  obtain ⟨hformat, hcount⟩ := hs.headers e he ht
  have hobj := hl.objects e he
  have hheader := hobj.header
  have hsize := hobj.nonempty
  have haligned := hobj.aligned
  have hstartAligned := hl.placed.startAligned
  have hfreeAligned := hl.placed.freeAligned
  have hstartFree := hl.placed.startFree
  -- the class word lies wholly in the covered part of the page
  have hclassIn : e.addr + 8 ≤ h.om.pageStart p + liveBytes h p := by
    unfold liveBytes checkpointPageLiveBytes Om.pageStart pageBytes at *
    split at hin <;> split <;> omega
  have hclass : (if h.om.pageStart p ≤ e.addr then
        convertSlotPointerToOffset copy (e.addr - h.om.pageStart p) h.om.start h.om.free else copy)
      = (if h.om.pageStart p ≤ e.addr then
        convertSlotPointerToOffset copy (e.addr - h.om.pageStart p) h.om.start h'.om.free
        else copy) ∧
      Untouched h p (e.addr + 24) (if h.om.pageStart p ≤ e.addr then
        convertSlotPointerToOffset copy (e.addr - h.om.pageStart p) h.om.start h.om.free
        else copy) := by
    by_cases hlo : h.om.pageStart p ≤ e.addr
    · rw [if_pos hlo, if_pos hlo]
      obtain ⟨hsame, hrest⟩ :=
        convertSlot_same hrefs hgrow hstop he (.inl rfl) hlo hclassIn hcopy
      exact ⟨hsame, fun i hi hlater => hrest i hi (by omega)⟩
    · rw [if_neg hlo, if_neg hlo]
      exact ⟨rfl, fun i hi hlater => hcopy i hi (by omega)⟩
  unfold convertObject
  simp only [hformat, hcount]
  rw [← hclass.1]
  by_cases hfields : objFormat h.mem e.addr ≠ formatBytes
  · rw [if_pos hfields, if_pos hfields]
    obtain ⟨hsame, hrest⟩ := convertSlots_same hl hrefs hgrow hstop he hfields hclass.2
      (objectSlotCount h.mem e.addr) (Nat.le_refl _)
    exact ⟨hsame, fun i hi hlater => hrest i hi (by omega)⟩
  · rw [if_neg hfields, if_neg hfields]
    exact ⟨rfl, fun i hi hlater => hclass.2 i hi (by omega)⟩

/-- A walk that has left the page ends at once. -/
theorem convertFrom_outside {heapStart heapLimit pageStart pageEnd fuel current : Nat}
    (hout : current = 0 ∨ pageEnd ≤ current) (hfuel : 0 < fuel) (copy : Mem) :
    convertFrom h heapStart heapLimit pageStart pageEnd fuel current copy = some copy := by
  obtain ⟨fuel, rfl⟩ : ∃ k, fuel = k + 1 := ⟨fuel - 1, by omega⟩
  rw [convertFrom, if_pos]
  rcases hout with hzero | hend
  · exact .inl hzero
  · exact .inr (.inr hend)

/-- **One step of the two walks**: they go to the same object of the page, or both
leave it. -/
theorem omNextObject_same (hl : Layout h live) (hl' : Layout h' live')
    (hs : SamePage h h' live live' p) {e : Extent} (he : e ∈ live) (ht : Touches h.om p e) :
    (∃ e' ∈ live, Touches h.om p e' ∧ e'.addr = e.addr + e.bytes ∧
      omNextObject h.om h.mem e.addr = e'.addr ∧ omNextObject h'.om h'.mem e.addr = e'.addr) ∨
    ((omNextObject h.om h.mem e.addr = 0 ∨
        h.om.pageStart p + liveBytes h p ≤ omNextObject h.om h.mem e.addr) ∧
      (omNextObject h'.om h'.mem e.addr = 0 ∨
        h.om.pageStart p + liveBytes h p ≤ omNextObject h'.om h'.mem e.addr)) := by
  have he' := (hs.objects e ht).mp he
  have habove := (hl.objects e he).above
  have hps : ∀ q, h'.om.pageStart q = h.om.pageStart q := by
    intro q
    unfold Om.pageStart
    rw [hs.buffer.start]
  have hle := checkpointPageLiveBytes_le (h.om.free - h.om.start) p
  by_cases hend : h.om.pageStart p + liveBytes h p ≤ e.addr + e.bytes
  · -- the object reaches the end of what is covered: any later object is outside
    refine .inr ⟨?_, ?_⟩
    · rcases omNextObject_live hl he with hzero | ⟨e₁, -, haddr, hup⟩
      · exact .inl hzero
      · exact .inr (by omega)
    · rcases omNextObject_live hl' he' with hzero | ⟨e₁, -, haddr, hup⟩
      · exact .inl hzero
      · exact .inr (by omega)
  have htouch := ht.2
  have hstartFree := hl.placed.startFree
  have hstartFree' := hl'.placed.startFree
  have hsame := hs.sameLive
  have hfree : e.addr + e.bytes < h.om.free := by
    unfold liveBytes checkpointPageLiveBytes Om.pageStart pageBytes at *
    split at hend <;> omega
  have hfree' : e.addr + e.bytes < h'.om.free := by
    have hstart := hs.buffer.start
    rw [← hsame] at hend
    unfold liveBytes checkpointPageLiveBytes Om.pageStart pageBytes at *
    split at hend <;> omega
  have hpage : h.om.pageOf (e.addr + e.bytes) = p := by
    unfold liveBytes Om.pageStart Om.pageOf pageBytes at *
    omega
  have hpage' : h'.om.pageOf (e.addr + e.bytes) = p := by
    rw [← hpage]
    unfold Om.pageOf
    rw [hs.buffer.start]
  rw [omNextObject_eq hl he hfree, omNextObject_eq hl' he' hfree', hpage, hpage', hs.used,
      hs.buffer.start]
  by_cases hused : (e.addr + e.bytes - h.om.start) % pageBytes < (h.om.page p).used
  · rw [if_pos hused, if_pos hused]
    obtain ⟨e₁, he₁, haddr⟩ := live_at_end hl he (by rw [hpage]; exact hused)
    have hsize := (hl.objects e₁ he₁).nonempty
    refine .inl ⟨e₁, he₁, ⟨?_, by omega⟩, haddr, haddr.symm, haddr.symm⟩
    unfold liveBytes Om.pageStart pageBytes at *
    omega
  · rw [if_neg hused, if_neg hused]
    refine .inr ⟨?_, ?_⟩
    · rcases firstObjectAfter_live hl p with hzero | ⟨e₁, -, haddr, hup⟩
      · exact .inl hzero
      · refine .inr ?_
        unfold liveBytes Om.pageStart pageBytes at *
        omega
    · rcases firstObjectAfter_live hl' p with hzero | ⟨e₁, -, haddr, hup⟩
      · exact .inl hzero
      · refine .inr ?_
        rw [hps] at hup
        unfold liveBytes Om.pageStart pageBytes at *
        omega

/-- The two walks give the same copy. -/
theorem convertFrom_same (hl : Layout h live) (hl' : Layout h' live')
    (hs : SamePage h h' live live' p) (hrefs : RefsBelow h live) (hgrow : h.om.free ≤ h'.om.free)
    (hstop : h'.om.free ≤ h.om.stop) :
    ∀ (fuel fuel' : Nat) (e : Extent) (copy : Mem), e ∈ live → Touches h.om p e →
      h.om.free < e.addr + fuel → h'.om.free < e.addr + fuel' → Untouched h p e.addr copy →
      convertFrom h h.om.start h.om.free (h.om.pageStart p) (h.om.pageStart p + liveBytes h p)
          fuel e.addr copy
        = convertFrom h' h.om.start h'.om.free (h.om.pageStart p)
          (h.om.pageStart p + liveBytes h p) fuel' e.addr copy := by
  intro fuel
  induction fuel with
  | zero =>
    intro fuel' e copy he _ hfuel
    have hbelow := (hl.objects e he).below
    omega
  | succ fuel ih =>
    intro fuel' e copy he ht hfuel hfuel' hcopy
    have he' := (hs.objects e ht).mp he
    have hbelow := (hl.objects e he).below
    have hbelow' := (hl'.objects e he').below
    have hsize := (hl.objects e he).nonempty
    obtain ⟨fuel', rfl⟩ : ∃ k, fuel' = k + 1 := ⟨fuel' - 1, by omega⟩
    rw [convertFrom, convertFrom]
    by_cases hin : h.om.pageStart p + liveBytes h p ≤ e.addr
    · rw [if_pos (.inr (.inr hin)), if_pos (.inr (.inr hin))]
    have hstartPos := hl.placed.aboveFirstPage
    have habove := (hl.objects e he).above
    unfold pageBytes at hstartPos
    rw [if_neg (by omega), if_neg (by omega)]
    obtain ⟨hsame, hrest⟩ := convertObject_same hl hs hrefs hgrow hstop he ht (by omega) hcopy
    rw [← hsame]
    rcases omNextObject_same hl hl' hs he ht with ⟨e₁, he₁, ht₁, haddr, hnext, hnext'⟩ | ⟨hout, hout'⟩
    · rw [hnext, hnext']
      rw [← haddr] at hrest
      exact ih fuel' e₁ _ he₁ ht₁ (by omega) (by omega) hrest
    · rw [convertFrom_outside hout (by omega), convertFrom_outside hout' (by omega)]

/-- **An unchanged page serializes as before.** -/
theorem serializePage_same (hl : Layout h live) (hl' : Layout h' live')
    (hs : SamePage h h' live live' p) (hrefs : RefsBelow h live) (hgrow : h.om.free ≤ h'.om.free)
    (hp : p < h.om.pageCount) :
    serializePage h' h'.om.start (h'.om.free - h'.om.start) p
      = serializePage h h.om.start (h.om.free - h.om.start) p := by
  have hstart := hs.buffer.start
  have hcount := hs.buffer.pageCount
  have hstartFree := hl.placed.startFree
  have hstartFree' := hl'.placed.startFree
  have hfreeLimit' := hl'.placed.freeLimit
  have hlimit' := hl'.placed.limitStop
  have hstop : h'.om.free ≤ h.om.stop := by
    rw [← hs.buffer.stop]
    omega
  have hlive : checkpointPageLiveBytes (h'.om.free - h'.om.start) p = liveBytes h p := hs.sameLive
  have hlimitEq : h.om.start + (h.om.free - h.om.start) = h.om.free := by omega
  have hlimitEq' : h.om.start + (h'.om.free - h.om.start) = h'.om.free := by
    rw [hstart] at hstartFree'
    omega
  have hps : h.om.start + p * pageBytes = h.om.pageStart p := rfl
  have hlive₀ : checkpointPageLiveBytes (h.om.free - h.om.start) p = liveBytes h p := rfl
  unfold serializePage
  simp only [omPageState, hcount, if_pos hp, hs.state, hstart]
  rw [hstart] at hlive
  rw [hlive, hlive₀, hlimitEq, hlimitEq', hps]
  by_cases hused : (h.om.page p).state ≠ .free ∧ 0 < liveBytes h p
  · rw [if_pos hused, if_pos hused]
    -- both walks start from the same copy of the page
    have hcopy : copyBytes (fun _ => 0) 0 h'.mem (h.om.pageStart p) (liveBytes h p)
        = copyBytes (fun _ => 0) 0 h.mem (h.om.pageStart p) (liveBytes h p) := by
      funext i
      unfold copyBytes
      by_cases hi : 0 ≤ i ∧ i < 0 + liveBytes h p
      · rw [if_pos hi, if_pos hi]
        exact hs.bytes _ (by omega) (by omega)
      · rw [if_neg hi, if_neg hi]
    rw [hcopy]
    congr 1
    unfold checkpointPagePointersToOffsets
    have hps' : h'.om.pageStart p = h.om.pageStart p := by
      unfold Om.pageStart
      rw [hstart]
    simp only [omPageCoveringObject, hcount, if_pos hp, hs.covering, hlive, hlive₀,
      hl.placed.pageStart hp, hl'.placed.pageStart (by rw [hcount]; exact hp), hps']
    by_cases hnone : liveBytes h p = 0 ∨ (h.om.page p).covering = 0
    · rw [if_pos hnone, if_pos hnone]
    · rw [if_neg hnone, if_neg hnone]
      obtain ⟨e, he, haddr, hpage, hend⟩ := hl.covering p (fun hc => hnone (.inr hc))
      have habove := (hl.objects e he).above
      have ht : Touches h.om p e := by
        refine ⟨?_, hend⟩
        unfold Om.pageStart Om.pageOf pageBytes at *
        omega
      rw [← haddr]
      refine (convertFrom_same hl hl' hs hrefs hgrow hstop _ _ e _ he ht (by omega) (by omega)
        ?_).symm
      intro i hi _
      rw [copyBytes_of_mem _ _ (Nat.zero_le i) (by omega), Nat.sub_zero]
  · rw [if_neg hused, if_neg hused]

end Object

end LivingObjects.Checkpoint
