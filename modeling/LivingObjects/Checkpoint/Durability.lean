/-
  LivingObjects.Checkpoint.Durability — durable transactions after a checkpoint.

  After a checkpoint the durable log is empty; every durable transaction that
  returns has appended its frame to it.  A crash leaves the checkpoint and that
  log.  The restart loads the one and replays the other, and the replay accepts
  offsets below the checkpoint's used size only: a logged object or a referenced
  object that was allocated after the checkpoint is out of its reach.

  `durable_survives_iff` says exactly when every durable write is in the
  restored heap.
-/
import LivingObjects.Checkpoint.Incremental
import LivingObjects.Journal.TornTail
import LivingObjects.Lib.MemProgram

namespace LivingObjects.Checkpoint

open LivingObjects.Lib
open LivingObjects.VM
open LivingObjects.ObjectMemory
open LivingObjects.Journal

/-! ## §1. Runs after a checkpoint. -/

/-- The heap, the durable log, and the entries durable transactions have committed. -/
structure DurableState where
  heap : Heap
  live : Set Extent
  journal : Option (List UInt8)
  committed : List LogEntry

/-- What happens between a checkpoint and a crash. -/
inductive Act where
  /-- An allocation, a store or the commit of a plain transaction. -/
  | mutate (mu : Mutation)
  /-- A durable transaction, with what the system does during the append. -/
  | durable (io : AppendIo) (log : TxnLog)

/-- The append of a durable transaction. -/
def DurableState.append (t : DurableState) (io : AppendIo) (log : TxnLog) :
    Bool × Option (List UInt8) :=
  txnLogAppendFsync io t.heap.om.start t.heap.om.free (some log) t.journal

/-- One act.  A durable transaction whose append fails raises a trap instead of
returning; nothing of it is committed. -/
def DurableState.step (t : DurableState) : Act → DurableState
  | .mutate mu => { t with heap := mu.run t.heap, live := mu.lives t.heap t.live }
  | .durable io log =>
    match t.append io log with
    | (true, journal) =>
      { t with
        heap := (Mutation.commit log).run t.heap
        journal := journal
        committed := t.committed ++ log.entries }
    | (false, journal) => { t with journal := journal }

/-- The state after a sequence of acts. -/
def DurableState.run (t : DurableState) (acts : List Act) : DurableState :=
  acts.foldl DurableState.step t

/-- The checkpoint is written and the durable log removed. -/
def DurableState.afterCheckpoint (s : VmState) : DurableState where
  heap := { s.heap with om := omClearDirtyPages s.heap.om }
  live := s.live
  journal := none
  committed := []

/-- The entry writes a byte. -/
def IsByteEntry (e : LogEntry) : Prop := e.fieldIndex >>> 63 ≠ 0

instance (e : LogEntry) : Decidable (IsByteEntry e) := by
  unfold IsByteEntry
  infer_instance

/-- An entry a transaction logs: a byte of a byte object or a slot of another one,
and a value that is no reference, the null word, or a live object. -/
structure LoggedIn (h : Heap) (live : Set Extent) (e : LogEntry) : Prop where
  pointer : isObjectPtr e.object = true
  inside : (entryWrite e).Inside h live
  format : IsByteEntry e ↔ objFormat h.mem e.object.toNat = formatBytes
  byte : IsByteEntry e → isObjectPtr e.value = false
  refers : isObjectPtr e.value = true → e.value ≠ 0 → ∃ x ∈ live, x.addr = e.value.toNat

/-- The acts the VM performs; a durable transaction returns successfully. -/
def Act.Legal (t : DurableState) : Act → Prop
  | .mutate mu => mu.Legal t.heap t.live ∧ ∀ pageId, mu ≠ .release pageId
  | .durable io log =>
    (∀ e ∈ log.entries, LoggedIn t.heap t.live e) ∧ (t.append io log).1 = true

/-- Every act of the run is legal. -/
def ActsLegal : DurableState → List Act → Prop
  | _, [] => True
  | t, act :: acts => act.Legal t ∧ ActsLegal (t.step act) acts

/-! ## §2. What surviving means. -/

/-- The memory holds what the store has put there. -/
def BodyWrite.HeldBy (m : Mem) (w : BodyWrite) : Prop :=
  match w with
  | .word _ _ value => load64 m w.address = value
  | .byte _ _ value => m w.address = value

/-- A value of the live heap, in a heap restored at `base`. -/
def movedValue (start base : Nat) (value : Oop) : Oop :=
  if isObjectPtr value ∧ value ≠ 0 then UInt64.ofNat (base + (value.toNat - start)) else value

/-- An entry of the live heap, in a heap restored at `base`. -/
def movedEntry (start base : Nat) (e : LogEntry) : LogEntry :=
  { object := UInt64.ofNat (base + (e.object.toNat - start))
    fieldIndex := e.fieldIndex
    value := movedValue start base e.value }

/-- The entry is the last one for its slot. -/
def LastWrite (entries : List LogEntry) (e : LogEntry) : Prop :=
  ∃ before after, entries = before ++ e :: after ∧
    ∀ e' ∈ after, ¬ (e'.object = e.object ∧ e'.fieldIndex = e.fieldIndex)

/-- The restart succeeds, and every slot a durable transaction wrote holds the
value last committed to it, moved; a reference among these leads to an object
of the checkpoint. -/
def Survives (s : VmState) (file : CheckpointFile) (t : DurableState) (base : Nat)
    (r : ReplayHeap) : Prop :=
  ∃ r', restart base (some file.bytes) t.journal r = some r' ∧
    ∀ e, LastWrite t.committed e →
      (entryWrite (movedEntry s.heap.om.start base e)).HeldBy r'.mem ∧
      (isObjectPtr e.value = true → e.value ≠ 0 → ∃ x ∈ s.live,
        (movedValue s.heap.om.start base e.value).toNat = base + (x.addr - s.heap.om.start))

/-- Every object a durable transaction wrote to, and every object a last written
value refers to, was there when the checkpoint was taken. -/
structure AtCheckpoint (live : Set Extent) (committed : List LogEntry) : Prop where
  objects : ∀ e ∈ committed, ∃ x ∈ live, x.addr = e.object.toNat
  values : ∀ e, LastWrite committed e → isObjectPtr e.value = true → e.value ≠ 0 →
    ∃ x ∈ live, x.addr = e.value.toNat

/-! ## §3. The run keeps the checkpoint's objects apart. -/

/-- Where an entry writes, from the start of its object. -/
def entryOffset (e : LogEntry) : Nat :=
  if IsByteEntry e then 24 + (e.fieldIndex &&& ~~~byteFieldMarker).toNat
  else 24 + 8 * e.fieldIndex.toNat

/-- How many bytes it writes. -/
def entryWidth (e : LogEntry) : Nat := if IsByteEntry e then 1 else 8

/-- An entry stays inside a live object of its kind. -/
structure EntryIn (h : Heap) (live : Set Extent) (e : LogEntry) : Prop where
  object : ∃ x ∈ live, x.addr = e.object.toNat ∧ entryOffset e + entryWidth e ≤ x.bytes
  format : IsByteEntry e ↔ objFormat h.mem e.object.toNat = formatBytes
  byte : IsByteEntry e → isObjectPtr e.value = false
  refers : isObjectPtr e.value = true → e.value ≠ 0 → ∃ x ∈ live, x.addr = e.value.toNat

theorem LoggedIn.entryIn {h : Heap} {live : Set Extent} {e : LogEntry} (he : LoggedIn h live e) :
    EntryIn h live e := by
  refine ⟨?_, he.format, he.byte, he.refers⟩
  have hin := he.inside
  unfold entryOffset entryWidth
  unfold entryWrite at hin
  by_cases hbyte : IsByteEntry e
  · have hbyte' : e.fieldIndex >>> 63 ≠ 0 := hbyte
    rw [if_pos hbyte, if_pos hbyte]
    rw [if_pos hbyte'] at hin
    obtain ⟨x, hx, haddr, hbytes, -⟩ := hin
    exact ⟨x, hx, haddr, hbytes⟩
  · have hbyte' : ¬ e.fieldIndex >>> 63 ≠ 0 := hbyte
    rw [if_neg hbyte, if_neg hbyte]
    rw [if_neg hbyte'] at hin
    obtain ⟨x, hx, haddr, hbytes, -⟩ := hin
    exact ⟨x, hx, haddr, hbytes⟩

/-- What a run after a checkpoint keeps. -/
structure DurableState.Inv (s : VmState) (t : DurableState) : Prop where
  layout : Layout t.heap t.live
  refs : RefsBelow t.heap t.live
  start : t.heap.om.start = s.heap.om.start
  grows : s.heap.om.free ≤ t.heap.om.free
  kept : s.live ⊆ t.live
  later : ∀ x ∈ t.live, x ∉ s.live → s.heap.om.free ≤ x.addr
  noFree : ∀ p, t.heap.om.pageStart p < s.heap.om.free → (t.heap.om.page p).state ≠ .free
  entries : ∀ e ∈ t.committed, EntryIn t.heap t.live e
  frames : ∃ txns : List CommittedTxn, t.journal.getD [] = txns.flatMap CommittedTxn.frame ∧
    txns.flatMap (fun txn => txn.log.entries) = t.committed ∧
    ∀ txn ∈ txns, txn.live.start = s.heap.om.start ∧
      ∀ e ∈ txn.log.entries, isObjectPtr e.value = true → e.value ≠ 0 →
        e.value.toNat < txn.live.limit

/-- A live object of the checkpoint is one below its free pointer. -/
theorem DurableState.Inv.old_iff {s : VmState} {t : DurableState} (hs : s.Inv)
    (ht : DurableState.Inv s t) {x : Extent} (hx : x ∈ t.live) :
    x ∈ s.live ↔ x.addr < s.heap.om.free := by
  constructor
  · intro hold
    have hbelow := (hs.layout.objects x hold).below
    have hsize := (hs.layout.objects x hold).nonempty
    omega
  · intro hlt
    by_contra hnew
    have hlater := ht.later x hx hnew
    omega

/-- What a mutation other than a release keeps of the objects and pages below a limit. -/
structure Grown (h h' : Heap) (live live' : Set Extent) (limit : Nat) : Prop where
  kept : live ⊆ live'
  later : ∀ x ∈ live', x ∉ live → limit ≤ x.addr
  noFree : ∀ p, h.om.pageStart p < limit → (h'.om.page p).state ≠ .free
  format : ∀ x ∈ live, objFormat h'.mem x.addr = objFormat h.mem x.addr

theorem markedStores_grown (ws : List BodyWrite) {h : Heap} {live : Set Extent} {limit : Nat}
    (hl : Layout h live) (hws : ∀ w ∈ ws, w.Inside h live)
    (hused : ∀ p, h.om.pageStart p < limit → (h.om.page p).state ≠ .free) :
    Grown h (ws.foldl (fun h w => (Mutation.marked w).run h) h) live live limit := by
  induction ws generalizing h with
  | nil => exact ⟨Set.Subset.refl _, fun x hx hnew => absurd hx hnew, hused, fun _ _ => rfl⟩
  | cons w ws ih =>
    have hw := hws w List.mem_cons_self
    have hom := w.mark_same h.om
    have hps : ∀ p, (w.mark h.om).pageStart p = h.om.pageStart p := by
      intro p
      unfold Om.pageStart
      rw [hom.start]
    have hrest := ih (h := (Mutation.marked w).run h) (hw.layout hl hom)
      (fun w' hw' => hw.keep hl (hws w' (List.mem_cons_of_mem w hw')) hom) (by
        intro p hp
        show ((w.mark h.om).page p).state ≠ .free
        rw [hom.state]
        exact hused p (by rw [← hps]; exact hp))
    rw [List.foldl_cons]
    refine ⟨hrest.kept, hrest.later, ?_, ?_⟩
    · intro p hp
      exact hrest.noFree p (by show (w.mark h.om).pageStart p < limit; rw [hps]; exact hp)
    · intro x hx
      rw [hrest.format x hx]
      exact hw.format hl hx

/-- An allocation puts its object above everything below the free pointer, as long
as no page there is free. -/
theorem omAlloc_grown {h h' : Heap} {live : Set Extent} {limit : Nat} (hl : Layout h live)
    {req : AllocRequest} {obj : Nat} (ha : omAlloc h req = some (obj, h'))
    (hlimit : limit ≤ h.om.free)
    (hused : ∀ p, h.om.pageStart p < limit → (h.om.page p).state ≠ .free) :
    Grown h h' live (insert ⟨obj, req.totalBytes⟩ live) limit := by
  obtain ⟨hlayout, -, hbuffer, -⟩ := omAlloc_layout hl ha
  obtain ⟨hfits, -, hcase⟩ := omAlloc_cases ha
  refine ⟨Set.subset_insert _ _, ?_, ?_, fun x hx => (omAlloc_headers hl ha hx).1⟩
  · intro x hx hnew
    rcases hx with rfl | hold
    · show limit ≤ obj
      rcases hcase with ⟨p, hp, -, hstate, -, -, hobj, -⟩ | ⟨hobj, -⟩
      · -- a released page lies at or above the limit
        rw [hobj, hl.placed.pageStart hp]
        by_contra hbelow
        exact hused p (by omega) hstate
      · have hfree := hl.placed.startFree
        rw [hobj]
        rcases bumpObject_cases h.om req.totalBytes with heq | ⟨-, -, -, heq⟩
        · omega
        · rw [heq]
          have hup := lt_pageStart_pageOf_succ h.om hfree
          omega
    · exact absurd hold hnew
  · intro p hp
    by_cases hin : h.om.pageOf obj ≤ p ∧ p ≤ h.om.pageOf (obj + req.totalBytes - 1)
    · -- a page of the new object is a head or a continuation
      have hnew := hlayout.objects _ (Set.mem_insert _ _)
      have habove : h.om.start ≤ obj := by
        rw [← hbuffer.start]
        exact hnew.above
      have hsize : 24 ≤ req.totalBytes := hnew.nonempty
      have hlimit' := hl.placed.limitStop
      have hnote : (noteObject h.om obj req.totalBytes).page p
          = notedPage h.om obj req.totalBytes (h.om.pageOf obj) p := by
        unfold noteObject
        rw [hl.placed.pageId habove (by omega), hl.placed.pageId (by omega) (by omega)]
        exact if_pos hin
      have hstate : (h'.om.page p).state
          = (notedPage h.om obj req.totalBytes (h.om.pageOf obj) p).state := by
        rw [← hnote]
        rcases hcase with ⟨-, -, -, -, -, -, -, hom⟩ | ⟨-, hom⟩ <;> rw [hom]
      rw [hstate]
      simp only [notedPage]
      split <;> decide
    · rw [omAlloc_page hl ha hin]
      exact hused p hp

/-- **Any mutation but a release.** -/
theorem Mutation.Legal.grown {h : Heap} {live : Set Extent} {mu : Mutation} {limit : Nat}
    (hl : Layout h live) (hmu : mu.Legal h live) (hkind : ∀ pageId, mu ≠ .release pageId)
    (hlimit : limit ≤ h.om.free)
    (hused : ∀ p, h.om.pageStart p < limit → (h.om.page p).state ≠ .free) :
    Grown h (mu.run h) live (mu.lives h live) limit := by
  cases mu with
  | alloc req =>
    rcases ha : omAlloc h req with _ | ⟨obj, h'⟩
    · simp only [Mutation.run, Mutation.lives, ha]
      exact ⟨Set.Subset.refl _, fun x hx hnew => absurd hx hnew, hused, fun _ _ => rfl⟩
    · simp only [Mutation.run, Mutation.lives, ha]
      exact omAlloc_grown hl ha hlimit hused
  | release pageId => exact absurd rfl (hkind pageId)
  | marked w =>
    exact markedStores_grown [w] hl (fun w' hw' => by rw [List.mem_singleton.mp hw']; exact hmu)
      hused
  | commit log =>
    rw [commit_run h log (fun e he => (hmu e he).1)]
    refine markedStores_grown _ hl ?_ hused
    intro w hw
    obtain ⟨e, he, rfl⟩ := List.mem_map.mp hw
    exact (hmu e he).2
  | unmarked w =>
    exact ⟨Set.Subset.refl _, fun x hx hnew => absurd hx hnew, hused,
      fun x hx => BodyWrite.Inside.format hl hmu hx⟩

/-- An entry stays inside its object. -/
theorem EntryIn.keep {h h' : Heap} {live live' : Set Extent} {limit : Nat}
    (hg : Grown h h' live live' limit) {e : LogEntry} (he : EntryIn h live e) :
    EntryIn h' live' e := by
  obtain ⟨x, hx, haddr, hin⟩ := he.object
  refine ⟨⟨x, hg.kept hx, haddr, hin⟩, ?_, he.byte, ?_⟩
  · rw [he.format, ← haddr, hg.format x hx]
  · intro hptr hne
    obtain ⟨y, hy, hvalue⟩ := he.refers hptr hne
    exact ⟨y, hg.kept hy, hvalue⟩

/-- A mutation keeps the invariant. -/
theorem DurableState.Inv.mutate {s : VmState} {t : DurableState} (ht : DurableState.Inv s t)
    {mu : Mutation} (hmu : mu.Legal t.heap t.live) (hkind : ∀ pageId, mu ≠ .release pageId) :
    DurableState.Inv s (t.step (.mutate mu)) := by
  have hkept := Mutation.Legal.kept ht.layout ht.refs hmu
  have hgrown := Mutation.Legal.grown ht.layout hmu hkind ht.grows ht.noFree
  refine ⟨hkept.layout, hkept.refs, hkept.buffer.start.trans ht.start,
    ht.grows.trans hkept.grows, ht.kept.trans hgrown.kept, ?_, ?_,
    fun e he => (ht.entries e he).keep hgrown, ht.frames⟩
  · intro x hx hnew
    by_cases hold : x ∈ t.live
    · exact ht.later x hold hnew
    · exact hgrown.later x hx hold
  · intro p hp
    apply hgrown.noFree p
    have hps : (mu.run t.heap).om.pageStart p = t.heap.om.pageStart p := by
      unfold Om.pageStart
      rw [hkept.buffer.start]
    rw [← hps]
    exact hp

/-- A durable transaction that returns keeps the invariant. -/
theorem DurableState.Inv.durable {s : VmState} {t : DurableState} (ht : DurableState.Inv s t)
    {io : AppendIo} {log : TxnLog} (hlog : ∀ e ∈ log.entries, LoggedIn t.heap t.live e)
    (hok : (t.append io log).1 = true) : DurableState.Inv s (t.step (.durable io log)) := by
  have hmu : (Mutation.commit log).Legal t.heap t.live := fun e he =>
    ⟨(hlog e he).pointer, (hlog e he).inside⟩
  have hstate := ht.mutate hmu (fun pageId h => nomatch h)
  have hgrown := Mutation.Legal.grown ht.layout hmu (fun pageId h => nomatch h) ht.grows ht.noFree
  obtain ⟨l, hl, -, hjournal⟩ := txnLogAppendFsync_success io t.heap.om.start t.heap.om.free hok
  obtain rfl := Option.some.inj hl
  have hstep : t.step (.durable io log)
      = { (t.step (.mutate (.commit log))) with
          journal := (t.append io log).2
          committed := t.committed ++ log.entries } := by
    show (match t.append io log with
      | (true, journal) => _
      | (false, journal) => _) = _
    rcases happend : t.append io log with ⟨ok, journal⟩
    rw [happend] at hok
    obtain rfl : ok = true := hok
    rfl
  rw [hstep]
  refine ⟨hstate.layout, hstate.refs, hstate.start, hstate.grows, hstate.kept, hstate.later,
    hstate.noFree, ?_, ?_⟩
  · intro e he
    rcases List.mem_append.mp he with hold | hnew
    · exact hstate.entries e hold
    · exact (hlog e hnew).entryIn.keep hgrown
  · obtain ⟨txns, hfile, hentries, htxns⟩ := ht.frames
    have hplaced := ht.layout.placed
    have hstart := hplaced.aboveFirstPage
    have hfreeLimit := hplaced.freeLimit
    have hlimit := hplaced.limitStop
    have hbound := hplaced.stopBound
    unfold pageBytes at hstart
    let range : HeapRange :=
      { start := t.heap.om.start
        limit := t.heap.om.free
        nonNull := by omega
        aligned := hplaced.startAligned
        ordered := hplaced.startFree
        inMemory := by omega }
    refine ⟨txns ++ [⟨range, log⟩], ?_, ?_, ?_⟩
    · rw [List.flatMap_append, ← hfile]
      show (t.append io log).2.getD [] = _
      rw [List.flatMap_cons, List.flatMap_nil, List.append_nil]
      exact hjournal
    · rw [List.flatMap_append, hentries, List.flatMap_cons, List.flatMap_nil, List.append_nil]
    · intro txn htxn
      rcases List.mem_append.mp htxn with hold | hnew
      · exact htxns txn hold
      · obtain rfl := List.mem_singleton.mp hnew
        refine ⟨ht.start, fun e he hptr hne => ?_⟩
        obtain ⟨x, hx, hvalue⟩ := (hlog e he).refers hptr hne
        have hbelow := (ht.layout.objects x hx).below
        have hsize := (ht.layout.objects x hx).nonempty
        show e.value.toNat < t.heap.om.free
        omega

/-- The invariant holds right after the checkpoint. -/
theorem DurableState.Inv.afterCheckpoint {s : VmState} (hs : s.Inv) (hready : s.Ready) :
    DurableState.Inv s (DurableState.afterCheckpoint s) := by
  have hsame := omClearDirtyPages_same s.heap.om
  refine ⟨hs.layout.congr hsame (fun _ _ => rfl), hs.refs, rfl, Nat.le_refl _, Set.Subset.refl _,
    fun x hx hnew => absurd hx hnew, ?_, fun e he => absurd he List.not_mem_nil,
    [], rfl, rfl, fun txn htxn => absurd htxn (by simp)⟩
  intro p hp
  rw [show (DurableState.afterCheckpoint s).heap.om.page p = _ from rfl]
  apply hready.noFreePage p
  have hlt : s.heap.om.start + p * pageBytes < s.heap.om.free := hp
  unfold VmState.pageCount checkpointPageCount
  unfold pageBytes at *
  split <;> omega

/-- **The invariant holds along a run.** -/
theorem DurableState.Inv.run {s : VmState} (acts : List Act) {t : DurableState}
    (ht : DurableState.Inv s t) (hacts : ActsLegal t acts) : DurableState.Inv s (t.run acts) := by
  induction acts generalizing t with
  | nil => exact ht
  | cons act acts ih =>
    obtain ⟨hact, hrest⟩ := hacts
    cases act with
    | mutate mu => exact ih (ht.mutate hact.1 hact.2) hrest
    | durable io log => exact ih (ht.durable hact.1 hact.2) hrest

/-! ## §4. Stores that do not meet. -/

theorem entryWrite_address (e : LogEntry) :
    (entryWrite e).address = wrap64 (e.object.toNat + entryOffset e) := by
  unfold entryWrite entryOffset
  by_cases hbyte : e.fieldIndex >>> 63 ≠ 0
  · have hbyte' : IsByteEntry e := hbyte
    rw [if_pos hbyte, if_pos hbyte']
    show wrap64 (objFieldAddr e.object.toNat 0 + (e.fieldIndex &&& ~~~byteFieldMarker).toNat) = _
    unfold objFieldAddr
    rw [Nat.mul_zero, Nat.add_zero, Nat.add_assoc]
  · have hbyte' : ¬ IsByteEntry e := hbyte
    rw [if_neg hbyte, if_neg hbyte']
    show wrap64 (objFieldAddr e.object.toNat e.fieldIndex.toNat) = _
    unfold objFieldAddr
    rw [Nat.add_assoc]

theorem entryWrite_size (e : LogEntry) : (entryWrite e).size = entryWidth e := by
  unfold entryWrite entryWidth
  by_cases hbyte : e.fieldIndex >>> 63 ≠ 0
  · have hbyte' : IsByteEntry e := hbyte
    rw [if_pos hbyte, if_pos hbyte']
    rfl
  · have hbyte' : ¬ IsByteEntry e := hbyte
    rw [if_neg hbyte, if_neg hbyte']
    rfl

theorem commitEntry_eq_store (m : Mem) (e : LogEntry) : commitEntry m e = (entryWrite e).store m := by
  unfold commitEntry entryWrite
  split <;> rfl

theorem BodyWrite.store_of_out (m : Mem) (w : BodyWrite) {b : Nat}
    (hb : b < w.address ∨ w.address + w.size ≤ b) : w.store m b = m b := by
  cases w with
  | word object index value => exact store64_of_out m value hb
  | byte object index value =>
    have hb' : b < wrap64 (objFieldAddr object 0 + index)
      ∨ wrap64 (objFieldAddr object 0 + index) + 1 ≤ b := hb
    exact store8_of_ne m value (by omega)

theorem BodyWrite.heldBy_store (m : Mem) (w : BodyWrite) : w.HeldBy (w.store m) := by
  cases w with
  | word object index value => exact load64_store64_self m _ value
  | byte object index value => exact store8_self m _ value

theorem BodyWrite.HeldBy.congr {m m' : Mem} {w : BodyWrite} (hw : w.HeldBy m)
    (hsame : ∀ b, w.address ≤ b → b < w.address + w.size → m' b = m b) : w.HeldBy m' := by
  cases w with
  | word object index value =>
    show load64 m' (BodyWrite.word object index value).address = value
    rw [load64_congr (fun i hi => hsame _ (Nat.le_add_right _ i) (Nat.add_lt_add_left hi _))]
    exact hw
  | byte object index value =>
    exact (hsame _ (Nat.le_refl _) (Nat.lt_succ_self _)).trans hw

/-- The bytes of two stores do not meet. -/
def BodyWrite.Apart (w w' : BodyWrite) : Prop :=
  w.address + w.size ≤ w'.address ∨ w'.address + w'.size ≤ w.address

/-- A store stays in place under later stores apart from it. -/
theorem installed_held (before after : List LogEntry) (e : LogEntry)
    (hapart : ∀ e' ∈ after, (entryWrite e').Apart (entryWrite e)) (r : ReplayHeap) :
    (entryWrite e).HeldBy ((before ++ e :: after).foldl installEntry r).mem := by
  rw [List.foldl_append, List.foldl_cons]
  have hfirst : (entryWrite e).HeldBy (installEntry (before.foldl installEntry r) e).mem := by
    show (entryWrite e).HeldBy (commitEntry _ e)
    rw [commitEntry_eq_store]
    exact BodyWrite.heldBy_store _ _
  generalize installEntry (before.foldl installEntry r) e = r₁ at hfirst
  induction after generalizing r₁ with
  | nil => exact hfirst
  | cons e' after ih =>
    rw [List.foldl_cons]
    refine ih (fun x hx => hapart x (List.mem_cons_of_mem e' hx)) _ (hfirst.congr ?_)
    intro b hlo hhi
    show commitEntry r₁.mem e' b = r₁.mem b
    have hout := hapart e' List.mem_cons_self
    unfold BodyWrite.Apart at hout
    rw [commitEntry_eq_store]
    exact BodyWrite.store_of_out _ _ (by omega)

/-- The marked indices are those with the top bit. -/
theorem marked_high {i : UInt64} (h : i >>> 63 ≠ 0) : 2 ^ 63 ≤ i.toNat := by
  by_contra hlow
  apply h
  rw [← UInt64.toNat_inj, UInt64.toNat_shiftRight]
  show i.toNat >>> 63 = 0
  rw [Nat.shiftRight_eq_div_pow]
  exact Nat.div_eq_of_lt (by omega)

/-- The byte index below the marker. -/
theorem byteIndex_toNat {i : UInt64} (h : i >>> 63 ≠ 0) :
    (i &&& ~~~byteFieldMarker).toNat = i.toNat - 2 ^ 63 := by
  have hhigh := marked_high h
  have hlt := i.toNat_lt
  have hmask : (~~~byteFieldMarker).toNat = 2 ^ 63 - 1 := by decide
  rw [UInt64.toNat_and, hmask, Nat.and_two_pow_sub_one_eq_mod]
  omega

/-- An entry writes inside a live object of its kind. -/
structure SlotIn (h : Heap) (live : Set Extent) (e : LogEntry) : Prop where
  object : ∃ x ∈ live, x.addr = e.object.toNat ∧ entryOffset e + entryWidth e ≤ x.bytes
  format : IsByteEntry e ↔ objFormat h.mem e.object.toNat = formatBytes

theorem EntryIn.slotIn {h : Heap} {live : Set Extent} {e : LogEntry} (he : EntryIn h live e) :
    SlotIn h live e := ⟨he.object, he.format⟩

/-- Entries for different slots write apart. -/
theorem SlotIn.apart {h : Heap} {live : Set Extent} (hs : Separate live) {e e' : LogEntry}
    (he : SlotIn h live e) (he' : SlotIn h live e')
    (hne : ¬ (e'.object = e.object ∧ e'.fieldIndex = e.fieldIndex)) :
    e'.object.toNat + entryOffset e' + entryWidth e' ≤ e.object.toNat + entryOffset e ∨
      e.object.toNat + entryOffset e + entryWidth e ≤ e'.object.toNat + entryOffset e' := by
  obtain ⟨x, hx, haddr, hin⟩ := he.object
  obtain ⟨x', hx', haddr', hin'⟩ := he'.object
  by_cases hsame : x = x'
  · -- one object: both entries write bytes or both write words
    subst hsame
    have hobject : e'.object = e.object := UInt64.toNat_inj.mp (haddr'.symm.trans haddr)
    have hindex : e'.fieldIndex ≠ e.fieldIndex := fun heq => hne ⟨hobject, heq⟩
    have hindexNat : e'.fieldIndex.toNat ≠ e.fieldIndex.toNat := fun heq =>
      hindex (UInt64.toNat_inj.mp heq)
    have hkind : IsByteEntry e' ↔ IsByteEntry e := by
      rw [he'.format, he.format, hobject]
    unfold entryOffset entryWidth
    by_cases hbyte : IsByteEntry e
    · have hbyte' := hkind.mpr hbyte
      have hlt := byteIndex_toNat hbyte
      have hlt' := byteIndex_toNat hbyte'
      have hhigh := marked_high hbyte
      have hhigh' := marked_high hbyte'
      rw [if_pos hbyte, if_pos hbyte, if_pos hbyte', if_pos hbyte', hlt, hlt', hobject]
      omega
    · have hbyte' : ¬ IsByteEntry e' := fun h => hbyte (hkind.mp h)
      rw [if_neg hbyte, if_neg hbyte, if_neg hbyte', if_neg hbyte', hobject]
      omega
  · -- two objects: their extents do not meet
    by_contra hover
    have hwidth : 0 < entryWidth e ∧ 0 < entryWidth e' := by
      unfold entryWidth
      constructor <;> split <;> omega
    apply hsame
    refine hs.disjoint x hx x' hx'
      (max (e.object.toNat + entryOffset e) (e'.object.toNat + entryOffset e')) ?_ ?_
    · unfold Extent.Holds
      omega
    · unfold Extent.Holds
      omega

theorem entryOffset_ge (e : LogEntry) : 24 ≤ entryOffset e := by
  unfold entryOffset
  split <;> omega

theorem entryWidth_pos (e : LogEntry) : 0 < entryWidth e := by
  unfold entryWidth
  split <;> omega

section Entry

variable {h : Heap} {live : Set Extent} {e : LogEntry}

/-- Where an entry is stored. -/
theorem SlotIn.address (hs : Separate live) (he : SlotIn h live e) :
    (entryWrite e).address = e.object.toNat + entryOffset e := by
  obtain ⟨x, hx, haddr, hin⟩ := he.object
  have hbound := hs.inMemory x hx
  have hwidth := entryWidth_pos e
  rw [entryWrite_address, wrap64_of_lt (by omega)]

/-- What an entry leaves alone. -/
theorem SlotIn.leaves (hs : Separate live) (he : SlotIn h live e) {b : Nat}
    (hb : b < e.object.toNat + entryOffset e ∨
      e.object.toNat + entryOffset e + entryWidth e ≤ b) : Leaves (commitEntry · e) b := by
  intro m
  show commitEntry m e b = m b
  rw [commitEntry_eq_store]
  apply BodyWrite.store_of_out
  rw [he.address hs, entryWrite_size]
  exact hb

/-- An entry leaves every address outside the bodies of live objects alone. -/
theorem SlotIn.leaves_outside (hl : Layout h live) (he : SlotIn h live e) {b : Nat}
    (hb : ∀ x ∈ live, x.addr + 24 ≤ b → ¬ b < x.addr + x.bytes) : Leaves (commitEntry · e) b := by
  obtain ⟨x, hx, haddr, hin⟩ := he.object
  have hoffset := entryOffset_ge e
  apply he.leaves hl.separate
  by_contra hover
  exact hb x hx (by omega) (by omega)

/-- An entry leaves headers alone. -/
theorem SlotIn.leaves_header (hl : Layout h live) (he : SlotIn h live e) {x : Extent}
    (hx : x ∈ live) {i : Nat} (hi : i < 24) : Leaves (commitEntry · e) (x.addr + i) := by
  apply he.leaves_outside hl
  intro y hy hlo hhi
  have hsize := (hl.objects x hx).nonempty
  have hsame := hl.disjoint x hx y hy (x.addr + i) ⟨by omega, by omega⟩ ⟨by omega, by omega⟩
  subst hsame
  omega

end Entry

/-! ## §5. What the replay restores. -/

/-- What the replay makes of a committed entry. -/
def restoredAt (start base used : Nat) (e : LogEntry) : LogEntry :=
  { object := UInt64.ofNat (base + (e.object.toNat - start))
    fieldIndex := e.fieldIndex
    value := decodeDurableLogValue
      (if isObjectPtr e.value ∧ e.value ≠ 0 then UInt64.ofNat (e.value.toNat - start + 8)
        else e.value) base used }

/-- The frame of an entry does not matter, as long as the heap it was logged in
holds the object its value refers to. -/
theorem restoredEntry_eq (range : HeapRange) {base used : Nat} {e : LogEntry}
    (hrange : isObjectPtr e.value = true → e.value ≠ 0 →
      range.start ≤ e.value.toNat ∧ e.value.toNat < range.limit) :
    restoredEntry range base used e = restoredAt range.start base used e := by
  unfold restoredEntry restoredAt
  congr 1
  unfold encodeDurableLogValue
  by_cases href : isObjectPtr e.value = true ∧ e.value ≠ 0
  · obtain ⟨hlo, hhi⟩ := hrange href.1 href.2
    rw [if_pos ⟨href.1, hlo, hhi⟩, if_pos href]
  · rw [if_neg href, if_neg]
    intro ⟨hptr, hlo, hhi⟩
    apply href
    refine ⟨hptr, fun hzero => ?_⟩
    rw [hzero] at hlo
    have hnonNull := range.nonNull
    simp only [UInt64.toNat_zero] at hlo
    omega

/-- A reference to an object of the checkpoint is restored moved. -/
theorem restoredAt_moved {start base used : Nat} {e : LogEntry} (hused : used ≤ 2 ^ 63)
    (hvalue : isObjectPtr e.value = true → e.value ≠ 0 →
      e.value.toNat % 8 = start % 8 ∧ start ≤ e.value.toNat ∧ start % 8 = 0 ∧
        e.value.toNat - start + 8 ≤ used) :
    restoredAt start base used e = movedEntry start base e := by
  unfold restoredAt movedEntry
  congr 1
  unfold movedValue decodeDurableLogValue
  by_cases href : isObjectPtr e.value = true ∧ e.value ≠ 0
  · obtain ⟨halign, hlo, hstart, hin⟩ := hvalue href.1 href.2
    have hnat : (UInt64.ofNat (e.value.toNat - start + 8)).toNat = e.value.toNat - start + 8 :=
      toNat_ofNat64 (by omega)
    have hptr : isObjectPtr (UInt64.ofNat (e.value.toNat - start + 8)) = true := by
      rw [isObjectPtr_iff, hnat]
      omega
    rw [if_pos href, if_pos href, hnat, if_pos ⟨hptr, by omega, hin⟩, Nat.add_sub_cancel]
  · rw [if_neg href, if_neg href, if_neg]
    intro ⟨hptr, h8, _⟩
    apply href
    refine ⟨hptr, fun hzero => ?_⟩
    rw [hzero] at h8
    exact absurd h8 (by decide)

/-- **Replaying the frames** succeeds exactly when every logged object lies in the
restored range, and then installs every entry in order. -/
theorem applyFrames_within (restored : HeapRange) (txns : List CommittedTxn) (r : ReplayHeap) :
    ((applyFrames (fun txn => replayEntries restored.start restored.used (CommittedTxn.body txn))
        txns r).1 = true ↔
      ∀ txn ∈ txns, ∀ e ∈ txn.log.entries, e.object.toNat - txn.live.start < restored.used) ∧
    ((∀ txn ∈ txns, ∀ e ∈ txn.log.entries, e.object.toNat - txn.live.start < restored.used) →
      applyFrames (fun txn => replayEntries restored.start restored.used (CommittedTxn.body txn))
          txns r
        = (true, (txns.flatMap (fun txn => txn.log.entries.map
            (restoredEntry txn.live restored.start restored.used))).foldl installEntry r)) := by
  induction txns generalizing r with
  | nil => exact ⟨⟨fun _ txn htxn => absurd htxn List.not_mem_nil, fun _ => rfl⟩, fun _ => rfl⟩
  | cons txn txns ih =>
    obtain ⟨hok, hall⟩ := replayEntries_within txn.live restored txn.log r
    rw [applyFrames, List.forall_mem_cons, List.flatMap_cons, List.foldl_append]
    by_cases hin : ∀ e ∈ txn.log.entries, e.object.toNat - txn.live.start < restored.used
    · have hbody : replayEntries restored.start restored.used txn.body r = _ := hall hin
      rw [hbody]
      obtain ⟨hok', hall'⟩ := ih ((txn.log.entries.map
        (restoredEntry txn.live restored.start restored.used)).foldl installEntry r)
      exact ⟨⟨fun h => ⟨hin, hok'.mp h⟩, fun h => hok'.mpr h.2⟩, fun h => hall' h.2⟩
    · have hfail : (replayEntries restored.start restored.used txn.body r).1 ≠ true :=
        fun h => hin (hok.mp h)
      rcases hbody : replayEntries restored.start restored.used txn.body r with ⟨ok, r'⟩
      rw [hbody] at hfail
      obtain rfl : ok = false := by simpa using hfail
      exact ⟨⟨fun h => absurd h (by simp), fun h => absurd h.1 hin⟩, fun h => absurd h.1 hin⟩

/-- The used size a checkpoint records. -/
theorem checkpointContents_usedSize {h : Heap} {live : Set Extent} (hl : Layout h live)
    {roots : ImageRoots} {disk : Option (List UInt8)} {file : CheckpointFile}
    (hfile : checkpointContents h roots disk = some file) :
    file.header.usedSize.toNat = h.om.free - h.om.start := by
  obtain ⟨-, -, -, -, -, hheader, -⟩ := checkpointContents_eq hfile
  have hbound := hl.placed.stopBound
  have hlimit := hl.placed.limitStop
  have hfree := hl.placed.freeLimit
  rw [hheader]
  exact toNat_ofNat64 (by omega)

/-! ## §6. Exactly what survives. -/

section Survive

variable {s : VmState} {t : DurableState} {restored : HeapRange}

/-- Where an entry of an object of the checkpoint is restored. -/
theorem restoredAt_place (hs : s.Inv) (ht : DurableState.Inv s t) {e : LogEntry}
    (he : e ∈ t.committed) (hold : ∃ x ∈ s.live, x.addr = e.object.toNat)
    (hused : restored.used = s.heap.om.free - s.heap.om.start) (hlimit : restored.limit ≤ 2 ^ 63) :
    (entryWrite (restoredAt s.heap.om.start restored.start restored.used e)).address
        = restored.start + (e.object.toNat - s.heap.om.start) + entryOffset e ∧
      (entryWrite (restoredAt s.heap.om.start restored.start restored.used e)).size
        = entryWidth e := by
  obtain ⟨x, hx, haddr⟩ := hold
  obtain ⟨y, hy, haddr', hin⟩ := (ht.entries e he).object
  have hsame : x = y := by
    have hsize := (ht.layout.objects y hy).nonempty
    have hsize' := (ht.layout.objects x (ht.kept hx)).nonempty
    refine ht.layout.disjoint x (ht.kept hx) y hy x.addr ?_ ?_
    · unfold Extent.Holds
      omega
    · unfold Extent.Holds
      omega
  subst hsame
  have habove := (hs.layout.objects x hx).above
  have hbelow := (hs.layout.objects x hx).below
  have horder := restored.ordered
  unfold HeapRange.used at hused
  have hobject : (restoredAt s.heap.om.start restored.start restored.used e).object.toNat
      = restored.start + (e.object.toNat - s.heap.om.start) := toNat_ofNat64 (by omega)
  have hwidth : 0 < entryWidth e := by
    unfold entryWidth
    split <;> omega
  constructor
  · rw [entryWrite_address, hobject]
    show wrap64 (_ + entryOffset e) = _
    exact wrap64_of_lt (by omega)
  · rw [entryWrite_size]
    rfl

/-- The replay reaches every logged object exactly when all of them were there at
the checkpoint. -/
theorem objects_within_iff (hs : s.Inv) (ht : DurableState.Inv s t)
    (hused : restored.used = s.heap.om.free - s.heap.om.start) {txns : List CommittedTxn}
    (hentries : txns.flatMap (fun txn => txn.log.entries) = t.committed)
    (hstart : ∀ txn ∈ txns, txn.live.start = s.heap.om.start) :
    (∀ txn ∈ txns, ∀ e ∈ txn.log.entries, e.object.toNat - txn.live.start < restored.used) ↔
      ∀ e ∈ t.committed, ∃ x ∈ s.live, x.addr = e.object.toNat := by
  rw [← hentries]
  constructor
  · intro hin e he
    obtain ⟨txn, htxn, hentry⟩ := List.mem_flatMap.mp he
    have hlt := hin txn htxn e hentry
    obtain ⟨x, hx, haddr, -⟩ := (ht.entries e (by rw [← hentries]; exact he)).object
    have habove := (ht.layout.objects x hx).above
    rw [ht.start] at habove
    rw [hstart txn htxn] at hlt
    exact ⟨x, (ht.old_iff hs hx).mpr (by omega), haddr⟩
  · intro hold txn htxn e hentry
    obtain ⟨x, hx, haddr⟩ := hold e (List.mem_flatMap.mpr ⟨txn, htxn, hentry⟩)
    have habove := (hs.layout.objects x hx).above
    have hbelow := (hs.layout.objects x hx).below
    have hsize := (hs.layout.objects x hx).nonempty
    rw [hstart txn htxn]
    omega

/-- The restart in terms of the committed entries. -/
theorem restart_committed (hs : s.Inv) (hready : s.Ready) {roots : ImageRoots}
    {file : CheckpointFile} (hfile : checkpointContents s.heap roots s.disk = some file)
    (ht : DurableState.Inv s t) (hused : restored.used = s.heap.om.free - s.heap.om.start)
    (hlimit : restored.limit ≤ 2 ^ 63) (r : ReplayHeap) :
    ∃ m, ((restart restored.start (some file.bytes) t.journal r).isSome = true ↔
        ∀ e ∈ t.committed, ∃ x ∈ s.live, x.addr = e.object.toNat) ∧
      ((∀ e ∈ t.committed, ∃ x ∈ s.live, x.addr = e.object.toNat) →
        restart restored.start (some file.bytes) t.journal r
          = some ((t.committed.map (restoredAt s.heap.om.start restored.start restored.used)).foldl
              installEntry { r with mem := m })) := by
  have horder := restored.ordered
  have hroom : restored.start + (s.heap.om.free - s.heap.om.start) ≤ 2 ^ 63 := by
    unfold HeapRange.used at hused
    omega
  obtain ⟨image, hload, hheader⟩ := loadCheckpoint_some hs.layout hroom hfile
    (hs.holdsFresh hready hfile) hready.noFreePage r.mem
  have husedSize : image.header.usedSize.toNat = restored.used := by
    rw [hheader, checkpointContents_usedSize hs.layout hfile, hused]
  obtain ⟨txns, hjournal, hentries, htxns⟩ := ht.frames
  have hwithin := objects_within_iff hs ht hused hentries (fun txn htxn => (htxns txn htxn).1)
  obtain ⟨hok, hall⟩ := applyFrames_within restored txns { r with mem := image.mem }
  have hreplay : txnLogReplay restored.start image.header.usedSize.toNat t.journal
      { r with mem := image.mem }
      = applyFrames (fun txn => replayEntries restored.start restored.used (CommittedTxn.body txn))
          txns { r with mem := image.mem } := by
    rw [husedSize, txnLogReplay_getD, hjournal]
    exact txnLogReplay_frames restored.start restored.used txns _
  have hmap : txns.flatMap (fun txn => txn.log.entries.map
        (restoredEntry txn.live restored.start restored.used))
      = t.committed.map (restoredAt s.heap.om.start restored.start restored.used) := by
    rw [← hentries, List.map_flatMap]
    apply List.flatMap_congr
    intro txn htxn
    apply List.map_congr_left
    intro e he
    have hmem : e ∈ t.committed := by
      rw [← hentries]
      exact List.mem_flatMap.mpr ⟨txn, htxn, he⟩
    rw [← (htxns txn htxn).1]
    apply restoredEntry_eq
    intro hptr hne
    obtain ⟨y, hy, hvalue⟩ := (ht.entries e hmem).refers hptr hne
    have habove := (ht.layout.objects y hy).above
    rw [ht.start] at habove
    exact ⟨by rw [(htxns txn htxn).1]; omega, (htxns txn htxn).2 e he hptr hne⟩
  refine ⟨image.mem, ?_, ?_⟩
  · rw [← hwithin, ← hok]
    unfold restart
    rw [hload]
    simp only [Option.bind_eq_bind, Option.bind_some, hreplay]
    rcases applyFrames (fun txn => replayEntries restored.start restored.used
      (CommittedTxn.body txn)) txns { r with mem := image.mem } with ⟨ok, r'⟩
    cases ok <;> simp
  · intro hold
    unfold restart
    rw [hload]
    simp only [Option.bind_eq_bind, Option.bind_some, hreplay]
    rw [hall (hwithin.mpr hold), hmap]

/-- **Exactly what survives**, in any state the invariant holds of. -/
theorem survives_iff (hs : s.Inv) (hready : s.Ready) {roots : ImageRoots} {file : CheckpointFile}
    (hfile : checkpointContents s.heap roots s.disk = some file) (ht : DurableState.Inv s t)
    (hused : restored.used = s.heap.om.free - s.heap.om.start) (hlimit : restored.limit ≤ 2 ^ 63)
    (r : ReplayHeap) :
    Survives s file t restored.start r ↔ AtCheckpoint s.live t.committed := by
  obtain ⟨m, hsome, hrestart⟩ := restart_committed hs hready hfile ht hused hlimit r
  have horder := restored.ordered
  have hroom : restored.start + (s.heap.om.free - s.heap.om.start) ≤ 2 ^ 63 := by
    unfold HeapRange.used at hused
    omega
  have hbound := hs.layout.placed.stopBound
  have hfreeLimit := hs.layout.placed.freeLimit
  have hlimitStop := hs.layout.placed.limitStop
  constructor
  · intro ⟨r', hr', hslots⟩
    refine ⟨hsome.mp (by rw [hr']; rfl), ?_⟩
    intro e hlast hptr hne
    obtain ⟨-, href⟩ := hslots e hlast
    obtain ⟨x, hx, hmoved⟩ := href hptr hne
    have hmem : e ∈ t.committed := by
      obtain ⟨before, after, heq, -⟩ := hlast
      rw [heq]
      exact List.mem_append_right _ List.mem_cons_self
    obtain ⟨y, hy, hvalue⟩ := (ht.entries e hmem).refers hptr hne
    have habove := (hs.layout.objects x hx).above
    have habove' := (ht.layout.objects y hy).above
    have hbelow' := (ht.layout.objects y hy).below
    have hsize' := (ht.layout.objects y hy).nonempty
    have hbound' := ht.layout.placed.stopBound
    have hfreeLimit' := ht.layout.placed.freeLimit
    have hlimitStop' := ht.layout.placed.limitStop
    rw [ht.start] at habove'
    refine ⟨x, hx, ?_⟩
    unfold movedValue at hmoved
    rw [if_pos ⟨hptr, hne⟩, toNat_ofNat64 (by omega)] at hmoved
    omega
  · intro hat
    refine ⟨_, hrestart hat.objects, ?_⟩
    intro e hlast
    have hlast' := hlast
    obtain ⟨before, after, heq, hafter⟩ := hlast'
    have hmem : e ∈ t.committed := by
      rw [heq]
      exact List.mem_append_right _ List.mem_cons_self
    have hvalue : isObjectPtr e.value = true → e.value ≠ 0 →
        ∃ x ∈ s.live, x.addr = e.value.toNat := hat.values e hlast
    have hmoved : restoredAt s.heap.om.start restored.start restored.used e
        = movedEntry s.heap.om.start restored.start e := by
      apply restoredAt_moved (by omega)
      intro hptr hne
      obtain ⟨x, hx, haddr⟩ := hvalue hptr hne
      have hobj := hs.layout.objects x hx
      have halign := hobj.aligned
      have habove := hobj.above
      have hbelow := hobj.below
      have hsize := hobj.nonempty
      have hstartAligned := hs.layout.placed.startAligned
      omega
    refine ⟨?_, ?_⟩
    · rw [← hmoved, heq, List.map_append, List.map_cons]
      apply installed_held
      intro e' he'
      obtain ⟨e₁, he₁, rfl⟩ := List.mem_map.mp he'
      have hmem₁ : e₁ ∈ t.committed := by
        rw [heq]
        exact List.mem_append_right _ (List.mem_cons_of_mem e he₁)
      obtain ⟨haddr, hwidth⟩ := restoredAt_place hs ht hmem (hat.objects e hmem) hused hlimit
      obtain ⟨haddr₁, hwidth₁⟩ := restoredAt_place hs ht hmem₁ (hat.objects e₁ hmem₁) hused hlimit
      have hapart := (ht.entries e hmem).slotIn.apart ht.layout.separate (ht.entries e₁ hmem₁).slotIn
        (hafter e₁ he₁)
      obtain ⟨x, hx, hxaddr⟩ := hat.objects e hmem
      obtain ⟨x₁, hx₁, hxaddr₁⟩ := hat.objects e₁ hmem₁
      have habove := (hs.layout.objects x hx).above
      have habove₁ := (hs.layout.objects x₁ hx₁).above
      unfold BodyWrite.Apart
      rw [haddr, hwidth, haddr₁, hwidth₁]
      omega
    · intro hptr hne
      obtain ⟨x, hx, haddr⟩ := hvalue hptr hne
      have hbelow := (hs.layout.objects x hx).below
      refine ⟨x, hx, ?_⟩
      unfold movedValue
      rw [if_pos ⟨hptr, hne⟩, toNat_ofNat64 (by omega), haddr]

end Survive

/-- **Durable writes that survive a crash.**  In every run whose checkpoints are
taken in ready states: after the last of them and any legal acts, the restart
finds every durable write exactly when every object written to, and every object
a last written value refers to, was there when that checkpoint was taken. -/
theorem durable_survives_iff (buffer : Buffer) (m : Mem) (disk : Option (List UInt8))
    (steps : List Step) (hmeets : Along Step.Meets (VmState.initial buffer m disk) steps)
    {s : VmState} (hrun : (VmState.initial buffer m disk).run steps = s) (hready : s.Ready)
    {roots : ImageRoots} {file : CheckpointFile}
    (hfile : checkpointContents s.heap roots s.disk = some file)
    (acts : List Act) (hacts : ActsLegal (DurableState.afterCheckpoint s) acts)
    (restored : HeapRange) (hused : restored.used = s.heap.om.free - s.heap.om.start)
    (hlimit : restored.limit ≤ 2 ^ 63) (r : ReplayHeap) :
    Survives s file ((DurableState.afterCheckpoint s).run acts) restored.start r ↔
      AtCheckpoint s.live ((DurableState.afterCheckpoint s).run acts).committed := by
  have hs := (VmState.initial_inv buffer m disk).after steps hmeets
  rw [hrun] at hs
  exact survives_iff hs hready hfile
    (DurableState.Inv.run acts (DurableState.Inv.afterCheckpoint hs hready) hacts) hused hlimit r

/-! ## §7. An object older and one younger than the checkpoint. -/

/-- The heap with one object, when the checkpoint is taken. -/
def oneObject : VmState := freshVm.step oneField

/-- An append nothing goes wrong in. -/
def goodIo : AppendIo := { opens := true, mallocs := true, writes := [], fsyncs := true }

/-- A durable transaction that stores 1 in the first slot of an object. -/
def storeOne (object : Oop) : Act :=
  .durable goodIo { entries := [⟨object, 0, 5⟩], inMemory := by simp }

/-- Room for the restored object. -/
def restoredRange : HeapRange where
  start := 131072
  limit := 131104
  nonNull := by decide
  aligned := by decide
  ordered := by decide
  inMemory := by decide

theorem oneObject_ready : oneObject.Ready := ⟨by decide +kernel, .inl rfl⟩

theorem oneObject_meets : Along Step.Meets freshVm [oneField] :=
  ⟨settled_null (by decide +kernel), trivial⟩

/-- A durable write to an object allocated after the checkpoint makes the restart fail. -/
theorem laterObject_lost : ∃ file, checkpointContents oneObject.heap noRoots oneObject.disk
      = some file ∧
    ActsLegal (DurableState.afterCheckpoint oneObject)
      [.mutate (.alloc (fieldsRequest 1 (by decide))), storeOne 65568] ∧
    ¬ Survives oneObject file ((DurableState.afterCheckpoint oneObject).run
      [.mutate (.alloc (fieldsRequest 1 (by decide))), storeOne 65568]) 131072 zeroHeap := by
  have hs : oneObject.Inv :=
    (VmState.initial_inv twoPages (fun _ => 0) none).after [oneField] oneObject_meets
  obtain ⟨file, hfile⟩ := checkpointContents_some noRoots oneObject.disk hs.layout
    (by decide +kernel)
  have hlive : ((DurableState.afterCheckpoint oneObject).step
      (.mutate (.alloc (fieldsRequest 1 (by decide))))).live = insert ⟨65568, 32⟩ oneObject.live :=
    alloc_lives (DurableState.afterCheckpoint oneObject).heap oneObject.live
      (fieldsRequest 1 (by decide)) (by decide +kernel)
  have hacts : ActsLegal (DurableState.afterCheckpoint oneObject)
      [.mutate (.alloc (fieldsRequest 1 (by decide))), storeOne 65568] := by
    refine ⟨⟨settled_null (by decide +kernel), nofun⟩, ⟨?_, by decide +kernel⟩, trivial⟩
    intro e he
    obtain rfl := List.mem_singleton.mp he
    refine ⟨by decide, ?_, by decide +kernel, by decide, fun hptr => absurd hptr (by decide)⟩
    refine ⟨⟨65568, 32⟩, ?_, rfl, by decide, fun hptr => absurd hptr (by decide)⟩
    rw [hlive]
    exact Set.mem_insert _ _
  refine ⟨file, hfile, hacts, fun hsurvives => ?_⟩
  have hused : restoredRange.used = oneObject.heap.om.free - oneObject.heap.om.start := by
    decide +kernel
  have hat := (survives_iff hs oneObject_ready hfile
    (DurableState.Inv.run _ (DurableState.Inv.afterCheckpoint hs oneObject_ready) hacts)
    hused (by decide) zeroHeap).mp hsurvives
  have hcommitted : (⟨65568, 0, 5⟩ : LogEntry) ∈ ((DurableState.afterCheckpoint oneObject).run
      [.mutate (.alloc (fieldsRequest 1 (by decide))), storeOne 65568]).committed := by
    decide +kernel
  obtain ⟨x, hx, haddr⟩ := hat.objects _ hcommitted
  rw [show oneObject.live = insert ⟨65536, 32⟩ ∅ from oneField_live] at hx
  rcases hx with rfl | hnone
  · exact absurd haddr (by decide)
  · exact hnone

/-- A durable write to the object of the checkpoint survives. -/
theorem olderObject_survives : ∃ file, checkpointContents oneObject.heap noRoots oneObject.disk
      = some file ∧
    Survives oneObject file ((DurableState.afterCheckpoint oneObject).run [storeOne 65536])
      131072 zeroHeap := by
  have hs : oneObject.Inv :=
    (VmState.initial_inv twoPages (fun _ => 0) none).after [oneField] oneObject_meets
  obtain ⟨file, hfile⟩ := checkpointContents_some noRoots oneObject.disk hs.layout
    (by decide +kernel)
  have hlive : (⟨65536, 32⟩ : Extent) ∈ oneObject.live := by
    rw [show oneObject.live = insert ⟨65536, 32⟩ ∅ from oneField_live]
    exact Set.mem_insert _ _
  have hacts : ActsLegal (DurableState.afterCheckpoint oneObject) [storeOne 65536] := by
    refine ⟨⟨?_, by decide +kernel⟩, trivial⟩
    intro e he
    obtain rfl := List.mem_singleton.mp he
    exact ⟨by decide, ⟨⟨65536, 32⟩, hlive, rfl, by decide, fun hptr => absurd hptr (by decide)⟩,
      by decide +kernel, by decide, fun hptr => absurd hptr (by decide)⟩
  have hcommitted : ((DurableState.afterCheckpoint oneObject).run [storeOne 65536]).committed
      = [⟨65536, 0, 5⟩] := by decide +kernel
  have hiff := durable_survives_iff twoPages (fun _ => 0) none [oneField] oneObject_meets
    (show _ = oneObject from rfl) oneObject_ready hfile [storeOne 65536] hacts restoredRange
    (by decide +kernel) (by decide) zeroHeap
  refine ⟨file, hfile, hiff.mpr ⟨?_, ?_⟩⟩
  · rw [hcommitted]
    intro e he
    obtain rfl := List.mem_singleton.mp he
    exact ⟨⟨65536, 32⟩, hlive, rfl⟩
  · rw [hcommitted]
    intro e hlast hptr
    obtain ⟨before, after, heq, -⟩ := hlast
    have he : e ∈ [(⟨65536, 0, 5⟩ : LogEntry)] := by
      rw [heq]
      exact List.mem_append_right _ List.mem_cons_self
    obtain rfl := List.mem_singleton.mp he
    exact absurd hptr (by decide)

end LivingObjects.Checkpoint
