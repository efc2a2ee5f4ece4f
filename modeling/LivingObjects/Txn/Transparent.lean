/-
  LivingObjects.Txn.Transparent — a block inside `atomic:` and outside any transaction.

  The transactional run keeps its writes in the log; the direct run has them in the
  heap.  As long as what is read past the log has no pending write and bytes are stored
  into byte objects, every operation answers the same in both, and the heap with the
  log installed stays the heap of the direct run.
-/
import LivingObjects.Txn.Overlay

namespace LivingObjects.Txn

open LivingObjects.Lib
open LivingObjects.VM
open LivingObjects.ObjectMemory
open LivingObjects.Journal
open LivingObjects.Checkpoint

/-! ## §1. Runs of a block. -/

/-- The live objects after an operation. -/
def Op.lives (h : Heap) (live : Set Extent) : Op → Set Extent
  | .primBasicNew cls =>
    match (readBasicNew cls).run h.mem with
    | .ok req => (Mutation.alloc req).lives h live
    | .error _ => live
  | .primBasicNewSize cls size =>
    match (readBasicNewSize cls size).run h.mem with
    | .ok req => (Mutation.alloc req).lives h live
    | .error _ => live
  | _ => live

/-- The heap as `txn_commit` would leave it. -/
def LoopHeap.installed (s : LoopHeap) : Mem :=
  match s.log with
  | some w => (txnCommitWords w s.heap.mem).1
  | none => s.heap.mem

/-- No byte the reading loads has another value pending. -/
def LoopHeap.Current {α : Type} (s : LoopHeap) (r : Reading α) : Prop :=
  ∀ a ∈ r.footprint s.heap.mem, s.installed a = s.heap.mem a

instance {α : Type} (s : LoopHeap) (r : Reading α) : Decidable (s.Current r) :=
  inferInstanceAs (Decidable (∀ a ∈ r.footprint s.heap.mem, s.installed a = s.heap.mem a))

section Runs

/- The bound on the superclasses of a lookup. -/
variable (depth : Nat)

/-- What the compiler and the callers see to: an instance variable is a field of a live
object, and what is tagged as an object is one. -/
def Op.Legal (s : LoopHeap) (live : Set Extent) : Op → Prop
  | .pushInstVar r index | .storeInstVar r index _ =>
    ∃ x ∈ live, x.addr = r.toNat ∧ objFormat s.heap.mem r.toNat ≠ formatBytes ∧
      index.toNat < objectSlotCount s.heap.mem r.toNat
  | .primSize r | .primAt r _ | .primAtPut r _ _ =>
    isObjectPtr r = true → ∃ x ∈ live, x.addr = r.toNat
  | _ => True

/-- The operation leaves the log within its capacity. -/
def Op.Within (s : LoopHeap) (_ : Set Extent) (op : Op) : Prop :=
  ∀ w, (op.run depth s).2.log = some w → (w 0).toNat ≤ transactionLogEntryCapacity

/-- What the operation reads past the log has nothing pending, and what it stores into
a byte object is a byte. -/
def Op.Meets (s : LoopHeap) (_ : Set Extent) : Op → Prop
  | .fetch bytecodes offset => s.Current (readByte bytecodes offset)
  | .pushLiteral method index => s.Current (readLiteral method index)
  | .pushGlobal method index => s.Current (readGlobal method index)
  | .sendMessage receiver selector classTable =>
    s.Current (readMethod depth receiver selector classTable)
  | .primStringEq receiver arg => s.Current (readStringEq receiver arg)
  | .primStringHashFnv receiver => s.Current (readStringHash receiver)
  | .primBasicNew cls => s.Current (readBasicNew cls)
  | .primBasicNewSize cls size => s.Current (readBasicNewSize cls size)
  | .primAtPut receiver index value =>
    match (readTarget receiver index).run s.heap.mem with
    | .ok (format, _) => format = formatBytes → IsByteValue value
    | .error _ => True
  | .primSize _ | .pushInstVar .. | .storeInstVar .. | .primAt .. => True

/-- Each operation of a run meets a condition in the state before it. -/
def Block.Along (P : LoopHeap → Set Extent → Op → Prop) : Block → LoopHeap → Set Extent → Prop
  | .result _, _, _ => True
  | .step op next, s, live =>
    P s live op ∧
      (next (op.run depth s).1).Along P (op.run depth s).2 (op.lives s.heap live)

/-- The replies, the result and the heap are those of the block outside any transaction;
the dirty bits of the page tables are left out. -/
def Transparent (h : Heap) (w : LogWords) (b : Block) : Prop :=
  (b.runAtomic depth h w).1 = (b.runDirect depth h).1 ∧
  (b.runAtomic depth h w).2.1 = (b.runDirect depth h).2.1 ∧
  (b.runAtomic depth h w).2.2.mem = (b.runDirect depth h).2.2.mem ∧
  SameButDirty (b.runDirect depth h).2.2.om (b.runAtomic depth h w).2.2.om

/-! ## §2. The simulation. -/

/-- The direct run and the transactional one: the heap of the first is the heap of the
second with the log installed. -/
structure Simulates (live : Set Extent) (d t : LoopHeap) (w : LogWords)
    (entries : List LogEntry) : Prop where
  direct : d.log = none
  logged : t.log = some w
  holds : HoldsLog w entries
  room : entries.length ≤ transactionLogEntryCapacity
  mem : d.heap.mem = entries.foldl commitEntry t.heap.mem
  om : SameButDirty t.heap.om d.heap.om
  overlay : Overlay t.heap live entries

section Step

variable {depth} {live : Set Extent} {d t : LoopHeap} {w : LogWords} {entries : List LogEntry}

theorem Simulates.installed (h : Simulates live d t w entries) : t.installed = d.heap.mem := by
  unfold LoopHeap.installed
  rw [h.logged, h.mem]
  exact (h.holds.commit t.heap.mem).1

/-- A reading that is current gives the same in both runs. -/
theorem Simulates.current (h : Simulates live d t w entries) {α : Type} {r : Reading α}
    (hr : t.Current r) : r.run d.heap.mem = r.run t.heap.mem := by
  apply r.run_congr
  intro a ha
  rw [← h.installed]
  exact hr a ha

theorem Simulates.pending (h : Simulates live d t w entries) (object : Oop)
    (fieldIndex : UInt64) : t.pending object fieldIndex = readEntry entries object fieldIndex := by
  unfold LoopHeap.pending
  rw [h.logged]
  exact h.holds.read object fieldIndex

theorem Simulates.pending_direct (h : Simulates live d t w entries) (object : Oop)
    (fieldIndex : UInt64) : d.pending object fieldIndex = none := by
  unfold LoopHeap.pending
  rw [h.direct]
  rfl

/-- The header of a live object is the same in both runs. -/
theorem Simulates.header (h : Simulates live d t w entries) {x : Extent} (hx : x ∈ live) {r : Oop}
    (hr : x.addr = r.toNat) :
    (readFormat r).run t.heap.mem = objFormat t.heap.mem r.toNat ∧
      (readSize r).run t.heap.mem = objSize t.heap.mem r.toNat ∧
      (readFormat r).run d.heap.mem = objFormat t.heap.mem r.toNat ∧
      (readSize r).run d.heap.mem = objSize t.heap.mem r.toNat := by
  have hsize := (h.overlay.layout.objects x hx).nonempty
  have hformatAt := bodyAddress h.overlay.layout hx hr (n := 8) (by omega)
  have hsizeAt := bodyAddress h.overlay.layout hx hr (n := 16) (by omega)
  rw [← hr] at hformatAt hsizeAt
  unfold readFormat readSize objFormat objSize
  simp only [Reading.run_load, ← hr, hformatAt, hsizeAt, h.mem, true_and]
  constructor
  · apply load64_congr
    intro i hi
    rw [Nat.add_assoc]
    exact h.overlay.header hx (by omega)
  · apply load64_congr
    intro i hi
    rw [Nat.add_assoc]
    exact h.overlay.header hx (by omega)

/-- `at:` and `at:put:` check the same things in both runs. -/
theorem Simulates.target (h : Simulates live d t w entries) (r index : Oop)
    (hr : isObjectPtr r = true → ∃ x ∈ live, x.addr = r.toNat) :
    (readTarget r index).run d.heap.mem = (readTarget r index).run t.heap.mem ∧
      ∀ format i, (readTarget r index).run t.heap.mem = .ok (format, i) →
        ∃ x ∈ live, x.addr = r.toNat ∧ objFormat t.heap.mem r.toNat = format ∧
          i < (objSize t.heap.mem r.toNat).toNat := by
  unfold readTarget
  by_cases hptr : isObjectPtr r = true
  · obtain ⟨x, hx, haddr⟩ := hr hptr
    obtain ⟨hft, hst, hfd, hsd⟩ := h.header hx haddr
    simp only [hptr, Bool.not_true, Bool.false_eq_true, if_false, Reading.run_ite,
      Reading.run_bind, Reading.run_pure, hft, hst, hfd, hsd, true_and]
    intro format i hok
    split at hok
    · cases hok
    · split at hok
      · cases hok
      · next hin =>
        simp only [Except.ok.injEq, Prod.mk.injEq] at hok
        obtain ⟨rfl, rfl⟩ := hok
        exact ⟨x, hx, haddr, rfl, by omega⟩
  · simp only [hptr, Bool.not_false, if_true, Reading.run_pure, true_and]
    intro format i hok
    cases hok

/-- A write goes to the heap in one run and to the log in the other. -/
theorem Simulates.write (h : Simulates live d t w entries) {e : LogEntry} {bw : BodyWrite}
    (he : SlotIn t.heap live e) (hbyte : IsByteEntry e → IsByteValue e.value)
    (hbw : bw = entryWrite e)
    (hroom : (txnLogWrite w e 0).toNat ≤ transactionLogEntryCapacity) :
    ∃ w' entries', Simulates live (d.write e bw) (t.write e bw) w' entries' := by
  have hlength := h.room
  unfold transactionLogEntryCapacity at hlength
  have hholds := h.holds.write e (by omega)
  have hcount := hholds.count_toNat
  subst hbw
  refine ⟨txnLogWrite w e, entries ++ [e], ?_⟩
  have hd : d.write e (entryWrite e) = { d with heap :=
      { om := (entryWrite e).mark d.heap.om, mem := (entryWrite e).store d.heap.mem } } := by
    unfold LoopHeap.write
    rw [h.direct]
  have ht : t.write e (entryWrite e) = { t with log := some (txnLogWrite w e) } := by
    unfold LoopHeap.write
    rw [h.logged]
  rw [hd, ht]
  refine ⟨h.direct, rfl, hholds, by omega, ?_, h.om.trans (BodyWrite.mark_same _ _),
    h.overlay.push he hbyte⟩
  show (entryWrite e).store d.heap.mem = (entries ++ [e]).foldl commitEntry t.heap.mem
  rw [List.foldl_append, ← h.mem]
  exact (commitEntry_eq_store _ e).symm

/-- An allocation takes the same place in both runs. -/
theorem Simulates.alloc (h : Simulates live d t w entries) (req : AllocRequest) :
    (d.alloc req).1 = (t.alloc req).1 ∧
      Simulates ((Mutation.alloc req).lives t.heap live) (d.alloc req).2 (t.alloc req).2 w
        entries := by
  have hsame := omAlloc_sameButDirty h.om req
  unfold LoopHeap.alloc Mutation.lives
  cases ha : omAlloc t.heap req with
  | none =>
    simp only [ha] at hsame ⊢
    simp only [hsame, true_and]
    exact h
  | some result =>
    obtain ⟨object, t'⟩ := result
    simp only [ha] at hsame ⊢
    obtain ⟨d', hd', hom, hmem⟩ := hsame
    obtain ⟨-, htmem, -⟩ := omAlloc_cases ha
    obtain ⟨hoverlay, hcommute⟩ := h.overlay.alloc ha
    simp only [hd', true_and]
    have hnew : (if req.format = formatBytes then t'.mem
        else initializeWordFields t'.mem object req.size.toNat)
          = newObject req object t.heap.mem := by
      rw [htmem]
      rfl
    have hnew' : (if req.format = formatBytes then d'.mem
        else initializeWordFields d'.mem object req.size.toNat)
          = newObject req object d.heap.mem := by
      rw [hmem]
      rfl
    rw [hnew, hnew']
    refine ⟨h.direct, h.logged, h.holds, h.room, ?_, hom, hoverlay⟩
    show newObject req object d.heap.mem
      = entries.foldl commitEntry (newObject req object t.heap.mem)
    rw [hcommute, h.mem]

/-- `at:` answers the same in both runs. -/
theorem Simulates.fetchAt (h : Simulates live d t w entries) {x : Extent} (hx : x ∈ live)
    {r : Oop} (hr : x.addr = r.toNat) {i : Nat}
    (hi : i < (objSize t.heap.mem r.toNat).toNat) :
    d.fetchAt r (objFormat t.heap.mem r.toNat) i = t.fetchAt r (objFormat t.heap.mem r.toNat) i := by
  unfold LoopHeap.fetchAt
  by_cases hbytes : objFormat t.heap.mem r.toNat = formatBytes
  · have hread := h.overlay.readByte hx hr hbytes hi
    rw [if_pos hbytes, if_pos hbytes, h.pending, h.pending_direct, h.mem]
    simp only [hread]
    cases readEntry entries r (byteTxnIndex i) <;> rfl
  · rw [if_neg hbytes, if_neg hbytes]
    by_cases hindexable : objFormat t.heap.mem r.toNat = formatIndexable
    · have hslots : objectSlotCount t.heap.mem r.toNat = (objSize t.heap.mem r.toNat).toNat := by
        unfold objectSlotCount slotWords
        rw [if_neg hbytes]
      have hlt := (objSize t.heap.mem r.toNat).toNat_lt
      have hk : (UInt64.ofNat i).toNat = i := toNat_ofNat64 (by omega)
      have hread := h.overlay.readWord hx hr hbytes (k := UInt64.ofNat i)
        (by rw [hk, hslots]; exact hi)
      rw [hk] at hread
      rw [if_pos hindexable, if_pos hindexable, h.pending, h.pending_direct, h.mem]
      simp only [hread]
      cases readEntry entries r (UInt64.ofNat i) <;> rfl
    · rw [if_neg hindexable, if_neg hindexable]

/-- `at:put:` accepts the same in both runs. -/
theorem Simulates.storeAt (h : Simulates live d t w entries) {x : Extent} (hx : x ∈ live)
    {r : Oop} (hr : x.addr = r.toNat) {i : Nat}
    (hi : i < (objSize t.heap.mem r.toNat).toNat) {v : Oop}
    (hv : objFormat t.heap.mem r.toNat = formatBytes → IsByteValue v)
    (hroom : ∀ words, (t.storeAt r (objFormat t.heap.mem r.toNat) i v).2.log = some words →
      (words 0).toNat ≤ transactionLogEntryCapacity) :
    (d.storeAt r (objFormat t.heap.mem r.toNat) i v).1
        = (t.storeAt r (objFormat t.heap.mem r.toNat) i v).1 ∧
      ∃ w' entries', Simulates live (d.storeAt r (objFormat t.heap.mem r.toNat) i v).2
        (t.storeAt r (objFormat t.heap.mem r.toNat) i v).2 w' entries' := by
  unfold LoopHeap.storeAt at hroom ⊢
  by_cases hbytes : objFormat t.heap.mem r.toNat = formatBytes
  · have hvalue := hv hbytes
    obtain ⟨hslot, hbyte, hplace, -⟩ := byteSlot h.overlay.layout h.overlay.sized hx hr hbytes hi v
    have hchecked : ¬ (isSmallint v = false ∨ untagSmallint v < 0 ∨ 255 < untagSmallint v) := by
      obtain ⟨htag, hlo, hhi⟩ := hvalue
      rintro (hbad | hbad | hbad)
      · exact absurd (htag.symm.trans hbad) (by decide)
      · omega
      · omega
    rw [if_pos hbytes] at hroom
    rw [if_pos hbytes, if_pos hbytes]
    rw [if_neg (fun hbad => hchecked hbad.2)] at hroom
    rw [if_neg (fun hbad => hchecked hbad.2), if_neg (fun hbad => hchecked hbad.2)]
    refine ⟨rfl, h.write hslot (fun _ => hvalue) ?_ (hroom _ ?_)⟩
    · unfold entryWrite
      rw [if_pos (show (byteTxnIndex i) >>> 63 ≠ 0 from hbyte)]
      show _ = BodyWrite.byte r.toNat (byteTxnIndex i &&& ~~~byteFieldMarker).toNat _
      rw [hplace, hvalue.untagged]
    · unfold LoopHeap.write
      rw [h.logged]
  · rw [if_neg hbytes] at hroom
    rw [if_neg hbytes, if_neg hbytes]
    by_cases hindexable : objFormat t.heap.mem r.toNat = formatIndexable
    · have hslots : objectSlotCount t.heap.mem r.toNat = (objSize t.heap.mem r.toNat).toNat := by
        unfold objectSlotCount slotWords
        rw [if_neg hbytes]
      have hlt := (objSize t.heap.mem r.toNat).toNat_lt
      have hk : (UInt64.ofNat i).toNat = i := toNat_ofNat64 (by omega)
      obtain ⟨hslot, hword, -⟩ := wordSlot h.overlay.layout hx hr hbytes (k := UInt64.ofNat i)
        (by rw [hk, hslots]; exact hi) v
      rw [if_pos hindexable] at hroom
      rw [if_pos hindexable, if_pos hindexable]
      refine ⟨rfl, h.write hslot (fun hbyte => absurd hbyte hword) ?_ (hroom _ ?_)⟩
      · unfold entryWrite
        rw [if_neg (show ¬ (UInt64.ofNat i) >>> 63 ≠ 0 from hword)]
        show _ = BodyWrite.word r.toNat (UInt64.ofNat i).toNat v
        rw [hk]
      · unfold LoopHeap.write
        rw [h.logged]
    · rw [if_neg hindexable, if_neg hindexable]
      exact ⟨rfl, w, entries, h⟩

/-- An instance variable reads the same in both runs. -/
theorem Simulates.instVar (h : Simulates live d t w entries) {x : Extent} (hx : x ∈ live)
    {r : Oop} (hr : x.addr = r.toNat) (hformat : objFormat t.heap.mem r.toNat ≠ formatBytes)
    {index : UInt32} (hi : index.toNat < objectSlotCount t.heap.mem r.toNat) :
    (readField r index.toNat).run d.heap.mem
      = (readEntry entries r index.toUInt64).getD ((readField r index.toNat).run t.heap.mem) := by
  have hk : index.toUInt64.toNat = index.toNat := UInt32.toNat_toUInt64 index
  have hread := h.overlay.readWord hx hr hformat (k := index.toUInt64) (by rw [hk]; exact hi)
  rw [hk] at hread
  rw [h.mem, hread]

/-- **One operation**: it answers the same in both runs and keeps them together. -/
theorem Simulates.step (h : Simulates live d t w entries) {op : Op} (hlegal : op.Legal t live)
    (hwithin : op.Within depth t live) (hmeets : op.Meets depth t live) :
    (op.run depth d).1 = (op.run depth t).1 ∧
      ∃ w' entries', Simulates (op.lives t.heap live) (op.run depth d).2 (op.run depth t).2
        w' entries' := by
  cases op with
  | fetch bytecodes offset =>
    exact ⟨congrArg Reply.code (h.current hmeets), w, entries, h⟩
  | pushLiteral method index =>
    exact ⟨congrArg Reply.value (h.current hmeets), w, entries, h⟩
  | pushGlobal method index => exact ⟨h.current hmeets, w, entries, h⟩
  | sendMessage receiver selector classTable => exact ⟨h.current hmeets, w, entries, h⟩
  | primStringEq receiver arg => exact ⟨h.current hmeets, w, entries, h⟩
  | primStringHashFnv receiver => exact ⟨h.current hmeets, w, entries, h⟩
  | primSize r =>
    refine ⟨?_, w, entries, h⟩
    show (readSizeReply r).run d.heap.mem = (readSizeReply r).run t.heap.mem
    unfold readSizeReply
    by_cases hptr : isObjectPtr r = true
    · -- the size is in the header, which no entry reaches
      obtain ⟨x, hx, haddr⟩ := hlegal hptr
      obtain ⟨-, hst, -, hsd⟩ := h.header hx haddr
      simp only [hptr, Bool.not_true, Bool.false_eq_true, if_false, Reading.run_bind,
        Reading.run_pure, hst, hsd]
    · simp only [hptr, Bool.not_false, if_true, Reading.run_pure]
  | primBasicNew cls =>
    have hsame : (readBasicNew cls).run d.heap.mem = (readBasicNew cls).run t.heap.mem :=
      h.current hmeets
    simp only [Op.run, Op.lives, hsame]
    cases (readBasicNew cls).run t.heap.mem with
    | error r => exact ⟨rfl, w, entries, h⟩
    | ok req => exact ⟨(h.alloc req).1, w, entries, (h.alloc req).2⟩
  | primBasicNewSize cls size =>
    have hsame : (readBasicNewSize cls size).run d.heap.mem
        = (readBasicNewSize cls size).run t.heap.mem := h.current hmeets
    simp only [Op.run, Op.lives, hsame]
    cases (readBasicNewSize cls size).run t.heap.mem with
    | error r => exact ⟨rfl, w, entries, h⟩
    | ok req => exact ⟨(h.alloc req).1, w, entries, (h.alloc req).2⟩
  | pushInstVar r index =>
    obtain ⟨x, hx, haddr, hformat, hi⟩ := hlegal
    have hread := h.instVar hx haddr hformat hi
    simp only [Op.run, Op.lives, h.pending, h.pending_direct, hread]
    cases readEntry entries r index.toUInt64 with
    | none => exact ⟨rfl, w, entries, h⟩
    | some v => exact ⟨rfl, w, entries, h⟩
  | storeInstVar r index value =>
    obtain ⟨x, hx, haddr, hformat, hi⟩ := hlegal
    have hk : index.toUInt64.toNat = index.toNat := UInt32.toNat_toUInt64 index
    obtain ⟨hslot, hword, -⟩ := wordSlot h.overlay.layout hx haddr hformat
      (k := index.toUInt64) (by rw [hk]; exact hi) value
    refine ⟨rfl, h.write hslot (fun hbyte => absurd hbyte hword) ?_ (hwithin _ ?_)⟩
    · unfold entryWrite
      rw [if_neg (show ¬ index.toUInt64 >>> 63 ≠ 0 from hword)]
      show _ = BodyWrite.word r.toNat index.toUInt64.toNat value
      rw [hk]
    · simp only [Op.run, LoopHeap.write, h.logged]
  | primAt r index =>
    obtain ⟨hsame, hok⟩ := h.target r index hlegal
    simp only [Op.run, Op.lives, hsame]
    cases htarget : (readTarget r index).run t.heap.mem with
    | error reply => exact ⟨rfl, w, entries, h⟩
    | ok target =>
      obtain ⟨x, hx, haddr, hformat, hi⟩ := hok target.1 target.2 htarget
      have hfetch := h.fetchAt hx haddr hi
      rw [hformat] at hfetch
      exact ⟨hfetch, w, entries, h⟩
  | primAtPut r index value =>
    obtain ⟨hsame, hok⟩ := h.target r index hlegal
    unfold Op.Within at hwithin
    simp only [Op.Meets] at hmeets
    simp only [Op.run] at hwithin
    simp only [Op.run, Op.lives, hsame]
    cases htarget : (readTarget r index).run t.heap.mem with
    | error reply => exact ⟨rfl, w, entries, h⟩
    | ok target =>
      obtain ⟨format, i⟩ := target
      obtain ⟨x, hx, haddr, hformat, hi⟩ := hok format i htarget
      simp only [htarget] at hmeets hwithin
      subst hformat
      exact h.storeAt hx haddr hi hmeets hwithin

/-! ## §3. Runs. -/

/-- **A run**: it answers the same with the log and without, up to its end. -/
theorem Simulates.run (b : Block) (h : Simulates live d t w entries)
    (hlegal : b.Along depth Op.Legal t live) (hwithin : b.Along depth (Op.Within depth) t live)
    (hmeets : b.Along depth (Op.Meets depth) t live) :
    (b.run depth d).1 = (b.run depth t).1 ∧ (b.run depth d).2.1 = (b.run depth t).2.1 ∧
      ∃ live' w' entries', Simulates live' (b.run depth d).2.2 (b.run depth t).2.2 w' entries' := by
  induction b generalizing live d t w entries with
  | result v => exact ⟨rfl, rfl, live, w, entries, h⟩
  | step op next ih =>
    obtain ⟨hlegal₁, hlegalRest⟩ := hlegal
    obtain ⟨hwithin₁, hwithinRest⟩ := hwithin
    obtain ⟨hmeets₁, hmeetsRest⟩ := hmeets
    obtain ⟨hreply, w', entries', hnext⟩ := h.step hlegal₁ hwithin₁ hmeets₁
    obtain ⟨hreplies, hresult, hend⟩ := ih (op.run depth t).1 hnext hlegalRest hwithinRest hmeetsRest
    simp only [Block.run, hreply]
    exact ⟨by rw [hreplies], hresult, hend⟩

end Step

theorem markEntry_same (om : Om) (e : LogEntry) : SameButDirty om (markEntry om e) := by
  unfold markEntry
  split
  · split
    · exact omMarkByteDirty_same _ _ _
    · exact omMarkFieldDirty_same _ _ _
  · exact SameButDirty.refl om

theorem markEntries_same (entries : List LogEntry) (om : Om) :
    SameButDirty om (entries.foldl markEntry om) := by
  induction entries generalizing om with
  | nil => exact SameButDirty.refl om
  | cons e es ih => exact (markEntry_same om e).trans (ih (markEntry om e))

theorem clearBuffer_holds (w : LogWords) : HoldsLog (clearBuffer w) [] where
  count := rfl
  triples := trivial
  inMemory := by simp

/-- **`atomic:` changes nothing about a block that reads past the log only what has
nothing pending and stores bytes into byte objects**: the replies, the result and the
heap are those of the block outside any transaction. -/
theorem atomic_transparent (h : Heap) (live : Set Extent) (w : LogWords) (b : Block)
    (hlayout : Layout h live) (hsized : Sized h live)
    (hlegal : b.Along depth Op.Legal ⟨h, some (clearBuffer w)⟩ live)
    (hwithin : b.Along depth (Op.Within depth) ⟨h, some (clearBuffer w)⟩ live)
    (hmeets : b.Along depth (Op.Meets depth) ⟨h, some (clearBuffer w)⟩ live) :
    Transparent depth h w b := by
  have hstart : Simulates live ⟨h, none⟩ ⟨h, some (clearBuffer w)⟩ (clearBuffer w) [] :=
    ⟨rfl, rfl, clearBuffer_holds w, Nat.zero_le _, rfl, SameButDirty.refl h.om,
      ⟨hlayout, hsized, nofun, nofun⟩⟩
  obtain ⟨hreplies, hresult, live', w', entries, hend⟩ :=
    Simulates.run b hstart hlegal hwithin hmeets
  unfold Transparent Block.runAtomic Block.runDirect
  simp only [hend.logged]
  refine ⟨hreplies.symm, hresult.symm, ?_, ?_⟩
  · rw [hend.mem]
    exact (hend.holds.commit _).1
  · exact hend.om.symm.trans (markEntries_same _ _)

end Runs

/-! ## §4. Two blocks. -/

theorem oneField_fits : 8 * (3 + slotWords formatFields 1) ≤ 2 ^ 63 := by decide

theorem stringRequest_roundsUp :
    formatBytes = formatBytes → (1 : UInt64).toNat + 7 < 2 ^ 64 := by decide

theorem stringRequest_fits : 8 * (3 + slotWords formatBytes 1) ≤ 2 ^ 63 := by decide

/-- A request for a string of one byte. -/
def stringRequest : AllocRequest where
  classPtr := 0
  format := formatBytes
  size := 1
  roundsUp := stringRequest_roundsUp
  fits := stringRequest_fits

theorem alloc_layout {h : Heap} {live : Set Extent} (hl : Layout h live) (req : AllocRequest)
    (object : Nat) (hobject : (omAlloc h req).map Prod.fst = some object) :
    Layout ((Mutation.alloc req).run h) (insert ⟨object, req.totalBytes⟩ live) := by
  obtain ⟨⟨object', h'⟩, halloc, rfl⟩ := Option.map_eq_some_iff.mp hobject
  simp only [Mutation.run, halloc]
  exact (omAlloc_layout hl halloc).1

/-- An object of one field at 65536 and strings of one zero byte at 65568 and 65600. -/
def threeObjects : Heap :=
  [fieldsRequest 1 oneField_fits, stringRequest, stringRequest].foldl
    (fun h req => (Mutation.alloc req).run h) twoPageHeap

def threeLive : Set Extent :=
  {⟨65600, stringRequest.totalBytes⟩, ⟨65568, stringRequest.totalBytes⟩,
    ⟨65536, (fieldsRequest 1 oneField_fits).totalBytes⟩}

theorem threeObjects_layout : Layout threeObjects threeLive := by
  have hfresh := omInit_layout twoPages (fun _ => 0)
  have hone := alloc_layout hfresh (fieldsRequest 1 (by decide)) 65536 (by decide +kernel)
  have htwo := alloc_layout hone stringRequest 65568 (by decide +kernel)
  have hthree := alloc_layout htwo stringRequest 65600 (by decide +kernel)
  rwa [insert_empty_eq] at hthree

theorem threeObjects_sized : Sized threeObjects threeLive := by
  rintro x (rfl | rfl | rfl) _ <;> decide +kernel

/-- `o x: 1. o x. s at: 1 put: 2. s at: 1`. -/
def storesAndReads : Block :=
  .step (.storeInstVar 65536 0 5) fun _ =>
  .step (.pushInstVar 65536 0) fun _ =>
  .step (.primAtPut 65568 5 9) fun _ =>
  .step (.primAt 65568 5) fun _ => .result 9

/-- Fields and bytes written are read back, and the commit leaves them in the heap. -/
theorem storesAndReads_transparent : Transparent 4 threeObjects (fun _ => 0) storesAndReads := by
  have hfield : (⟨65536, (fieldsRequest 1 (by decide)).totalBytes⟩ : Extent) ∈ threeLive :=
    .inr (.inr rfl)
  have hstring : (⟨65568, stringRequest.totalBytes⟩ : Extent) ∈ threeLive := .inr (.inl rfl)
  refine atomic_transparent 4 threeObjects threeLive (fun _ => 0) storesAndReads
    threeObjects_layout threeObjects_sized ?_ ?_ ?_
  · exact ⟨⟨_, hfield, rfl, by decide +kernel, by decide +kernel⟩,
      ⟨_, hfield, rfl, by decide +kernel, by decide +kernel⟩, fun _ => ⟨_, hstring, rfl⟩,
      fun _ => ⟨_, hstring, rfl⟩, trivial⟩
  · refine ⟨?_, ?_, ?_, ?_, trivial⟩ <;> intro w hw <;> obtain rfl := Option.some.inj hw <;>
      decide +kernel
  · exact ⟨trivial, trivial, by intro _; decide +kernel, trivial, trivial⟩

/-- `s at: 1 put: 1. s = t`. -/
def storeThenCompare : Block :=
  .step (.primAtPut 65568 5 5) fun _ =>
  .step (.primStringEq 65568 65600) fun r => .result (match r with | .value v => v | _ => 0)

/-- `s at: 1 put: 256`. -/
def storeTooLarge : Block := .step (.primAtPut 65568 5 1025) fun _ => .result 0

/-- In a transaction a string is compared as it was before the writes, and a byte object
takes any value. -/
theorem staleCompare_notTransparent :
    (Layout threeObjects threeLive ∧ Sized threeObjects threeLive ∧
      storeThenCompare.Along 4 Op.Legal ⟨threeObjects, some (clearBuffer (fun _ => 0))⟩ threeLive ∧
      storeThenCompare.Along 4 (Op.Within 4) ⟨threeObjects, some (clearBuffer (fun _ => 0))⟩
        threeLive ∧
      ¬ Transparent 4 threeObjects (fun _ => 0) storeThenCompare) ∧
    (storeTooLarge.Along 4 Op.Legal ⟨threeObjects, some (clearBuffer (fun _ => 0))⟩ threeLive ∧
      ¬ Transparent 4 threeObjects (fun _ => 0) storeTooLarge) := by
  have hstring : (⟨65568, stringRequest.totalBytes⟩ : Extent) ∈ threeLive := .inr (.inl rfl)
  refine ⟨⟨threeObjects_layout, threeObjects_sized, ⟨fun _ => ⟨_, hstring, rfl⟩, trivial, trivial⟩,
    ?_, ?_⟩, ⟨⟨fun _ => ⟨_, hstring, rfl⟩, trivial⟩, ?_⟩⟩
  · refine ⟨?_, ?_, trivial⟩ <;> intro w hw <;> obtain rfl := Option.some.inj hw <;>
      decide +kernel
  · intro htransparent
    have hatomic : (storeThenCompare.runAtomic 4 threeObjects (fun _ => 0)).2.1 = taggedTrue := by
      decide +kernel
    have hdirect : (storeThenCompare.runDirect 4 threeObjects).2.1 = taggedFalse := by
      decide +kernel
    exact absurd (hatomic.symm.trans (htransparent.2.1.trans hdirect)) (by decide)
  · intro htransparent
    have hatomic : (storeTooLarge.runAtomic 4 threeObjects (fun _ => 0)).1 = [.value 65568] := by
      decide +kernel
    have hdirect : (storeTooLarge.runDirect 4 threeObjects).1 = [.failed] := by
      decide +kernel
    exact absurd (hatomic.symm.trans (htransparent.1.trans hdirect)) (by decide)

end LivingObjects.Txn
