/-
  LivingObjects.Gc.Remembered — stores into tenured objects.

  `record_write_barrier` writes to the remembered set, in the format of a transaction log,
  which tenured slots have been given objects of from-space.  `BC_STORE_INST_VAR` calls
  it; `at:put:` and `txn_commit` do not, and `collect_and_retry_allocation` reads neither
  the set nor the slots.  Here are the stores of the mutator on the words of the heap; a
  nested transaction shares the log and neither begins nor commits one.
-/
import Mathlib
import LivingObjects.Gc.Retry

namespace LivingObjects.Gc

open LivingObjects.Stack

/-! ## §1. Stores. -/

/-- The mark of a byte entry in a log. -/
def byteMarker : Nat := 2 ^ 63

/-- The address of `OBJ_FIELD(obj, index)`. -/
def fieldAddress (obj index : Nat) : Nat := obj + 8 * (3 + index)

/-- `OBJ_FIELD(obj, index) = value`. -/
def storeField (obj index value : Nat) (heap : Nat → Nat) : Nat → Nat :=
  Function.update heap (fieldAddress obj index) value

/-- A byte of a word, the first one lowest. -/
def setByte (word lane byte : Nat) : Nat :=
  word - word / 256 ^ lane % 256 * 256 ^ lane + byte * 256 ^ lane

/-- `((uint8_t *)&OBJ_FIELD(obj, 0))[index] = byte`. -/
def storeByte (obj index byte : Nat) (heap : Nat → Nat) : Nat → Nat :=
  let address := fieldAddress obj (index / 8)
  Function.update heap address (setByte (heap address) (index % 8) byte)

/-- One entry of `.Lcommit_loop`. -/
def commitTriple (heap : Nat → Nat) (e : LogTriple) : Nat → Nat :=
  if byteMarker ≤ e.fieldIndex then
    storeByte e.object (e.fieldIndex - byteMarker) (e.value / 4 % 256) heap
  else storeField e.object e.fieldIndex e.value heap

/-- `txn_commit`. -/
def txnCommit (log : List LogTriple) (heap : Nat → Nat) : Nat → Nat :=
  log.foldl commitTriple heap

namespace World

variable (w : World)

/-- The receiver test of `record_write_barrier`. -/
def isTenured (obj : Nat) : Bool :=
  w.om.tenuredStart != 0 && w.om.tenuredStart ≤ obj && obj < w.om.tenuredEnd

/-- The value test of `record_write_barrier`. -/
def isYoung (value : Nat) : Bool :=
  value != 0 && inFromSpace w.om.fromStart w.om.fromEnd value

/-- `record_write_barrier`. -/
def recordWriteBarrier (receiver fieldIndex value : Nat) : World :=
  if w.isTenured receiver && w.isYoung value then
    { w with remembered := w.remembered.map (· ++ [⟨receiver, fieldIndex, value⟩]) }
  else w

/-- A store that goes to the log of the running transaction. -/
def logWrite (e : LogTriple) (log : List LogTriple) (outer : List (Option (List LogTriple))) :
    World :=
  { w with logs := some (log ++ [e]) :: outer }

/-- `BC_STORE_INST_VAR`. -/
def storeInstVar (receiver fieldIndex value : Nat) : World :=
  match w.logs with
  | some log :: outer => w.logWrite ⟨receiver, fieldIndex, value⟩ log outer
  | _ =>
    { w with heap := storeField receiver fieldIndex value w.heap }.recordWriteBarrier receiver
      fieldIndex value

/-- The index of an `at:put:`, counted from 0. -/
def putIndex (index : Nat) : Option Nat :=
  if index % 4 = 1 ∧ index < 2 ^ 63 ∧ 1 ≤ index / 4 then some (index / 4 - 1) else none

/-- `PRIM_AT_PUT` on an object; when the primitive fails nothing changes. -/
def atPut (receiver index value : Nat) : World :=
  match putIndex index with
  | none => w
  | some index =>
    let format := w.heap (receiver + 8)
    if format = 0 ∨ w.heap (receiver + 16) ≤ index then w
    else if format = formatBytes then
      match w.logs with
      | some log :: outer => w.logWrite ⟨receiver, byteMarker + index, value⟩ log outer
      | _ =>
        if value % 4 = 1 ∧ value / 4 ≤ 255 then
          { w with heap := storeByte receiver index (value / 4) w.heap }
        else w
    else if format = 1 then
      match w.logs with
      | some log :: outer => w.logWrite ⟨receiver, index, value⟩ log outer
      | _ => { w with heap := storeField receiver index value w.heap }
    else w

end World

/-- What a mutator does. -/
inductive Mutation where
  | storeInstVar (receiver fieldIndex value : Nat)
  | atPut (receiver index value : Nat)
  /-- A transaction begins, and its log. -/
  | atomic
  | commit
  | abort

def Mutation.step : Mutation → World → World
  | .storeInstVar receiver fieldIndex value, w => w.storeInstVar receiver fieldIndex value
  | .atPut receiver index value, w => w.atPut receiver index value
  | .atomic, w =>
    match w.logs with
    | some _ :: _ => w
    | _ => { w with logs := some [] :: w.logs }
  | .commit, w =>
    match w.logs with
    | some log :: outer => { w with heap := txnCommit log w.heap, logs := outer }
    | _ => w
  | .abort, w => { w with logs := w.logs.tail }

/-! ## §2. The remembered set is complete. -/

/-- A field of a tenured object. -/
structure TenuredSlot (w : World) (objs : Nat → Prop) (o i : Nat) : Prop where
  obj : objs o
  tenured : w.isTenured o = true
  format : w.heap (o + 8) ≠ formatBytes
  index : i < w.heap (o + 16)

/-- The remembered set has an entry for the slot. -/
def Recorded (w : World) (o i : Nat) : Prop :=
  ∃ entries, w.remembered = some entries ∧ ∃ e ∈ entries, e.object = o ∧ e.fieldIndex = i

/-- The same memory and remembered set, whatever the stack and the rest of the VM are. -/
def SameMemory (w w' : World) : Prop :=
  w'.heap = w.heap ∧ w'.om = w.om ∧ w'.remembered = w.remembered

/-- Every tenured slot that holds an object of from-space is recorded, and the next
collection, whenever there is one, leaves in a recorded slot the address in to-space where
that object has been copied. -/
structure Complete (w : World) (objs : Nat → Prop) : Prop where
  recorded : ∀ o i, TenuredSlot w objs o i → w.isYoung (w.heap (fieldAddress o i)) = true →
    Recorded w o i
  updated : ∀ w₁ w₂, SameMemory w w₁ → w₁.collectAndRetry = some w₂ →
    ∀ o i, TenuredSlot w objs o i → Recorded w o i →
      w.isYoung (w.heap (fieldAddress o i)) = true →
      (w.om.toFree ≤ w₂.heap (fieldAddress o i) ∧ w₂.heap (fieldAddress o i) < w.om.toEnd) ∧
        w₂.heap (w.heap (fieldAddress o i)) = w₂.heap (fieldAddress o i) + 1

/-- No tenured slot holds an object of from-space. -/
def NoYoung (w : World) (objs : Nat → Prop) : Prop :=
  ∀ o i, TenuredSlot w objs o i → w.isYoung (w.heap (fieldAddress o i)) = false

/-! ## §3. Objects and the stores into them. -/

/-- The objects do not overlap. -/
def Apart (heap : Nat → Nat) (objs : Nat → Prop) : Prop :=
  ∀ o o', objs o → objs o' → o ≠ o' →
    o + 8 * totalWords heap o ≤ o' ∨ o' + 8 * totalWords heap o' ≤ o

/-- Objects in the heap, tenured and not, whose layout no store changes. -/
structure Laid (w : World) (objs : Nat → Prop) : Prop where
  aligned : ∀ o, objs o → o % 8 = 0
  apart : Apart w.heap objs
  small : ∀ o, objs o → w.heap (o + 16) < byteMarker
  tenuredInside : ∀ o, objs o → w.isTenured o = true →
    o + 8 * totalWords w.heap o ≤ w.om.tenuredEnd
  tenuredApart : w.om.tenuredEnd ≤ w.om.toFree ∨ w.om.toEnd ≤ w.om.tenuredStart
  spacesApart : w.om.fromEnd ≤ w.om.toFree ∨ w.om.toEnd ≤ w.om.fromStart
  toAligned : w.om.toFree % 8 = 0
  collectable : w.om.hasLayout = true

/-- A word of an object's body. -/
structure BodyWord (heap : Nat → Nat) (objs : Nat → Prop) (r j : Nat) : Prop where
  obj : objs r
  header : 3 ≤ j
  inside : j < totalWords heap r

/-- A word of an object lies at one place. -/
theorem word_inj {heap : Nat → Nat} {objs : Nat → Prop} (hapart : Apart heap objs)
    {o r i j : Nat} (ho : objs o) (hr : objs r) (hi : i < totalWords heap o)
    (hj : j < totalWords heap r) (h : o + 8 * i = r + 8 * j) : o = r ∧ i = j := by
  by_cases hne : o = r
  · subst hne
    exact ⟨rfl, by omega⟩
  · have := hapart o r ho hr hne
    omega

/-- What a store into a body leaves alone: every other word of an object. -/
theorem BodyWord.store_other {heap : Nat → Nat} {objs : Nat → Prop} {r j v o i : Nat}
    (h : BodyWord heap objs r j) (hapart : Apart heap objs) (ho : objs o)
    (hi : i < totalWords heap o) (hne : o ≠ r ∨ i ≠ j) :
    Function.update heap (r + 8 * j) v (o + 8 * i) = heap (o + 8 * i) := by
  refine Function.update_of_ne (fun hsame => ?_) _ _
  obtain ⟨rfl, rfl⟩ := word_inj hapart ho h.obj hi h.inside hsame
  omega

/-- Two heaps with the same headers. -/
def SameHeaders (objs : Nat → Prop) (heap heap' : Nat → Nat) : Prop :=
  ∀ o, objs o → heap' (o + 8) = heap (o + 8) ∧ heap' (o + 16) = heap (o + 16)

/-- A store into a body leaves the headers. -/
theorem BodyWord.sameHeaders {heap : Nat → Nat} {objs : Nat → Prop} {r j : Nat}
    (h : BodyWord heap objs r j) (hapart : Apart heap objs) (v : Nat) :
    SameHeaders objs heap (Function.update heap (r + 8 * j) v) := by
  intro o ho
  have hwords := three_le_totalWords heap o
  have hheader := h.header
  exact ⟨h.store_other hapart ho (by omega : 1 < _) (Or.inr (by omega)),
    h.store_other hapart ho (by omega : 2 < _) (Or.inr (by omega))⟩

theorem SameHeaders.refl (objs : Nat → Prop) (heap : Nat → Nat) : SameHeaders objs heap heap :=
  fun _ _ => ⟨rfl, rfl⟩

theorem SameHeaders.trans {objs : Nat → Prop} {heap heap' heap'' : Nat → Nat}
    (h : SameHeaders objs heap heap') (h' : SameHeaders objs heap' heap'') :
    SameHeaders objs heap heap'' :=
  fun o ho => ⟨(h' o ho).1.trans (h o ho).1, (h' o ho).2.trans (h o ho).2⟩

theorem SameHeaders.totalWords {objs : Nat → Prop} {heap heap' : Nat → Nat}
    (h : SameHeaders objs heap heap') {o : Nat} (ho : objs o) :
    totalWords heap' o = totalWords heap o := by
  obtain ⟨hformat, hsize⟩ := h o ho
  unfold Gc.totalWords
  rw [hformat, hsize]

theorem SameHeaders.apart {objs : Nat → Prop} {heap heap' : Nat → Nat}
    (h : SameHeaders objs heap heap') (hapart : Apart heap objs) : Apart heap' objs := by
  intro o o' ho ho' hne
  rw [h.totalWords ho, h.totalWords ho']
  exact hapart o o' ho ho' hne

/-- The layout depends on the headers. -/
theorem Laid.congr {w : World} {objs : Nat → Prop} (h : Laid w objs) {heap' : Nat → Nat}
    (hsame : SameHeaders objs w.heap heap') {w' : World} (hheap : w'.heap = heap')
    (hom : w'.om = w.om) : Laid w' objs := by
  subst hheap
  have htenured : ∀ o, w'.isTenured o = w.isTenured o := fun o => by
    unfold World.isTenured
    rw [hom]
  refine ⟨h.aligned, hsame.apart h.apart, fun o ho => ?_, fun o ho hten => ?_, ?_, ?_, ?_, ?_⟩
  · rw [(hsame o ho).2]
    exact h.small o ho
  · rw [hsame.totalWords ho, hom]
    rw [htenured] at hten
    exact h.tenuredInside o ho hten
  · rw [hom]
    exact h.tenuredApart
  · rw [hom]
    exact h.spacesApart
  · rw [hom]
    exact h.toAligned
  · rw [hom]
    exact h.collectable

/-- So do the tenured slots. -/
theorem tenuredSlot_congr {w w' : World} {objs : Nat → Prop}
    (hsame : SameHeaders objs w.heap w'.heap) (hom : w'.om = w.om) (o i : Nat) :
    TenuredSlot w' objs o i ↔ TenuredSlot w objs o i := by
  have htenured : w'.isTenured o = w.isTenured o := by
    unfold World.isTenured
    rw [hom]
  constructor
  · rintro ⟨hobj, hten, hformat, hindex⟩
    rw [(hsame o hobj).1] at hformat
    rw [(hsame o hobj).2] at hindex
    exact ⟨hobj, htenured ▸ hten, hformat, hindex⟩
  · rintro ⟨hobj, hten, hformat, hindex⟩
    rw [← (hsame o hobj).1] at hformat
    rw [← (hsame o hobj).2] at hindex
    exact ⟨hobj, htenured.symm ▸ hten, hformat, hindex⟩

/-- A field of an object that does not hold bytes is a word of its body. -/
theorem bodyWord_field {heap : Nat → Nat} {objs : Nat → Prop} {o i : Nat} (ho : objs o)
    (hformat : heap (o + 8) ≠ formatBytes) (hi : i < heap (o + 16)) :
    BodyWord heap objs o (3 + i) := by
  refine ⟨ho, by omega, ?_⟩
  unfold totalWords
  rw [if_neg hformat]
  omega

theorem TenuredSlot.bodyWord {w : World} {objs : Nat → Prop} {o i : Nat}
    (h : TenuredSlot w objs o i) : BodyWord w.heap objs o (3 + i) :=
  bodyWord_field h.obj h.format h.index

/-- A byte of an object that holds bytes lies in a word of its body. -/
theorem bodyWord_byte {heap : Nat → Nat} {objs : Nat → Prop} {o i : Nat} (ho : objs o)
    (hformat : heap (o + 8) = formatBytes) (hi : i < heap (o + 16)) :
    BodyWord heap objs o (3 + i / 8) := by
  refine ⟨ho, by omega, ?_⟩
  unfold totalWords
  rw [if_pos hformat]
  omega

/-! ## §4. Logs. -/

/-- An entry for a field of an object, or for a byte of one that holds bytes. -/
def EntryLegal (heap : Nat → Nat) (objs : Nat → Prop) (e : LogTriple) : Prop :=
  objs e.object ∧
    if byteMarker ≤ e.fieldIndex then
      heap (e.object + 8) = formatBytes ∧ e.fieldIndex - byteMarker < heap (e.object + 16)
    else heap (e.object + 8) ≠ formatBytes ∧ e.fieldIndex < heap (e.object + 16)

theorem EntryLegal.congr {heap heap' : Nat → Nat} {objs : Nat → Prop} {e : LogTriple}
    (h : EntryLegal heap objs e) (hsame : SameHeaders objs heap heap') :
    EntryLegal heap' objs e := by
  obtain ⟨hformat, hsize⟩ := hsame e.object h.1
  refine ⟨h.1, ?_⟩
  rw [hformat, hsize]
  exact h.2

/-- An entry is installed by a store into a body, and that of a field into this field. -/
theorem EntryLegal.store {heap : Nat → Nat} {objs : Nat → Prop} {e : LogTriple}
    (h : EntryLegal heap objs e) :
    ∃ j v, BodyWord heap objs e.object j ∧
      commitTriple heap e = Function.update heap (e.object + 8 * j) v ∧
      (heap (e.object + 8) ≠ formatBytes → j = 3 + e.fieldIndex) := by
  obtain ⟨hobj, hfield⟩ := h
  unfold commitTriple
  by_cases hbyte : byteMarker ≤ e.fieldIndex
  · rw [if_pos hbyte] at hfield ⊢
    exact ⟨_, _, bodyWord_byte hobj hfield.1 hfield.2, rfl, fun hno => absurd hfield.1 hno⟩
  · rw [if_neg hbyte] at hfield ⊢
    exact ⟨_, _, bodyWord_field hobj hfield.1 hfield.2, rfl, fun _ => rfl⟩

/-- What the last entry for a field stores. -/
def lastWrite (log : List LogTriple) (o i : Nat) : Option Nat :=
  (log.reverse.find? fun e => e.object == o && e.fieldIndex == i).map LogTriple.value

theorem lastWrite_concat (log : List LogTriple) (e : LogTriple) (o i : Nat) :
    lastWrite (log ++ [e]) o i
      = if e.object = o ∧ e.fieldIndex = i then some e.value else lastWrite log o i := by
  unfold lastWrite
  rw [List.reverse_append, List.reverse_singleton, List.singleton_append, List.find?_cons]
  by_cases hmatch : e.object = o ∧ e.fieldIndex = i
  · simp [hmatch]
  · rw [if_neg hmatch]
    have hno : (e.object == o && e.fieldIndex == i) = false := by
      simpa using hmatch
    rw [hno]

/-- **A commit installs in each field what its last entry says**; headers stay. -/
theorem txnCommit_field {heap : Nat → Nat} {objs : Nat → Prop} {log : List LogTriple}
    (hapart : Apart heap objs) (hsmall : ∀ o, objs o → heap (o + 16) < byteMarker)
    (hlegal : ∀ e ∈ log, EntryLegal heap objs e) :
    SameHeaders objs heap (txnCommit log heap) ∧
      ∀ o i, objs o → heap (o + 8) ≠ formatBytes → i < heap (o + 16) →
        txnCommit log heap (fieldAddress o i)
          = (lastWrite log o i).getD (heap (fieldAddress o i)) := by
  induction log using List.reverseRecOn with
  | nil => exact ⟨SameHeaders.refl objs heap, fun _ _ _ _ _ => rfl⟩
  | append_singleton log e ih =>
    obtain ⟨hsame, hfields⟩ := ih fun e he => hlegal e (List.mem_append_left _ he)
    have he := (hlegal e (by simp)).congr hsame
    have hcommit : txnCommit (log ++ [e]) heap = commitTriple (txnCommit log heap) e :=
      List.foldl_append
    obtain ⟨j, v, hbody, hstore, hplace⟩ := he.store
    have hapart' := hsame.apart hapart
    rw [hcommit]
    refine ⟨hsame.trans (hstore ▸ hbody.sameHeaders hapart' v), fun o i ho hformat hi => ?_⟩
    have hformat' : txnCommit log heap (o + 8) ≠ formatBytes := by
      rw [(hsame o ho).1]
      exact hformat
    have hi' : i < txnCommit log heap (o + 16) := by
      rw [(hsame o ho).2]
      exact hi
    have hfield := bodyWord_field ho hformat' hi'
    rw [lastWrite_concat]
    by_cases hmatch : e.object = o ∧ e.fieldIndex = i
    · obtain ⟨rfl, rfl⟩ := hmatch
      have hword : ¬byteMarker ≤ e.fieldIndex := by
        have := hsmall _ ho
        omega
      rw [if_pos ⟨rfl, rfl⟩, commitTriple, if_neg hword]
      exact Function.update_self _ _ _
    · rw [if_neg hmatch, ← hfields o i ho hformat hi, hstore]
      refine hbody.store_other hapart' ho hfield.inside ?_
      by_cases hobj : o = e.object
      · refine Or.inr fun hj => hmatch ⟨hobj.symm, ?_⟩
        have hindex := hplace (hobj ▸ hformat')
        omega
      · exact Or.inl hobj

/-! ## §5. Steps. -/

/-- The log of the running transaction. -/
def World.runningLog (w : World) : Option (List LogTriple) :=
  match w.logs with
  | some log :: _ => some log
  | _ => none

/-- A step of compiled code: an instance variable the receiver has, an object as the receiver
of `at:put:`. -/
def Mutation.Legal (w : World) (objs : Nat → Prop) : Mutation → Prop
  | .storeInstVar r i _ => objs r ∧ w.heap (r + 8) ≠ formatBytes ∧ i < w.heap (r + 16)
  | .atPut r _ _ => objs r
  | _ => True

/-- What a step stores into a field, if it does. -/
def Mutation.written (w : World) (o i : Nat) : Mutation → Option Nat
  | .storeInstVar r j v => if w.runningLog = none ∧ r = o ∧ j = i then some v else none
  | .atPut r j v =>
    if w.runningLog = none ∧ r = o ∧ World.putIndex j = some i ∧ w.heap (r + 8) = 1 ∧
      i < w.heap (r + 16) then some v
    else none
  | .commit => (w.runningLog.map fun log => lastWrite log o i).getD none
  | _ => none

/-- The layout, and logs of legal entries. -/
structure Sound (w : World) (objs : Nat → Prop) : Prop where
  laid : Laid w objs
  logs : ∀ log, some log ∈ w.logs → ∀ e ∈ log, EntryLegal w.heap objs e

/-- What a step leaves: the headers, legal logs, and in each field what it has written there. -/
structure Stepped (w w' : World) (objs : Nat → Prop) (written : Nat → Nat → Option Nat) : Prop where
  om : w'.om = w.om
  headers : SameHeaders objs w.heap w'.heap
  logs : ∀ log, some log ∈ w'.logs → ∀ e ∈ log, EntryLegal w.heap objs e
  fields : ∀ o i, objs o → w.heap (o + 8) ≠ formatBytes → i < w.heap (o + 16) →
    w'.heap (fieldAddress o i) = (written o i).getD (w.heap (fieldAddress o i))

/-- A step that touches no field. -/
theorem Stepped.unchanged {w w' : World} {objs : Nat → Prop}
    {written : Nat → Nat → Option Nat} (hom : w'.om = w.om) (hheap : w'.heap = w.heap)
    (hlogs : ∀ log, some log ∈ w'.logs → ∀ e ∈ log, EntryLegal w.heap objs e)
    (hnone : ∀ o i, written o i = none) : Stepped w w' objs written where
  om := hom
  headers := hheap ▸ SameHeaders.refl objs w.heap
  logs := hlogs
  fields o i _ _ _ := by rw [hheap, hnone]; rfl

/-- A store into a field. -/
theorem Sound.stored {w : World} {objs : Nat → Prop} (h : Sound w objs) {w' : World}
    {written : Nat → Nat → Option Nat} {r j v : Nat} (hr : objs r)
    (hformat : w.heap (r + 8) ≠ formatBytes) (hj : j < w.heap (r + 16)) (hom : w'.om = w.om)
    (hlogs : w'.logs = w.logs) (hheap : w'.heap = storeField r j v w.heap)
    (hwritten : ∀ o i, written o i = if r = o ∧ j = i then some v else none) :
    Stepped w w' objs written := by
  have hbody := bodyWord_field hr hformat hj
  refine ⟨hom, hheap ▸ hbody.sameHeaders h.laid.apart v, hlogs ▸ h.logs,
    fun o i ho hformat' hi => ?_⟩
  rw [hheap, hwritten]
  by_cases hsame : r = o ∧ j = i
  · obtain ⟨rfl, rfl⟩ := hsame
    rw [if_pos ⟨rfl, rfl⟩]
    exact Function.update_self _ _ _
  · rw [if_neg hsame]
    refine hbody.store_other h.laid.apart ho (bodyWord_field ho hformat' hi).inside ?_
    by_cases hobj : o = r
    · exact Or.inr fun hindex => hsame ⟨hobj.symm, by omega⟩
    · exact Or.inl hobj

/-- A store into an object that holds bytes. -/
theorem Sound.storedByte {w : World} {objs : Nat → Prop} (h : Sound w objs) {w' : World}
    {written : Nat → Nat → Option Nat} {r j v : Nat} (hr : objs r)
    (hformat : w.heap (r + 8) = formatBytes) (hj : j < w.heap (r + 16)) (hom : w'.om = w.om)
    (hlogs : w'.logs = w.logs) (hheap : w'.heap = storeByte r j v w.heap)
    (hnone : ∀ o i, written o i = none) : Stepped w w' objs written := by
  have hbody := bodyWord_byte hr hformat hj
  refine ⟨hom, hheap ▸ hbody.sameHeaders h.laid.apart _, hlogs ▸ h.logs,
    fun o i ho hformat' hi => ?_⟩
  rw [hheap, hnone]
  refine hbody.store_other h.laid.apart ho (bodyWord_field ho hformat' hi).inside (Or.inl ?_)
  rintro rfl
  exact hformat' hformat

/-- An entry added to the running log. -/
theorem Sound.logged {w : World} {objs : Nat → Prop} (h : Sound w objs) {e : LogTriple}
    {log : List LogTriple} {outer : List (Option (List LogTriple))}
    {written : Nat → Nat → Option Nat} (hlogs : w.logs = some log :: outer)
    (he : EntryLegal w.heap objs e) (hnone : ∀ o i, written o i = none) :
    Stepped w (w.logWrite e log outer) objs written := by
  refine .unchanged rfl rfl (fun log' hlog' e' he' => ?_) hnone
  have hmem : some log' ∈ some (log ++ [e]) :: outer := hlog'
  rcases List.mem_cons.mp hmem with heq | houter
  · obtain rfl := Option.some.inj heq
    rcases List.mem_append.mp he' with he' | he'
    · exact h.logs log (hlogs ▸ List.mem_cons_self) e' he'
    · rw [List.mem_singleton.mp he']
      exact he
  · exact h.logs log' (hlogs ▸ List.mem_cons_of_mem _ houter) e' he'

theorem runningLog_some {w : World} {log : List LogTriple} {outer : List (Option (List LogTriple))}
    (h : w.logs = some log :: outer) : w.runningLog = some log := by
  unfold World.runningLog
  rw [h]

theorem runningLog_none {w : World} (h : ∀ log outer, w.logs ≠ some log :: outer) :
    w.runningLog = none := by
  unfold World.runningLog
  split
  · exact absurd ‹_› (h _ _)
  · rfl

/-- The write barrier is no store into the heap. -/
theorem recordWriteBarrier_heap (w : World) (r i v : Nat) :
    (w.recordWriteBarrier r i v).heap = w.heap ∧ (w.recordWriteBarrier r i v).om = w.om ∧
      (w.recordWriteBarrier r i v).logs = w.logs := by
  unfold World.recordWriteBarrier
  split <;> exact ⟨rfl, rfl, rfl⟩

theorem Sound.storeInstVar {w : World} {objs : Nat → Prop} (h : Sound w objs) {r j v : Nat}
    (hr : objs r) (hformat : w.heap (r + 8) ≠ formatBytes) (hj : j < w.heap (r + 16)) :
    Stepped w (w.storeInstVar r j v) objs fun o i => Mutation.written w o i (.storeInstVar r j v) := by
  unfold World.storeInstVar
  split
  · rename_i log outer hlogs
    have hlegal : EntryLegal w.heap objs ⟨r, j, v⟩ := by
      refine ⟨hr, ?_⟩
      have hsmall := h.laid.small r hr
      rw [if_neg (by show ¬byteMarker ≤ j; omega)]
      exact ⟨hformat, hj⟩
    refine h.logged hlogs hlegal fun o i => ?_
    rw [Mutation.written, runningLog_some hlogs, if_neg (by simp)]
  · rename_i hlogs
    obtain ⟨hheap, hom, hsame⟩ := recordWriteBarrier_heap
      { w with heap := storeField r j v w.heap } r j v
    refine h.stored hr hformat hj hom hsame hheap fun o i => ?_
    rw [Mutation.written, runningLog_none hlogs]
    exact if_congr (and_iff_right rfl) rfl rfl

theorem Sound.atPut {w : World} {objs : Nat → Prop} (h : Sound w objs) {r index v : Nat}
    (hr : objs r) :
    Stepped w (w.atPut r index v) objs fun o i => Mutation.written w o i (.atPut r index v) := by
  unfold World.atPut
  cases hindex : World.putIndex index with
  | none =>
    refine .unchanged rfl rfl h.logs fun o i => if_neg ?_
    rw [hindex]
    simp
  | some j =>
    have hother : w.heap (r + 8) ≠ 1 ∨ w.heap (r + 16) ≤ j →
        ∀ o i, Mutation.written w o i (.atPut r index v) = none := by
      intro hor o i
      refine if_neg fun ⟨_, _, hput, hformat, hsize⟩ => ?_
      rw [hindex] at hput
      obtain rfl := Option.some.inj hput
      rcases hor with hor | hor
      · exact hor hformat
      · omega
    dsimp only
    by_cases hfail : w.heap (r + 8) = 0 ∨ w.heap (r + 16) ≤ j
    · rw [if_pos hfail]
      exact .unchanged rfl rfl h.logs (hother (hfail.imp (fun h0 => by omega) id))
    · rw [if_neg hfail]
      have hj : j < w.heap (r + 16) := Nat.lt_of_not_le fun hle => hfail (Or.inr hle)
      have hsmall := h.laid.small r hr
      by_cases hbytes : w.heap (r + 8) = formatBytes
      · have hne : w.heap (r + 8) ≠ 1 := by
          rw [hbytes]
          decide
        rw [if_pos hbytes]
        split
        · rename_i log outer hlogs
          refine h.logged hlogs ⟨hr, ?_⟩ (hother (Or.inl hne))
          show if byteMarker ≤ byteMarker + j then _ else _
          rw [if_pos (Nat.le_add_right _ _)]
          refine ⟨hbytes, ?_⟩
          show byteMarker + j - byteMarker < w.heap (r + 16)
          rw [Nat.add_sub_cancel_left]
          exact hj
        · split
          · exact h.storedByte hr hbytes hj rfl rfl rfl (hother (Or.inl hne))
          · exact .unchanged rfl rfl h.logs (hother (Or.inl hne))
      · rw [if_neg hbytes]
        by_cases hindexable : w.heap (r + 8) = 1
        · rw [if_pos hindexable]
          split
          · rename_i log outer hlogs
            refine h.logged hlogs ⟨hr, ?_⟩ fun o i => if_neg ?_
            · show if byteMarker ≤ j then _ else _
              rw [if_neg (by omega)]
              exact ⟨hbytes, hj⟩
            · rw [runningLog_some hlogs]
              simp
          · rename_i hlogs
            refine h.stored hr hbytes hj rfl rfl rfl fun o i => ?_
            rw [Mutation.written, runningLog_none hlogs, hindex]
            refine if_congr ⟨?_, ?_⟩ rfl rfl
            · rintro ⟨-, hobj, hput, -, -⟩
              exact ⟨hobj, Option.some.inj hput⟩
            · rintro ⟨hobj, rfl⟩
              exact ⟨rfl, hobj, rfl, hindexable, hj⟩
        · rw [if_neg hindexable]
          exact .unchanged rfl rfl h.logs (hother (Or.inl hindexable))

/-- **What a step of the mutator does.** -/
theorem Sound.step {w : World} {objs : Nat → Prop} (h : Sound w objs) {op : Mutation}
    (hlegal : op.Legal w objs) :
    Stepped w (op.step w) objs fun o i => op.written w o i := by
  cases op with
  | storeInstVar r j v => exact h.storeInstVar hlegal.1 hlegal.2.1 hlegal.2.2
  | atPut r j v => exact h.atPut hlegal
  | atomic =>
    unfold Mutation.step
    dsimp only
    split
    · exact .unchanged rfl rfl h.logs fun _ _ => rfl
    · refine .unchanged rfl rfl (fun log hlog e he => ?_) fun _ _ => rfl
      rcases List.mem_cons.mp hlog with heq | hlog
      · obtain rfl := Option.some.inj heq
        exact absurd he List.not_mem_nil
      · exact h.logs log hlog e he
  | commit =>
    unfold Mutation.step
    dsimp only
    split
    · rename_i log outer hlogs
      have hlog := h.logs log (hlogs ▸ List.mem_cons_self)
      obtain ⟨hheaders, hfields⟩ := txnCommit_field h.laid.apart h.laid.small hlog
      refine ⟨rfl, hheaders, fun log' hlog' => h.logs log' (hlogs ▸ List.mem_cons_of_mem _ hlog'),
        fun o i ho hformat hi => ?_⟩
      rw [Mutation.written, runningLog_some hlogs]
      exact hfields o i ho hformat hi
    · rename_i hlogs
      refine .unchanged rfl rfl h.logs fun o i => ?_
      rw [Mutation.written, runningLog_none hlogs]
      rfl
  | abort =>
    exact .unchanged rfl rfl (fun log hlog => h.logs log (List.mem_of_mem_tail hlog)) fun _ _ => rfl

theorem Stepped.sound {w w' : World} {objs : Nat → Prop} {written : Nat → Nat → Option Nat}
    (h : Sound w objs) (hstep : Stepped w w' objs written) : Sound w' objs :=
  ⟨h.laid.congr hstep.headers rfl hstep.om,
    fun log hlog e he => (hstep.logs log hlog e he).congr hstep.headers⟩

/-! ## §6. Runs. -/

/-- The step leaves an object of from-space in a tenured slot. -/
def Mutation.InstallsYoung (w : World) (objs : Nat → Prop) (op : Mutation) : Prop :=
  ∃ o i, TenuredSlot w objs o i ∧ ∃ v, op.written w o i = some v ∧ w.isYoung v = true

theorem isYoung_congr {w w' : World} (hom : w'.om = w.om) (v : Nat) : w'.isYoung v = w.isYoung v := by
  unfold World.isYoung
  rw [hom]

/-- A step keeps young objects out of tenured slots when it puts none there. -/
theorem noYoung_step {w w' : World} {objs : Nat → Prop} {op : Mutation}
    (hstep : Stepped w w' objs fun o i => op.written w o i) (hno : NoYoung w objs) :
    NoYoung w' objs ↔ ¬op.InstallsYoung w objs := by
  have hslots := tenuredSlot_congr hstep.headers hstep.om
  constructor
  · rintro hno' ⟨o, i, hslot, v, hwritten, hyoung⟩
    have hfield := hstep.fields o i hslot.obj hslot.format hslot.index
    have hold := hno' o i ((hslots o i).mpr hslot)
    rw [hfield, isYoung_congr hstep.om, hwritten, Option.getD_some, hyoung] at hold
    exact Bool.false_ne_true hold.symm
  · intro hnone o i hslot
    rw [hslots] at hslot
    rw [hstep.fields o i hslot.obj hslot.format hslot.index, isYoung_congr hstep.om]
    cases hwritten : op.written w o i with
    | none => exact hno o i hslot
    | some v =>
      cases hyoung : w.isYoung v with
      | false => exact hyoung
      | true => exact absurd ⟨o, i, hslot, v, hwritten, hyoung⟩ hnone

/-- The same memory, with an empty stack and nothing in progress. -/
def World.idle (w : World) : World :=
  { w with sp := w.base, fp := 0, handlers := [], ensures := [], logs := [], classTable := 1 }

/-- A collection of the idle VM leaves tenured slots as they are. -/
theorem Laid.idle_collection {w : World} {objs : Nat → Prop} (h : Laid w objs) :
    ∃ w₂, w.idle.collectAndRetry = some w₂ ∧
      ∀ o i, TenuredSlot w objs o i →
        w₂.heap (fieldAddress o i) = w.heap (fieldAddress o i) := by
  have hlayout := h.collectable
  have hchain : Chain w.idle.vm [] := ⟨rfl, trivial, rfl⟩
  have hslots : w.idle.stackSlots = some [] := by
    rw [World.stackSlots_eq hchain]
    rfl
  have hnone : ∀ o, ¬Reachable w.heap w.om.fromStart w.om.fromEnd [1] o := by
    intro o ho
    induction ho with
    | root hroot hin =>
      rw [List.mem_singleton.mp hroot] at hin
      exact absurd (inFromSpace_iff.mp hin).1 (by decide)
    | slot _ _ ih => exact ih
  have hready : Ready w.heap w.om.fromStart w.om.fromEnd w.om.toFree w.om.toEnd (fun _ => False)
      [1] := by
    refine ⟨⟨fun _ ho => ho.elim, fun _ ho => ho.elim, fun _ _ ho => ho.elim, fun _ ho => ho.elim,
      fun _ ho => ho.elim⟩, fun r hr hin => ?_, h.toAligned, h.spacesApart, fun l _ hl => ?_⟩
    · rw [List.mem_singleton.mp hr] at hin
      exact absurd (inFromSpace_iff.mp hin).1 (by decide)
    · cases l with
      | nil =>
        unfold Om.hasLayout at hlayout
        simp only [Bool.and_eq_true, decide_eq_true_eq] at hlayout
        exact hlayout.2
      | cons o l => exact absurd (hl o List.mem_cons_self) (hnone o)
  obtain ⟨copied, s', hrun, hcollected⟩ :=
    @World.collectAndRetry_moved w.idle _ _ hlayout hslots hready
  refine ⟨_, hrun, fun o i hslot => ?_⟩
  have hten := hslot.tenured
  have hinside := h.tenuredInside o hslot.obj hten
  have hbody := hslot.bodyWord
  have hwords := hbody.inside
  unfold World.isTenured at hten
  simp only [Bool.and_eq_true, decide_eq_true_eq] at hten
  refine hcollected.same _ ?_ fun hmem => hnone _ ((hcollected.reachable _).mp hmem)
  show fieldAddress o i < w.om.toFree ∨ w.om.toEnd ≤ fieldAddress o i
  unfold fieldAddress
  rcases h.tenuredApart with hd | hd <;> omega

/-- The remembered set does its work only where there is nothing to remember. -/
theorem complete_iff_noYoung {w : World} {objs : Nat → Prop} (h : Laid w objs) :
    Complete w objs ↔ NoYoung w objs := by
  constructor
  · rintro ⟨hrecorded, hupdated⟩ o i hslot
    by_contra hyoung
    rw [Bool.not_eq_false] at hyoung
    obtain ⟨w₂, hrun, hsame⟩ := h.idle_collection
    have hnew := hupdated w.idle w₂ ⟨rfl, rfl, rfl⟩ hrun o i hslot
      (hrecorded o i hslot hyoung) hyoung
    rw [hsame o i hslot] at hnew
    have hspaces := h.spacesApart
    unfold World.isYoung at hyoung
    rw [Bool.and_eq_true, inFromSpace_iff] at hyoung
    omega
  · intro hno
    have hnone : ∀ o i, TenuredSlot w objs o i →
        ¬w.isYoung (w.heap (fieldAddress o i)) = true := by
      intro o i hslot hyoung
      rw [hno o i hslot] at hyoung
      exact Bool.false_ne_true hyoung
    exact ⟨fun o i hslot hyoung => absurd hyoung (hnone o i hslot),
      fun _ _ _ _ o i hslot _ hyoung => absurd hyoung (hnone o i hslot)⟩

/-- The property holds in every state of a run. -/
def Throughout (P : World → Prop) : World → List Mutation → Prop
  | w, [] => P w
  | w, op :: ops => P w ∧ Throughout P (op.step w) ops

/-- Every step is one of compiled code. -/
def LegalRun (objs : Nat → Prop) : World → List Mutation → Prop
  | _, [] => True
  | w, op :: ops => op.Legal w objs ∧ LegalRun objs (op.step w) ops

/-- No step leaves an object of from-space in a tenured slot. -/
def NoneInstalled (objs : Nat → Prop) : World → List Mutation → Prop
  | _, [] => True
  | w, op :: ops => ¬op.InstallsYoung w objs ∧ NoneInstalled objs (op.step w) ops

/-- **The remembered set stays complete exactly in the runs that store no object of from-space
into a tenured one.** -/
theorem complete_throughout_iff {w : World} {objs : Nat → Prop} {ops : List Mutation}
    (h : Sound w objs) (hno : NoYoung w objs) (hlegal : LegalRun objs w ops) :
    Throughout (Complete · objs) w ops ↔ NoneInstalled objs w ops := by
  induction ops generalizing w with
  | nil => exact iff_of_true ((complete_iff_noYoung h.laid).mpr hno) trivial
  | cons op ops ih =>
    have hstep := h.step hlegal.1
    have hsound := hstep.sound h
    have hyoung := noYoung_step hstep hno
    refine (and_iff_right ((complete_iff_noYoung h.laid).mpr hno)).trans ?_
    constructor
    · intro hrest
      have hnext : NoYoung (op.step w) objs := by
        refine (complete_iff_noYoung hsound.laid).mp ?_
        cases ops with
        | nil => exact hrest
        | cons op' ops' => exact hrest.1
      exact ⟨hyoung.mp hnext, (ih hsound hnext hlegal.2).mp hrest⟩
    · rintro ⟨hnone, hrest⟩
      exact (ih hsound (hyoung.mpr hnone) hlegal.2).mpr hrest

/-- A tenured array of one element at 12288, and an object of from-space at 4096. -/
def tenuredArray : World where
  stack := fun _ => 0
  sp := 100
  fp := 0
  low := 0
  base := 100
  heap := fun a => if a = 12296 ∨ a = 12304 then 1 else if a = 12312 then 5 else 0
  om := {
    registered := true, fromFree := 4120, fromEnd := 4352, toFree := 8192, toEnd := 8448,
    fromStart := 4096, toStart := 8192, spaceSize := 256, tenuredStart := 12288,
    tenuredEnd := 12320 }
  handlers := []
  ensures := []
  logs := []
  classTable := 1
  ip := 0
  bytecodeBase := 0
  frames := []
  globals := ⟨0, 0, 0, 0⟩
  remembered := some []

theorem tenuredArray_sound : Sound tenuredArray (· ∈ [4096, 12288]) := by
  refine ⟨⟨?_, fun o o' ho ho' hne => ?_, ?_, ?_, by decide, by decide, by decide, by decide⟩,
    fun log hlog => absurd hlog List.not_mem_nil⟩
  · show ∀ o ∈ [4096, 12288], o % 8 = 0
    decide
  · simp only [List.mem_cons, List.not_mem_nil, or_false] at ho ho'
    rcases ho with rfl | rfl <;> rcases ho' with rfl | rfl
    · exact absurd rfl hne
    · decide
    · decide
    · exact absurd rfl hne
  · show ∀ o ∈ [4096, 12288], tenuredArray.heap (o + 16) < byteMarker
    decide
  · show ∀ o ∈ [4096, 12288], tenuredArray.isTenured o = true →
      o + 8 * totalWords tenuredArray.heap o ≤ tenuredArray.om.tenuredEnd
    decide

/-- Its one tenured slot. -/
theorem tenuredArray_slot {w : World} (hom : w.om = tenuredArray.om)
    (hheaders : SameHeaders (· ∈ [4096, 12288]) tenuredArray.heap w.heap) {o i : Nat}
    (h : TenuredSlot w (· ∈ [4096, 12288]) o i) : o = 12288 ∧ i = 0 := by
  obtain ⟨hobj, hten, -, hindex⟩ := (tenuredSlot_congr hheaders hom o i).mp h
  simp only [List.mem_cons, List.not_mem_nil, or_false] at hobj
  rcases hobj with rfl | rfl
  · exact absurd hten (by decide)
  · have hsize : tenuredArray.heap (12288 + 16) = 1 := by decide
    exact ⟨rfl, by omega⟩

theorem tenuredArray_noYoung : NoYoung tenuredArray (· ∈ [4096, 12288]) := by
  intro o i hslot
  obtain ⟨rfl, rfl⟩ := tenuredArray_slot rfl (SameHeaders.refl _ _) hslot
  decide

/-- A run of small integers through both kinds of store. -/
theorem tenuredArray_complete :
    Throughout (Complete · (· ∈ [4096, 12288])) tenuredArray
      [.storeInstVar 12288 0 9, .atPut 12288 5 13] := by
  refine (complete_throughout_iff tenuredArray_sound tenuredArray_noYoung ?_).mpr ?_
  · have harray : 12288 ∈ [4096, 12288] := by decide
    exact ⟨⟨harray, by decide, by decide⟩, harray, trivial⟩
  · have hstep := tenuredArray_sound.storeInstVar (r := 12288) (j := 0) (v := 9) (by decide)
      (by decide) (by decide)
    refine ⟨?_, ?_, trivial⟩
    · rintro ⟨o, i, hslot, v, hwritten, hyoung⟩
      obtain ⟨rfl, rfl⟩ := tenuredArray_slot rfl (SameHeaders.refl _ _) hslot
      obtain rfl := Option.some.inj (show some 9 = some v from hwritten)
      exact absurd hyoung (by decide)
    · rintro ⟨o, i, hslot, v, hwritten, hyoung⟩
      obtain ⟨rfl, rfl⟩ := tenuredArray_slot hstep.om hstep.headers hslot
      obtain rfl := Option.some.inj (show some 13 = some v from hwritten)
      exact absurd hyoung (by decide)

/-- `at:put:` of the object into the array. -/
theorem atPut_unrecorded :
    ¬Throughout (Complete · (· ∈ [4096, 12288])) tenuredArray [.atPut 12288 5 4096] := by
  rintro ⟨-, hcomplete⟩
  have hstep := @Sound.atPut _ _ tenuredArray_sound 12288 5 4096 (by decide)
  have hslot : TenuredSlot (tenuredArray.atPut 12288 5 4096) (· ∈ [4096, 12288]) 12288 0 :=
    ⟨by decide, by decide, by decide, by decide⟩
  obtain ⟨entries, hentries, e, he, -⟩ := hcomplete.recorded 12288 0 hslot (by decide)
  obtain rfl := Option.some.inj (show some [] = some entries from hentries)
  exact List.not_mem_nil he

end LivingObjects.Gc
