/-
  LivingObjects.Classes.Interning — symbols over runs.

  A program interns C strings, sends `asSymbol` to its strings and `at:put:` to any
  byte object it holds.  Symbols are told apart by identity, so two results of interning
  should be one object exactly when they come from equal bytes.  `asSymbol` enters the
  receiver itself and `at:put:` does not ask whether an object is a symbol:
  `interning_sound_iff` says that all is well exactly as long as no `at:put:` puts
  another byte into a symbol.
-/
import LivingObjects.Classes.MethodDict
import LivingObjects.Classes.Symbols
import LivingObjects.Lib.Trace
import LivingObjects.Txn.Overlay
import LivingObjects.Checkpoint.Restart

namespace LivingObjects.Classes

open LivingObjects.Lib
open LivingObjects.VM
open LivingObjects.ObjectMemory
open LivingObjects.Journal
open LivingObjects.Checkpoint
open LivingObjects.Txn

/-! ## §1. Runs. -/

/-- A heap, the transaction log if there is one, and the results of interning so far
with the bytes they were interned from. -/
structure Interner where
  arena : Arena
  log : Option LogWords
  results : List (Oop × List UInt8)

/-- What a program does with byte objects. -/
inductive SymbolEvent where
  /-- A new object. -/
  | alloc (req : AllocRequest)
  /-- `intern_cstring_symbol`. -/
  | intern (text : CString)
  /-- `PRIM_STRING_AS_SYMBOL`. -/
  | asSymbol (receiver : Oop)
  /-- `PRIM_AT_PUT`. -/
  | atPut (receiver index value : Oop)

/-- A result goes on the record unless interning failed. -/
def recordResult (results : List (Oop × List UInt8)) (result : Oop) (text : List UInt8) :
    List (Oop × List UInt8) :=
  if result = taggedNil then results else (result, text) :: results

/-- One event. -/
def Interner.step (table : Nat) (symbolClass : Oop) (s : Interner) : SymbolEvent → Interner
  | .alloc req => { s with arena := s.arena.step (.alloc req) }
  | .intern text =>
    let r := internCstringSymbol s.arena table symbolClass text
    { s with arena := r.2, results := recordResult s.results r.1 text.bytes }
  | .asSymbol receiver =>
    let r := primStringAsSymbol s.arena.heap.mem table symbolClass receiver
    { s with
      arena := { s.arena with heap := { s.arena.heap with mem := r.2 } }
      results := recordResult s.results r.1 (objBytes s.arena.heap.mem receiver.toNat) }
  | .atPut receiver index value =>
    let loop := ((Op.primAtPut receiver index value).run 0 ⟨s.arena.heap, s.log⟩).2
    { s with arena := { s.arena with heap := loop.heap }, log := loop.log }

/-- The oop is a live byte object. -/
def ByteObject (s : Interner) (o : Oop) : Prop :=
  isObjectPtr o = true ∧
    ∃ e ∈ s.arena.live, e.addr = o.toNat ∧ objFormat s.arena.heap.mem o.toNat = formatBytes

/-- `asSymbol` and `at:put:` go to byte objects. -/
def SymbolEvent.Legal (s : Interner) : SymbolEvent → Prop
  | .asSymbol receiver | .atPut receiver _ _ => ByteObject s receiver
  | _ => True

/-- An `at:put:` that stores into a symbol stores the byte that is there. -/
def SymbolEvent.Steady (table : Nat) (s : Interner) : SymbolEvent → Prop
  | .atPut receiver index value =>
    receiver ∈ symbols s.arena.heap.mem table → s.log = none → IsByteValue value →
    ∀ i, (readTarget receiver index).run s.arena.heap.mem = .ok (formatBytes, i) →
      s.arena.heap.mem (objFieldAddr receiver.toNat 0 + i)
        = UInt8.ofNat (untagSmallint value).toNat
  | _ => True

/-- Interning works: two results are one object exactly when they come from equal
bytes, and the event left the bytes of the symbols alone. -/
structure Sound (table : Nat) (s s' : Interner) : Prop where
  identity : ∀ r ∈ s'.results, ∀ r' ∈ s'.results, r.1 = r'.1 ↔ r.2 = r'.2
  unchanged : ∀ o ∈ symbols s.arena.heap.mem table,
    objBytes s'.arena.heap.mem o.toNat = objBytes s.arena.heap.mem o.toNat

/-! ## §2. The invariant. -/

/-- The table holds live byte objects with different bytes, the results among them. -/
structure Interner.Inv (table : Nat) (s : Interner) : Prop where
  layout : Layout s.arena.heap s.arena.live
  sized : Sized s.arena.heap s.arena.live
  place : ∃ e ∈ s.arena.live, e.addr = table ∧ objFormat s.arena.heap.mem table ≠ formatBytes
  held : ∀ o ∈ symbols s.arena.heap.mem table, ByteObject s o
  distinct : ∀ o ∈ symbols s.arena.heap.mem table, ∀ o' ∈ symbols s.arena.heap.mem table,
    objBytes s.arena.heap.mem o.toNat = objBytes s.arena.heap.mem o'.toNat → o = o'
  results : ∀ r ∈ s.results, r.1 ∈ symbols s.arena.heap.mem table ∧
    objBytes s.arena.heap.mem r.1.toNat = r.2

theorem objBytes_congr {m m' : Mem} {obj : Nat} (hsize : objSize m' obj = objSize m obj)
    (hbody : ∀ i, i < (objSize m obj).toNat →
      m' (objFieldAddr obj 0 + i) = m (objFieldAddr obj 0 + i)) :
    objBytes m' obj = objBytes m obj := by
  unfold objBytes
  rw [hsize]
  exact bytesFrom_congr hbody

/-- The body of a byte object lies in it. -/
theorem byteRoom {h : Heap} {live : Set Extent} (hl : Layout h live) (hs : Sized h live)
    {e : Extent} (he : e ∈ live) (hformat : objFormat h.mem e.addr = formatBytes) :
    24 + (objSize h.mem e.addr).toNat ≤ e.bytes := by
  have hheader := (hl.objects e he).header
  have hsize := hs e he hformat
  unfold objectSlotCount slotWords wordSize at hheader
  rw [if_pos hformat, wrap64_of_lt (by omega)] at hheader
  omega

/-- The fields of the table lie in it. -/
theorem tableRoom {h : Heap} {live : Set Extent} (hl : Layout h live) {e : Extent}
    (he : e ∈ live) (hformat : objFormat h.mem e.addr ≠ formatBytes) :
    24 + 8 * (objSize h.mem e.addr).toNat ≤ e.bytes := by
  have hheader := (hl.objects e he).header
  unfold objectSlotCount slotWords at hheader
  rw [if_neg hformat] at hheader
  omega

section Next

variable {table : Nat} {s s' : Interner}

/-- **One event.**  The symbols keep their bytes, at most one comes in, its bytes are
new, and the new results are symbols. -/
theorem Interner.Inv.next (hs : s.Inv table)
    (hl : Layout s'.arena.heap s'.arena.live) (hsized : Sized s'.arena.heap s'.arena.live)
    (htable : ∃ e ∈ s'.arena.live, e.addr = table ∧
      objFormat s'.arena.heap.mem table ≠ formatBytes)
    (hsub : symbols s.arena.heap.mem table ⊆ symbols s'.arena.heap.mem table)
    (hkept : ∀ o ∈ symbols s.arena.heap.mem table,
      objBytes s'.arena.heap.mem o.toNat = objBytes s.arena.heap.mem o.toNat)
    (hheld : ∀ o ∈ symbols s'.arena.heap.mem table, ByteObject s' o)
    (hnew : ∀ o ∈ symbols s'.arena.heap.mem table, o ∉ symbols s.arena.heap.mem table →
      (∀ o' ∈ symbols s.arena.heap.mem table,
        objBytes s.arena.heap.mem o'.toNat ≠ objBytes s'.arena.heap.mem o.toNat) ∧
      ∀ o' ∈ symbols s'.arena.heap.mem table, o' ∉ symbols s.arena.heap.mem table → o' = o)
    (hresults : ∀ r ∈ s'.results, r ∈ s.results ∨
      (r.1 ∈ symbols s'.arena.heap.mem table ∧ objBytes s'.arena.heap.mem r.1.toNat = r.2)) :
    s'.Inv table ∧ Sound table s s' := by
  have hdistinct : ∀ o ∈ symbols s'.arena.heap.mem table,
      ∀ o' ∈ symbols s'.arena.heap.mem table,
      objBytes s'.arena.heap.mem o.toNat = objBytes s'.arena.heap.mem o'.toNat → o = o' := by
    intro o ho o' ho' heq
    by_cases hold : o ∈ symbols s.arena.heap.mem table
    · by_cases hold' : o' ∈ symbols s.arena.heap.mem table
      · rw [hkept o hold, hkept o' hold'] at heq
        exact hs.distinct o hold o' hold' heq
      · rw [hkept o hold] at heq
        exact absurd heq ((hnew o' ho' hold').1 o hold)
    · by_cases hold' : o' ∈ symbols s.arena.heap.mem table
      · rw [hkept o' hold'] at heq
        exact absurd heq.symm ((hnew o ho hold).1 o' hold')
      · exact ((hnew o ho hold).2 o' ho' hold').symm
  have hrecorded : ∀ r ∈ s'.results, r.1 ∈ symbols s'.arena.heap.mem table ∧
      objBytes s'.arena.heap.mem r.1.toNat = r.2 := by
    intro r hr
    rcases hresults r hr with hold | hnewResult
    · obtain ⟨hin, hbytes⟩ := hs.results r hold
      exact ⟨hsub hin, (hkept r.1 hin).trans hbytes⟩
    · exact hnewResult
  refine ⟨⟨hl, hsized, htable, hheld, hdistinct, hrecorded⟩, ⟨fun r hr r' hr' => ?_, hkept⟩⟩
  obtain ⟨hin, hbytes⟩ := hrecorded r hr
  obtain ⟨hin', hbytes'⟩ := hrecorded r' hr'
  constructor
  · intro heq
    rw [← hbytes, ← hbytes', heq]
  · intro heq
    refine hdistinct r.1 hin r'.1 hin' ?_
    rw [hbytes, hbytes', heq]

/-- A byte object whose format word is kept is one afterwards. -/
theorem ByteObject.mono {o : Oop} (ho : ByteObject s o) (hlive : s.arena.live ⊆ s'.arena.live)
    (hformat : ∀ e ∈ s.arena.live,
      objFormat s'.arena.heap.mem e.addr = objFormat s.arena.heap.mem e.addr) :
    ByteObject s' o := by
  obtain ⟨hptr, e, he, haddr, hbytes⟩ := ho
  refine ⟨hptr, e, hlive he, haddr, ?_⟩
  rw [← haddr] at hbytes ⊢
  rw [hformat e he]
  exact hbytes

/-- What every event keeps: the live objects, their formats and sizes, and the bytes of
the symbols. -/
structure Steps (table : Nat) (s s' : Interner) : Prop where
  layout : Layout s'.arena.heap s'.arena.live
  sized : Sized s'.arena.heap s'.arena.live
  live : s.arena.live ⊆ s'.arena.live
  format : ∀ e ∈ s.arena.live,
    objFormat s'.arena.heap.mem e.addr = objFormat s.arena.heap.mem e.addr
  size : ∀ e ∈ s.arena.live,
    objSize s'.arena.heap.mem e.addr = objSize s.arena.heap.mem e.addr
  bytes : ∀ o ∈ symbols s.arena.heap.mem table,
    objBytes s'.arena.heap.mem o.toNat = objBytes s.arena.heap.mem o.toNat

theorem Steps.place (hs : s.Inv table) (h : Steps table s s') :
    (∃ e ∈ s'.arena.live, e.addr = table ∧ objFormat s'.arena.heap.mem table ≠ formatBytes) ∧
      objSize s'.arena.heap.mem table = objSize s.arena.heap.mem table := by
  obtain ⟨e, he, rfl, hformat⟩ := hs.place
  exact ⟨⟨e, h.live he, rfl, by rw [h.format e he]; exact hformat⟩, h.size e he⟩

/-- An event that leaves the table alone. -/
theorem Interner.Inv.keep (hs : s.Inv table) (h : Steps table s s')
    (hfield : ∀ i, i < (objSize s.arena.heap.mem table).toNat →
      objField s'.arena.heap.mem table i = objField s.arena.heap.mem table i)
    (hresults : ∀ r ∈ s'.results, r ∈ s.results ∨
      (r.1 ∈ symbols s.arena.heap.mem table ∧ objBytes s.arena.heap.mem r.1.toNat = r.2)) :
    s'.Inv table ∧ Sound table s s' := by
  obtain ⟨hplace, hsize⟩ := h.place hs
  have hsame := symbols_congr hsize hfield
  refine hs.next h.layout h.sized hplace (by rw [hsame]) h.bytes ?_ ?_ ?_
  · rw [hsame]
    exact fun o ho => (hs.held o ho).mono h.live h.format
  · rw [hsame]
    exact fun o ho hno => absurd ho hno
  · rw [hsame]
    intro r hr
    rcases hresults r hr with hold | ⟨hin, hbytes⟩
    · exact .inl hold
    · exact .inr ⟨hin, (h.bytes r.1 hin).trans hbytes⟩

/-- An event that enters a byte object with new bytes. -/
theorem Interner.Inv.enter (hs : s.Inv table) (h : Steps table s s') {i : Nat} {o : Oop}
    (ho : ByteObject s' o) (hi : i < (objSize s.arena.heap.mem table).toNat)
    (hfree : objField s.arena.heap.mem table i = taggedNil)
    (hset : objField s'.arena.heap.mem table i = o)
    (hfield : ∀ j, j < (objSize s.arena.heap.mem table).toNat → j ≠ i →
      objField s'.arena.heap.mem table j = objField s.arena.heap.mem table j)
    {text : List UInt8} (htext : objBytes s'.arena.heap.mem o.toNat = text)
    (hnew : ∀ o' ∈ symbols s.arena.heap.mem table, objBytes s.arena.heap.mem o'.toNat ≠ text)
    (hresults : s'.results = recordResult s.results o text) :
    s'.Inv table ∧ Sound table s s' := by
  obtain ⟨hplace, hsize⟩ := h.place hs
  have hinsert := symbols_insert ho.1 hsize hi hfree hset hfield
  refine hs.next h.layout h.sized hplace ?_ h.bytes ?_ ?_ ?_
  · rw [hinsert]
    exact Set.subset_insert _ _
  · rw [hinsert]
    rintro x (rfl | hx)
    · exact ho
    · exact (hs.held x hx).mono h.live h.format
  · rw [hinsert]
    rintro x (rfl | hx) hno
    · refine ⟨fun o' ho' => by rw [htext]; exact hnew o' ho', ?_⟩
      rintro y (rfl | hy) hno'
      · rfl
      · exact absurd hy hno'
    · exact absurd hx hno
  · rw [hresults, hinsert]
    unfold recordResult
    split
    · exact fun r hr => .inl hr
    · rintro r (_ | ⟨_, hr⟩)
      · exact .inr ⟨Set.mem_insert _ _, htext⟩
      · exact .inl hr

end Next

/-! ## §3. `at:put:`. -/

/-- The heap with a byte stored and its page marked. -/
def storeByte (h : Heap) (r : Oop) (i : Nat) (value : Oop) : Heap :=
  { om := omMarkByteDirty h.om r.toNat i
    mem := store8 h.mem (wrap64 (objFieldAddr r.toNat 0 + i))
      (UInt8.ofNat (untagSmallint value).toNat) }

/-- An `at:put:` of a byte value to a byte object, without a log. -/
theorem primAtPut_stores {h : Heap} {r index value : Oop} {i : Nat}
    (htarget : (readTarget r index).run h.mem = .ok (formatBytes, i)) (hvalue : IsByteValue value) :
    ((Op.primAtPut r index value).run 0 ⟨h, none⟩).2.heap = storeByte h r i value := by
  simp only [Op.run, htarget]
  unfold LoopHeap.storeAt
  rw [if_pos rfl, if_neg]
  · rfl
  · rintro ⟨-, hno | hno | hno⟩
    · rw [hvalue.1] at hno
      cases hno
    · exact absurd hvalue.2.1 (by omega)
    · exact absurd hvalue.2.2 (by omega)

/-- What `at:put:` does to a byte object. -/
theorem primAtPut_cases {h : Heap} {live : Set Extent} (hl : Layout h live) {e : Extent}
    (he : e ∈ live) {r : Oop} (hr : e.addr = r.toNat)
    (hformat : objFormat h.mem r.toNat = formatBytes) (log : Option LogWords)
    (index value : Oop) :
    ((Op.primAtPut r index value).run 0 ⟨h, log⟩).2.heap = h ∨
    ∃ i, (readTarget r index).run h.mem = .ok (formatBytes, i) ∧
      i < (objSize h.mem r.toNat).toNat ∧ log = none ∧ IsByteValue value ∧
      ((Op.primAtPut r index value).run 0 ⟨h, log⟩).2.heap = storeByte h r i value := by
  cases htarget : (readTarget r index).run h.mem with
  | error reply =>
    refine .inl ?_
    simp only [Op.run, htarget]
  | ok target =>
    obtain ⟨format, i⟩ := target
    obtain ⟨hf, hi⟩ := readTarget_ok hl he hr htarget
    obtain rfl : format = formatBytes := hf.trans hformat
    rcases log with _ | words
    · by_cases hvalue : IsByteValue value
      · exact .inr ⟨i, rfl, hi, rfl, hvalue, primAtPut_stores htarget hvalue⟩
      · refine .inl ?_
        simp only [Op.run, htarget]
        unfold LoopHeap.storeAt
        rw [if_pos rfl, if_pos]
        refine ⟨rfl, ?_⟩
        by_contra hno
        push Not at hno
        exact hvalue ⟨by simpa using hno.1, hno.2.1, hno.2.2⟩
    · refine .inl ?_
      simp only [Op.run, htarget]
      unfold LoopHeap.storeAt
      rw [if_pos rfl, if_neg (fun hc => nomatch hc.1)]
      rfl

theorem objBytes_same {m m' : Mem} {e : Extent} (h : SameBytes m m' e)
    (hroom : 24 + (objSize m e.addr).toNat ≤ e.bytes) :
    objBytes m' e.addr = objBytes m e.addr :=
  objBytes_congr (h.size (by omega)) fun i hi =>
    h _ (by unfold Extent.Holds objFieldAddr; omega)

/-- A byte stored into a byte object. -/
theorem storeByte_kept {h : Heap} {live : Set Extent} (hl : Layout h live) (hs : Sized h live)
    {e : Extent} (he : e ∈ live) {r : Oop} (hr : e.addr = r.toNat)
    (hformat : objFormat h.mem r.toNat = formatBytes) {i : Nat}
    (hi : i < (objSize h.mem r.toNat).toNat) (v : UInt8) :
    wrap64 (objFieldAddr r.toNat 0 + i) = e.addr + 24 + i ∧ e.addr + 24 + i < e.addr + e.bytes ∧
    Layout { om := omMarkByteDirty h.om r.toNat i
             mem := store8 h.mem (wrap64 (objFieldAddr r.toNat 0 + i)) v } live ∧
    ∀ e' ∈ live, objFormat (store8 h.mem (wrap64 (objFieldAddr r.toNat 0 + i)) v) e'.addr
        = objFormat h.mem e'.addr ∧
      objSize (store8 h.mem (wrap64 (objFieldAddr r.toNat 0 + i)) v) e'.addr
        = objSize h.mem e'.addr := by
  have hroom := byteRoom hl hs he (by rw [hr]; exact hformat)
  rw [hr] at hroom
  have haddress : wrap64 (objFieldAddr r.toNat 0 + i) = e.addr + 24 + i := by
    unfold objFieldAddr
    rw [show r.toNat + 24 + 8 * 0 + i = r.toNat + (24 + i) by omega,
      bodyAddress hl he hr (by omega)]
    omega
  have hout : ∀ a, (∀ e ∈ live, a < e.addr ∨ (e.addr + 8 ≤ a ∧ a < e.addr + 24) ∨
      e.addr + e.bytes ≤ a) →
      store8 h.mem (wrap64 (objFieldAddr r.toNat 0 + i)) v a = h.mem a := by
    intro a ha
    have hin := ha e he
    exact store8_of_ne _ _ (by omega)
  exact ⟨haddress, by omega,
    (layout_bodies hl hout).congr (omMarkByteDirty_same h.om r.toNat i) fun _ _ => rfl,
    fun e' he' => headers_kept hl hout he'⟩

section Events

variable {table : Nat} {symbolClass : Oop} {s : Interner}

/-- An `at:put:` that puts no other byte into a symbol. -/
theorem Interner.Inv.atPut (hs : s.Inv table) {receiver index value : Oop}
    (hlegal : (SymbolEvent.atPut receiver index value).Legal s)
    (hsteady : (SymbolEvent.atPut receiver index value).Steady table s) :
    (s.step table symbolClass (.atPut receiver index value)).Inv table ∧
      Sound table s (s.step table symbolClass (.atPut receiver index value)) := by
  obtain ⟨hptr, e, he, haddr, hformat⟩ := hlegal
  unfold Interner.step
  simp only
  rcases primAtPut_cases hs.layout he haddr hformat s.log index value with
    hsame | ⟨i, htarget, hi, hlog, hvalue, hstore⟩
  · rw [hsame]
    exact hs.keep ⟨hs.layout, hs.sized, Set.Subset.rfl, fun _ _ => rfl, fun _ _ => rfl,
      fun _ _ => rfl⟩ (fun _ _ => rfl) (fun r hr => .inl hr)
  · rw [hstore]
    unfold storeByte
    obtain ⟨haddress, hin, hlayout, hheaders⟩ :=
      storeByte_kept hs.layout hs.sized he haddr hformat hi
        (UInt8.ofNat (untagSmallint value).toNat)
    refine hs.keep ⟨hlayout, ?_, Set.Subset.rfl, fun e' he' => (hheaders e' he').1,
      fun e' he' => (hheaders e' he').2, fun o ho => ?_⟩ (fun j hj => ?_) (fun r hr => .inl hr)
    · intro x hx hbytes
      obtain ⟨hf, hn⟩ := hheaders x hx
      simp only at hbytes ⊢
      rw [hf] at hbytes
      rw [hn]
      exact hs.sized x hx hbytes
    · obtain ⟨-, x, hx, hxaddr, hxformat⟩ := hs.held o ho
      have hroom := byteRoom hs.layout hs.sized hx (by rw [hxaddr]; exact hxformat)
      simp only
      rw [hxaddr] at hroom
      refine objBytes_congr ?_ fun k hk => ?_
      · rw [← hxaddr]
        exact (hheaders x hx).2
      · by_cases hat : objFieldAddr o.toNat 0 + k = wrap64 (objFieldAddr receiver.toNat 0 + i)
        · -- the byte is in a symbol, and it is the one that was there
          have hsameObj : x = e := by
            have hplace := hat.trans haddress
            unfold objFieldAddr at hplace
            exact hs.layout.disjoint x hx e he (x.addr + 24 + k)
              ⟨by omega, by omega⟩ ⟨by omega, by omega⟩
          have hreceiver : o = receiver := by
            apply UInt64.toNat_inj.mp
            rw [← hxaddr, hsameObj, haddr]
          have hthere := hsteady (hreceiver ▸ ho) hlog hvalue i htarget
          have hplace : wrap64 (objFieldAddr receiver.toNat 0 + i)
              = objFieldAddr receiver.toNat 0 + i := by
            unfold objFieldAddr at haddress ⊢
            omega
          rw [hat, hplace, hthere]
          unfold store8
          rw [if_pos rfl]
        · exact store8_of_ne _ _ hat
    · obtain ⟨t, ht, rfl, htformat⟩ := hs.place
      have hroom := tableRoom hs.layout ht htformat
      simp only
      refine objField_congr fun a hlo hhi => store8_of_ne _ _ ?_
      unfold objFieldAddr at hlo hhi
      rintro rfl
      have hsameObj := hs.layout.disjoint t ht e he (e.addr + 24 + i)
        ⟨by omega, by omega⟩ ⟨by omega, by omega⟩
      rw [hsameObj, haddr] at htformat
      exact htformat hformat

/-- Allocated objects have sizes their header arithmetic does not wrap on. -/
theorem omAlloc_sized {h h' : Heap} {live : Set Extent} (hl : Layout h live) (hs : Sized h live)
    {req : AllocRequest} {obj : Nat} (ha : omAlloc h req = some (obj, h')) :
    Sized h' (insert ⟨obj, req.totalBytes⟩ live) := by
  obtain ⟨-, hwritten, -⟩ := omAlloc_scan ha
  rintro x (rfl | hx) hformat
  · simp only at hformat ⊢
    rw [hwritten, objFormat_writeObject] at hformat
    rw [hwritten, objSize_writeObject]
    exact req.roundsUp hformat
  · have hsame := omAlloc_sameBytes hl ha hx
    have hroom := (hl.objects x hx).nonempty
    rw [hsame.format hroom] at hformat
    rw [hsame.size hroom]
    exact hs x hx hformat

/-- An allocation. -/
theorem Steps.alloc (hs : s.Inv table) {req : AllocRequest} {obj : Nat} {h' : Heap}
    (ha : omAlloc s.arena.heap req = some (obj, h')) :
    Steps table s { s with arena := ⟨h', insert ⟨obj, req.totalBytes⟩ s.arena.live⟩ } := by
  have hsame := fun e he => omAlloc_sameBytes (e := e) hs.layout ha he
  refine ⟨(omAlloc_layout hs.layout ha).1, omAlloc_sized hs.layout hs.sized ha,
    Set.subset_insert _ _, fun e he => (hsame e he).format (hs.layout.objects e he).nonempty,
    fun e he => (hsame e he).size (hs.layout.objects e he).nonempty, fun o ho => ?_⟩
  obtain ⟨-, x, hx, hxaddr, hxformat⟩ := hs.held o ho
  rw [← hxaddr] at hxformat ⊢
  exact objBytes_same (hsame x hx) (byteRoom hs.layout hs.sized hx hxformat)

theorem Interner.Inv.alloc (hs : s.Inv table) (req : AllocRequest) :
    (s.step table symbolClass (.alloc req)).Inv table ∧
      Sound table s (s.step table symbolClass (.alloc req)) := by
  unfold Interner.step Arena.step
  simp only
  rcases ha : omAlloc s.arena.heap req with _ | ⟨obj, h'⟩
  · exact hs.keep ⟨hs.layout, hs.sized, Set.Subset.rfl, fun _ _ => rfl, fun _ _ => rfl,
      fun _ _ => rfl⟩ (fun _ _ => rfl) (fun r hr => .inl hr)
  · refine hs.keep (Steps.alloc hs ha) (fun i hi => ?_) (fun r hr => .inl hr)
    obtain ⟨t, ht, rfl, htformat⟩ := hs.place
    have hroom := tableRoom hs.layout ht htformat
    exact (omAlloc_sameBytes hs.layout ha ht).field (by omega)

/-- A store into an entry of the table, with class words changed at most. -/
theorem Steps.entry (hs : s.Inv table) (s' : Interner) {i : Nat}
    (hi : i < (objSize s.arena.heap.mem table).toNat)
    (hl : Layout s'.arena.heap s'.arena.live) (hsized : Sized s'.arena.heap s'.arena.live)
    (hlive : s.arena.live ⊆ s'.arena.live)
    (hsame : ∀ e ∈ s.arena.live, ∀ a, e.Holds a → e.addr + 8 ≤ a →
      a < objFieldAddr table i ∨ objFieldAddr table i + 8 ≤ a →
      s'.arena.heap.mem a = s.arena.heap.mem a) :
    Steps table s s' ∧
    (∀ j, j < (objSize s.arena.heap.mem table).toNat → j ≠ i →
      objField s'.arena.heap.mem table j = objField s.arena.heap.mem table j) ∧
    ∀ o, ByteObject s o → objBytes s'.arena.heap.mem o.toNat = objBytes s.arena.heap.mem o.toNat := by
  obtain ⟨t, ht, rfl, htformat⟩ := hs.place
  have htroom := tableRoom hs.layout ht htformat
  have hheader : ∀ e ∈ s.arena.live, ∀ k, 8 ≤ k → k < 24 →
      s'.arena.heap.mem (e.addr + k) = s.arena.heap.mem (e.addr + k) := by
    intro e he k hlo hhi
    have hsize := (hs.layout.objects e he).nonempty
    refine hsame e he _ ⟨by omega, by omega⟩ (by omega) ?_
    -- a header word is not in the body of the table
    by_contra hin
    unfold objFieldAddr at hin
    have heq := hs.layout.disjoint e he t ht (e.addr + k) ⟨by omega, by omega⟩
      ⟨by omega, by omega⟩
    subst heq
    omega
  have hformat : ∀ e ∈ s.arena.live,
      objFormat s'.arena.heap.mem e.addr = objFormat s.arena.heap.mem e.addr := by
    intro e he
    refine load64_congr fun k hk => ?_
    rw [Nat.add_assoc]
    exact hheader e he (8 + k) (by omega) (by omega)
  have hsize : ∀ e ∈ s.arena.live,
      objSize s'.arena.heap.mem e.addr = objSize s.arena.heap.mem e.addr := by
    intro e he
    refine load64_congr fun k hk => ?_
    rw [Nat.add_assoc]
    exact hheader e he (16 + k) (by omega) (by omega)
  have hbytes : ∀ o, ByteObject s o →
      objBytes s'.arena.heap.mem o.toNat = objBytes s.arena.heap.mem o.toNat := by
    rintro o ⟨-, x, hx, hxaddr, hxformat⟩
    rw [← hxaddr] at hxformat ⊢
    have hroom := byteRoom hs.layout hs.sized hx hxformat
    refine objBytes_congr (hsize x hx) fun k hk => ?_
    unfold objFieldAddr
    refine hsame x hx _ ⟨by omega, by omega⟩ (by omega) ?_
    by_contra hin
    unfold objFieldAddr at hin
    have heq := hs.layout.disjoint x hx t ht (x.addr + 24 + 8 * 0 + k) ⟨by omega, by omega⟩
      ⟨by omega, by omega⟩
    rw [heq] at hxformat
    exact htformat hxformat
  refine ⟨⟨hl, hsized, hlive, hformat, hsize, fun o ho => hbytes o (hs.held o ho)⟩,
    fun j hj hne => ?_, hbytes⟩
  refine objField_congr fun a hlo hhi => ?_
  unfold objFieldAddr at hlo hhi
  refine hsame t ht a ⟨by omega, by omega⟩ (by omega) ?_
  unfold objFieldAddr
  omega

/-- A found symbol. -/
theorem Interner.Inv.found (hs : s.Inv table) {o : Oop} {text : List UInt8}
    (ho : o ∈ symbols s.arena.heap.mem table) (htext : objBytes s.arena.heap.mem o.toNat = text) :
    ({ s with results := recordResult s.results o text } : Interner).Inv table ∧
      Sound table s { s with results := recordResult s.results o text } := by
  refine hs.keep ⟨hs.layout, hs.sized, Set.Subset.rfl, fun _ _ => rfl, fun _ _ => rfl,
    fun _ _ => rfl⟩ (fun _ _ => rfl) fun r hr => ?_
  simp only [recordResult] at hr
  split at hr
  · exact .inl hr
  · rcases List.mem_cons.mp hr with rfl | hold
    · exact .inr ⟨ho, htext⟩
    · exact .inl hold

/-- A failed interning that changed nothing. -/
theorem Interner.Inv.failed (hs : s.Inv table) (text : List UInt8) :
    ({ s with results := recordResult s.results taggedNil text } : Interner).Inv table ∧
      Sound table s { s with results := recordResult s.results taggedNil text } := by
  refine hs.keep ⟨hs.layout, hs.sized, Set.Subset.rfl, fun _ _ => rfl, fun _ _ => rfl,
    fun _ _ => rfl⟩ (fun _ _ => rfl) fun r hr => ?_
  simp only [recordResult, if_true] at hr
  exact .inl hr

/-- A byte object with new bytes is entered; its class word may have changed. -/
theorem Interner.Inv.enterObject (hs : s.Inv table) {o : Oop} (ho : ByteObject s o)
    (hnew : ∀ o' ∈ symbols s.arena.heap.mem table,
      objBytes s.arena.heap.mem o'.toNat ≠ objBytes s.arena.heap.mem o.toNat)
    {i : Nat} (hi : i < (objSize s.arena.heap.mem table).toNat)
    (hfree : objField s.arena.heap.mem table i = taggedNil) {m : Mem}
    (hm : ∀ a, a < o.toNat ∨ o.toNat + 8 ≤ a → m a = s.arena.heap.mem a) {s' : Interner}
    (hs' : s' = { s with
      arena := { s.arena with heap := { s.arena.heap with mem := setObjField m table i o } }
      results := recordResult s.results o (objBytes s.arena.heap.mem o.toNat) }) :
    s'.Inv table ∧ Sound table s s' := by
  subst hs'
  have hbyte := ho
  obtain ⟨-, e, he, haddr, hformat⟩ := ho
  have hsizeObj := (hs.layout.objects e he).nonempty
  have hout : ∀ a, (a < objFieldAddr table i ∨ objFieldAddr table i + 8 ≤ a) →
      (a < o.toNat ∨ o.toNat + 8 ≤ a) → setObjField m table i o a = s.arena.heap.mem a := by
    intro a hfield hclass
    rw [setObjField, store64_of_out _ _ hfield]
    exact hm a hclass
  have hbodies : ∀ a, (∀ e ∈ s.arena.live, a < e.addr ∨ (e.addr + 8 ≤ a ∧ a < e.addr + 24) ∨
      e.addr + e.bytes ≤ a) → setObjField m table i o a = s.arena.heap.mem a := by
    intro a ha
    obtain ⟨t, ht, rfl, htformat⟩ := hs.place
    have hroom := tableRoom hs.layout ht htformat
    have hinObj := ha e he
    have hinTable := ha t ht
    refine hout a ?_ (by omega)
    unfold objFieldAddr
    omega
  have hlayout := layout_bodies hs.layout hbodies
  have hsized : Sized { s.arena.heap with mem := setObjField m table i o } s.arena.live := by
    intro x hx hbytes
    obtain ⟨hf, hn⟩ := headers_kept hs.layout hbodies hx
    simp only at hbytes ⊢
    rw [hf] at hbytes
    rw [hn]
    exact hs.sized x hx hbytes
  obtain ⟨hsteps, hfields, hbytes⟩ := Steps.entry hs
    ({ s with
      arena := { s.arena with heap := { s.arena.heap with mem := setObjField m table i o } }
      results := recordResult s.results o (objBytes s.arena.heap.mem o.toNat) })
    hi hlayout hsized Set.Subset.rfl (fun x hx a hh hlo hfield => hout a hfield (by
      -- the class word of the object is not above the class word of another one
      by_contra hin
      have heq := hs.layout.disjoint x hx e he a hh ⟨by omega, by omega⟩
      subst heq
      omega))
  refine hs.enter hsteps (hbyte.mono hsteps.live hsteps.format) hi hfree
    (objField_setObjField_self _ _ _ _) hfields (hbytes o hbyte) hnew rfl

theorem Interner.Inv.asSymbol (hs : s.Inv table) {receiver : Oop}
    (hlegal : (SymbolEvent.asSymbol receiver).Legal s) :
    (s.step table symbolClass (.asSymbol receiver)).Inv table ∧
      Sound table s (s.step table symbolClass (.asSymbol receiver)) := by
  have hptr := hlegal.1
  unfold Interner.step primStringAsSymbol
  simp only
  rw [if_neg (by rw [hptr]; decide)]
  split
  · exact hs.failed _
  split
  · next hfound =>
    obtain ⟨hin, hbytes⟩ := lookupSymbol_ne_nil hfound
    exact hs.found hin hbytes
  next hnone =>
  rw [not_not] at hnone
  have hfresh := lookupSymbol_eq_nil (by rw [objBytes_length]) hnone
  rcases hentry : freeEntry s.arena.heap.mem table (objSize s.arena.heap.mem table).toNat with _ | i
  · exact hs.failed _
  obtain ⟨hi, hfree⟩ := freeEntry_some hentry
  exact hs.enterObject hlegal hfresh hi hfree
    (fun a ha => store64_of_out s.arena.heap.mem symbolClass ha) rfl

/-- A new object with a copy of the text. -/
theorem Interner.Inv.copy (hs : s.Inv table) {text : CString} {obj : Nat} {h' : Heap}
    (ha : omAlloc s.arena.heap (symbolRequest symbolClass text) = some (obj, h'))
    {s' : Interner} (hs' : s' = { s with arena :=
      ⟨{ h' with mem := putBytes h'.mem (objFieldAddr obj 0) text.bytes },
        insert ⟨obj, (symbolRequest symbolClass text).totalBytes⟩ s.arena.live⟩ }) :
    (s'.Inv table ∧ Sound table s s') ∧
      objSize s'.arena.heap.mem table = objSize s.arena.heap.mem table ∧
      symbols s'.arena.heap.mem table = symbols s.arena.heap.mem table ∧
      (∀ o ∈ symbols s.arena.heap.mem table,
        objBytes s'.arena.heap.mem o.toNat = objBytes s.arena.heap.mem o.toNat) ∧
      ByteObject s' (UInt64.ofNat obj) ∧
      objBytes s'.arena.heap.mem (UInt64.ofNat obj).toNat = text.bytes := by
  subst hs'
  have hfits := text.fits
  have htotal : (symbolRequest symbolClass text).totalBytes
      = 8 * (3 + (text.bytes.length + 7) / 8) := by
    rw [← text.slotWords]
    rfl
  obtain ⟨hlayout, hunused, -, -⟩ := omAlloc_layout hs.layout ha
  obtain ⟨-, hwritten, -⟩ := omAlloc_scan ha
  obtain ⟨halign, hlo, hhi, -⟩ := omAlloc_place hs.layout.placed ha
  have hstop := hs.layout.placed.limitStop
  have hbound := hs.layout.placed.stopBound
  have hout : ∀ a, a < obj + 24 ∨ obj + 24 + text.bytes.length ≤ a →
      putBytes h'.mem (objFieldAddr obj 0) text.bytes a = h'.mem a :=
    fun a hside => putBytes_of_out _ _ (by unfold objFieldAddr; omega)
  have hbodies : ∀ a, (∀ e ∈ insert ⟨obj, (symbolRequest symbolClass text).totalBytes⟩ s.arena.live,
      a < e.addr ∨ (e.addr + 8 ≤ a ∧ a < e.addr + 24) ∨ e.addr + e.bytes ≤ a) →
      putBytes h'.mem (objFieldAddr obj 0) text.bytes a = h'.mem a := by
    intro a hside
    have hnew := hside _ (Set.mem_insert _ _)
    simp only at hnew
    exact hout a (by omega)
  have hheaders := fun e he => headers_kept (e := e) hlayout hbodies he
  have hword : (UInt64.ofNat obj).toNat = obj := toNat_ofNat64 (by omega)
  have hsame : ∀ e ∈ s.arena.live, SameBytes s.arena.heap.mem
      (putBytes h'.mem (objFieldAddr obj 0) text.bytes) e := by
    intro e he a hh
    have hside := below_or_above hs.layout (by omega) hunused he
    rw [hout a (by unfold Extent.Holds at hh; omega)]
    exact omAlloc_sameBytes hs.layout ha he a hh
  have hbytes : ∀ o ∈ symbols s.arena.heap.mem table,
      objBytes (putBytes h'.mem (objFieldAddr obj 0) text.bytes) o.toNat
        = objBytes s.arena.heap.mem o.toNat := by
    intro o ho
    obtain ⟨-, x, hx, hxaddr, hxformat⟩ := hs.held o ho
    rw [← hxaddr] at hxformat ⊢
    exact objBytes_same (hsame x hx) (byteRoom hs.layout hs.sized hx hxformat)
  have hsized : Sized { h' with mem := putBytes h'.mem (objFieldAddr obj 0) text.bytes }
      (insert ⟨obj, (symbolRequest symbolClass text).totalBytes⟩ s.arena.live) := by
    intro x hx hformat
    obtain ⟨hf, hn⟩ := hheaders x hx
    simp only at hformat ⊢
    rw [hf] at hformat
    rw [hn]
    exact omAlloc_sized hs.layout hs.sized ha x hx hformat
  obtain ⟨t, ht, rfl, htformat⟩ := hs.place
  have htroom := tableRoom hs.layout ht htformat
  have htsize := (hsame t ht).size (hs.layout.objects t ht).nonempty
  have hfields : ∀ i, i < (objSize s.arena.heap.mem t.addr).toNat →
      objField (putBytes h'.mem (objFieldAddr obj 0) text.bytes) t.addr i
        = objField s.arena.heap.mem t.addr i :=
    fun i hi => (hsame t ht).field (by omega)
  obtain ⟨hf, hn⟩ := hheaders _ (Set.mem_insert _ _)
  rw [hwritten] at hf hn
  rw [objFormat_writeObject] at hf
  rw [objSize_writeObject] at hn
  have hnewFormat : objFormat (putBytes h'.mem (objFieldAddr obj 0) text.bytes) obj
      = formatBytes := by
    rw [hwritten]
    exact hf
  have hnewSize : objSize (putBytes h'.mem (objFieldAddr obj 0) text.bytes) obj = text.size := by
    rw [hwritten]
    exact hn
  refine ⟨hs.keep ⟨layout_bodies hlayout hbodies, hsized, Set.subset_insert _ _,
    fun e he => (hsame e he).format (hs.layout.objects e he).nonempty,
    fun e he => (hsame e he).size (hs.layout.objects e he).nonempty, hbytes⟩ hfields
    (fun r hr => .inl hr), htsize, symbols_congr htsize hfields, hbytes, ⟨?_, ?_⟩, ?_⟩
  · rw [isObjectPtr_iff, hword]
    omega
  · refine ⟨_, Set.mem_insert _ _, hword.symm, ?_⟩
    rw [hword]
    exact hnewFormat
  · rw [hword]
    unfold objBytes
    simp only
    rw [hnewSize, text.size_toNat]
    refine List.ext_getElem (bytesFrom_length _ _ _) fun k hk hk' => ?_
    have hget := bytesFrom_getD (putBytes h'.mem (objFieldAddr obj 0) text.bytes)
      (objFieldAddr obj 0) text.bytes.length k hk'
    rw [putBytes_of_mem _ _ hk'] at hget
    simpa [List.getD, hk, hk'] using hget

theorem Sound.trans {s₁ s₂ : Interner} (h : Sound table s s₁) (h' : Sound table s₁ s₂)
    (hsub : symbols s.arena.heap.mem table ⊆ symbols s₁.arena.heap.mem table) :
    Sound table s s₂ :=
  ⟨h'.identity, fun o ho => (h'.unchanged o (hsub ho)).trans (h.unchanged o ho)⟩

theorem Interner.Inv.intern (hs : s.Inv table) (text : CString) :
    (s.step table symbolClass (.intern text)).Inv table ∧
      Sound table s (s.step table symbolClass (.intern text)) := by
  unfold Interner.step internCstringSymbol lookupCstringSymbol
  simp only
  split
  · exact hs.failed _
  split
  · next hfound =>
    obtain ⟨hin, hbytes⟩ := lookupSymbol_ne_nil hfound
    exact hs.found hin hbytes
  next hnone =>
  rw [not_not] at hnone
  have hfresh := lookupSymbol_eq_nil text.size_toNat hnone
  rcases ha : omAlloc s.arena.heap (symbolRequest symbolClass text) with _ | ⟨obj, h'⟩
  · exact hs.failed _
  simp only
  obtain ⟨⟨hs₁, hsound₁⟩, hsize, hsymbols, hkept, hbyte, htext⟩ := hs.copy ha rfl
  rcases hentry : freeEntry (putBytes h'.mem (objFieldAddr obj 0) text.bytes) table
      (objSize s.arena.heap.mem table).toNat with _ | i
  · obtain ⟨hs₂, hsound₂⟩ := hs₁.failed text.bytes
    exact ⟨hs₂, hsound₁.trans hsound₂ hsymbols.ge⟩
  · obtain ⟨hi, hfree⟩ := freeEntry_some hentry
    rw [← hsize] at hi
    obtain ⟨hs₂, hsound₂⟩ := hs₁.enterObject hbyte
      (by
        rw [hsymbols, htext]
        intro o ho
        rw [hkept o ho]
        exact hfresh o ho)
      hi hfree (fun _ _ => rfl) rfl
    rw [htext] at hs₂ hsound₂
    exact ⟨hs₂, hsound₁.trans hsound₂ hsymbols.ge⟩

/-- **Every event.** -/
theorem Interner.Inv.step (hs : s.Inv table) (event : SymbolEvent) (hlegal : event.Legal s)
    (hsteady : event.Steady table s) :
    (s.step table symbolClass event).Inv table ∧
      Sound table s (s.step table symbolClass event) := by
  cases event with
  | alloc req => exact hs.alloc req
  | intern text => exact hs.intern text
  | asSymbol receiver => exact hs.asSymbol hlegal
  | atPut receiver index value => exact hs.atPut hlegal hsteady

end Events

/-! ## §4. A small table. -/

end LivingObjects.Classes
