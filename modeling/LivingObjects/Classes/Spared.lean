/-
  LivingObjects.Classes.Spared — what making a method leaves alone.

  The programs of `Materialize` store into objects they have just allocated, into the
  symbol table and into the Smalltalk dictionary with its array and its associations.
  As long as none of these is among the objects to be spared (`Roles`), a run of such a
  program, finished or given up, leaves the spared objects as they were (`Quiet`).
-/
import LivingObjects.Classes.Materialize
import LivingObjects.Checkpoint.Restart

namespace LivingObjects.Classes

open LivingObjects.Lib
open LivingObjects.Lib.Attempt
open LivingObjects.VM
open LivingObjects.ObjectMemory
open LivingObjects.Compiler
open LivingObjects.Checkpoint (putBytes_of_out)
open LivingObjects.Txn (untagSmallint tagSmallintNat allocRequest)

/-! ## §1. The objects with a part to play. -/

/-- The object has the fields its size word says. -/
def HasFields (m : Mem) (e : Extent) : Prop := 24 + 8 * (objSize m e.addr).toNat ≤ e.bytes

/-- The number of associations in a dictionary. -/
def storedTally (m : Mem) (dictionary : Nat) : Nat :=
  let tally := objField m dictionary 1
  if tally = taggedNil then 0 else tallyCount tally

/-- An array of associations outside a set of objects: as many entries as are counted,
and what is an object among them has a key and a value and is none of the others. -/
structure HoldsAssociations (g : Globals) (X live : Set Extent) (m : Mem) (tally : Nat)
    (array : Extent) : Prop where
  isLive : array ∈ live
  outside : array ∉ X
  notDictionary : array.addr ≠ g.smalltalkDictionary
  notTable : array.addr ≠ g.symbolTable
  room : HasFields m array
  counted : tally ≤ (objSize m array.addr).toNat
  entry : ∀ i, i < tally → isObjectPtr (objField m array.addr i) = true →
    ∃ e ∈ live, e ∉ X ∧ e.addr = (objField m array.addr i).toNat ∧ 40 ≤ e.bytes ∧
      e.addr ≠ array.addr ∧ e.addr ≠ g.smalltalkDictionary ∧ e.addr ≠ g.symbolTable

/-- The fields of a Smalltalk dictionary. -/
structure DictionaryAt (g : Globals) (X live : Set Extent) (m : Mem) (d : Extent) : Prop where
  isLive : d ∈ live
  outside : d ∉ X
  addr : d.addr = g.smalltalkDictionary
  room : 40 ≤ d.bytes
  notTable : g.smalltalkDictionary ≠ g.symbolTable
  empty : objField m d.addr 0 = taggedNil → storedTally m d.addr ≤ 8
  holds : objField m d.addr 0 ≠ taggedNil → isObjectPtr (objField m d.addr 0) = true →
    ∃ array, array.addr = (objField m d.addr 0).toNat ∧
      HoldsAssociations g X live m (storedTally m d.addr) array

/-- The symbol table and the Smalltalk dictionary, where there are any, are live objects
of their kinds outside a set of objects. -/
structure Roles (g : Globals) (X live : Set Extent) (m : Mem) : Prop where
  table : g.symbolTable ≠ 0 →
    ∃ e ∈ live, e ∉ X ∧ e.addr = g.symbolTable ∧ HasFields m e
  dictionary : g.HasDictionary → ∃ d, DictionaryAt g X live m d

section Congr

variable {g : Globals} {X X' live live' : Set Extent} {m m' : Mem}

/-- An array with the same bytes holds the same associations. -/
theorem HoldsAssociations.congr {tally : Nat} {array : Extent}
    (h : HoldsAssociations g X live m tally array) (hlive : live ⊆ live')
    (hX : ∀ e ∈ live, e ∈ X' → e ∈ X) (hsame : SameBytes m m' array) :
    HoldsAssociations g X' live' m' tally array := by
  have hroom := h.room
  have hcounted := h.counted
  unfold HasFields at hroom
  have hsize := hsame.size (show 24 ≤ array.bytes by omega)
  have hfield : ∀ i, i < tally → objField m' array.addr i = objField m array.addr i := by
    intro i hi
    exact hsame.field (by omega)
  refine ⟨hlive h.isLive, fun hin => h.outside (hX _ h.isLive hin), h.notDictionary, h.notTable,
    ?_, ?_, ?_⟩
  · unfold HasFields
    rw [hsize]
    exact hroom
  · rw [hsize]
    exact hcounted
  · intro i hi hptr
    rw [hfield i hi] at hptr ⊢
    obtain ⟨e, he, hout, hrest⟩ := h.entry i hi hptr
    exact ⟨e, hlive he, fun hin => hout (hX _ he hin), hrest⟩

theorem storedTally_congr {d : Extent} (hd : SameBytes m m' d) (hroom : 40 ≤ d.bytes) :
    storedTally m' d.addr = storedTally m d.addr := by
  have hsecond : objField m' d.addr 1 = objField m d.addr 1 := hd.field (by omega)
  unfold storedTally
  rw [hsecond]

/-- A dictionary with the same bytes, and an array with the same bytes. -/
theorem DictionaryAt.congr {d : Extent} (h : DictionaryAt g X live m d) (hlive : live ⊆ live')
    (hX : ∀ e ∈ live, e ∈ X' → e ∈ X) (hd : SameBytes m m' d)
    (harray : ∀ e ∈ live, e ∉ X → e.addr = (objField m d.addr 0).toNat →
      e.addr ≠ g.symbolTable → SameBytes m m' e) :
    DictionaryAt g X' live' m' d := by
  have hroom := h.room
  have hfirst : objField m' d.addr 0 = objField m d.addr 0 := hd.field (by omega)
  have htally := storedTally_congr hd hroom
  refine ⟨hlive h.isLive, fun hin => h.outside (hX _ h.isLive hin), h.addr, hroom, h.notTable,
    ?_, ?_⟩
  · rw [hfirst, htally]
    exact h.empty
  · rw [hfirst, htally]
    intro hne hptr
    obtain ⟨array, haddr, hholds⟩ := h.holds hne hptr
    exact ⟨array, haddr, hholds.congr hlive hX
      (harray array hholds.isLive hholds.outside haddr hholds.notTable)⟩

/-- **Frame**: the table keeps its size, the dictionary and its array their bytes. -/
theorem Roles.congr (h : Roles g X live m) (hlive : live ⊆ live')
    (hX : ∀ e ∈ live, e ∈ X' → e ∈ X)
    (hsize : ∀ e ∈ live, e ∉ X → e.addr = g.symbolTable →
      objSize m' e.addr = objSize m e.addr)
    (hsame : ∀ e ∈ live, e ∉ X → e.addr = g.smalltalkDictionary ∨
      e.addr = (objField m g.smalltalkDictionary 0).toNat → e.addr ≠ g.symbolTable →
      SameBytes m m' e) :
    Roles g X' live' m' := by
  constructor
  · intro hne
    obtain ⟨e, he, hout, haddr, hroom⟩ := h.table hne
    refine ⟨e, hlive he, fun hin => hout (hX _ he hin), haddr, ?_⟩
    unfold HasFields at hroom ⊢
    rw [hsize e he hout haddr]
    exact hroom
  · intro hhas
    obtain ⟨d, hd⟩ := h.dictionary hhas
    have htable : d.addr ≠ g.symbolTable := by
      rw [hd.addr]
      exact hd.notTable
    refine ⟨d, hd.congr hlive hX (hsame d hd.isLive hd.outside (.inl hd.addr) htable) ?_⟩
    intro e he hout haddr hne
    rw [hd.addr] at haddr
    exact hsame e he hout (.inr haddr) hne

end Congr

/-! ## §2. Quiet heaps. -/

/-- While methods are made: the objects there were at the start are still there, those to
be spared with the bytes they had, the objects in the making are new, and the symbol
table and the Smalltalk dictionary are neither spared nor in the making. -/
structure Quiet (g : Globals) (spared old : Set Extent) (m₀ : Mem) (making : Set Extent)
    (s : Arena) : Prop where
  layout : Layout s.heap s.live
  stays : old ⊆ s.live
  same : ∀ e ∈ spared, e ∈ old ∧ SameBytes m₀ s.heap.mem e
  new : ∀ e ∈ making, e ∈ s.live ∧ e ∉ old
  roles : Roles g (spared ∪ making) s.live s.heap.mem

section Quiet

variable {g : Globals} {spared old making : Set Extent} {m₀ : Mem} {s : Arena}

/-- What is finished is not in the making any more. -/
theorem Quiet.mono (hs : Quiet g spared old m₀ making s) {making' : Set Extent}
    (hsub : making' ⊆ making) : Quiet g spared old m₀ making' s where
  layout := hs.layout
  stays := hs.stays
  same := hs.same
  new := fun e he => hs.new e (hsub he)
  roles := hs.roles.congr Set.Subset.rfl
    (fun _ _ hin => hin.imp id fun h => hsub h) (fun _ _ _ _ => rfl) fun _ _ _ _ _ _ _ => rfl

/-- Stores into the body of one object leave the others alone. -/
theorem sameBytes_of_body {h : Heap} {live : Set Extent} (hl : Layout h live) {e : Extent}
    (he : e ∈ live) {m : Mem} (hm : ∀ a, a < e.addr + 24 ∨ e.addr + e.bytes ≤ a → m a = h.mem a)
    {e' : Extent} (he' : e' ∈ live) (hne : e' ≠ e) : SameBytes h.mem m e' := by
  intro a hh
  refine hm a ?_
  by_contra hin
  exact hne (hl.disjoint e' he' e he a hh ⟨by omega, by omega⟩)

/-- Stores into the body of an object that is not spared, when the roles stay. -/
theorem Quiet.edit (hs : Quiet g spared old m₀ making s) {e : Extent} (he : e ∈ s.live)
    (hout : e ∉ spared) {m : Mem}
    (hm : ∀ a, a < e.addr + 24 ∨ e.addr + e.bytes ≤ a → m a = s.heap.mem a)
    (hroles : Roles g (spared ∪ making) s.live m) :
    Quiet g spared old m₀ making { s with heap := { s.heap with mem := m } } where
  layout := by
    refine layout_bodies hs.layout fun a ha => hm a ?_
    have hpart := ha e he
    have hsize := (hs.layout.objects e he).nonempty
    omega
  stays := hs.stays
  same := by
    intro e' he'
    obtain ⟨hold, hbytes⟩ := hs.same e' he'
    refine ⟨hold, fun a hh => ?_⟩
    have hne : e' ≠ e := fun heq => hout (heq ▸ he')
    rw [← hbytes a hh]
    exact sameBytes_of_body hs.layout he hm (hs.stays hold) hne a hh
  new := hs.new
  roles := hroles

/-- Stores into an object in the making. -/
theorem Quiet.make (hs : Quiet g spared old m₀ making s) {e : Extent} (he : e ∈ making) {m : Mem}
    (hm : ∀ a, a < e.addr + 24 ∨ e.addr + e.bytes ≤ a → m a = s.heap.mem a) :
    Quiet g spared old m₀ making { s with heap := { s.heap with mem := m } } := by
  obtain ⟨hlive, hnew⟩ := hs.new e he
  have hother : ∀ e' ∈ s.live, e' ∉ spared ∪ making → SameBytes s.heap.mem m e' := by
    intro e' he' hout
    refine sameBytes_of_body hs.layout hlive hm he' fun heq => hout (.inr ?_)
    rw [heq]
    exact he
  refine hs.edit hlive (fun hin => hnew (hs.same e hin).1) hm ?_
  refine hs.roles.congr Set.Subset.rfl (fun _ _ hin => hin) ?_ ?_
  · intro e' he' hout _
    exact (hother e' he' hout).size (hs.layout.objects e' he').nonempty
  · intro e' he' hout _ _
    exact hother e' he' hout

/-- A new object is in the making. -/
theorem Quiet.alloc (hs : Quiet g spared old m₀ making s) {req : AllocRequest} {obj : Nat}
    {h : Heap} (ha : omAlloc s.heap req = some (obj, h)) :
    Quiet g spared old m₀ (insert ⟨obj, req.totalBytes⟩ making)
      { heap := h, live := insert ⟨obj, req.totalBytes⟩ s.live } := by
  obtain ⟨hlayout, hunused, -, -⟩ := omAlloc_layout hs.layout ha
  have hbytes := req.le_totalBytes
  have hfresh : (⟨obj, req.totalBytes⟩ : Extent) ∉ s.live := by
    intro hin
    exact hunused obj (Nat.le_refl _) (by omega) ⟨_, hin, Nat.le_refl _, by
      show obj < obj + req.totalBytes
      omega⟩
  have hsame := fun e he => omAlloc_sameBytes (e := e) hs.layout ha he
  refine ⟨hlayout, hs.stays.trans (Set.subset_insert _ _), ?_, ?_, ?_⟩
  · intro e he
    obtain ⟨hold, hkept⟩ := hs.same e he
    refine ⟨hold, fun a hh => ?_⟩
    rw [← hkept a hh]
    exact hsame e (hs.stays hold) a hh
  · rintro e (rfl | he)
    · exact ⟨Set.mem_insert _ _, fun hin => hfresh (hs.stays hin)⟩
    · obtain ⟨hlive, hnew⟩ := hs.new e he
      exact ⟨Set.mem_insert_of_mem _ hlive, hnew⟩
  · refine hs.roles.congr (Set.subset_insert _ _) ?_ ?_ ?_
    · rintro e he (hin | rfl | hin)
      · exact .inl hin
      · exact absurd he hfresh
      · exact .inr hin
    · intro e he _ _
      exact (hsame e he).size (hs.layout.objects e he).nonempty
    · intro e he _ _ _
      exact hsame e he

/-- Stores into the fields of the symbol table. -/
theorem Quiet.table (hs : Quiet g spared old m₀ making s) {e : Extent} (he : e ∈ s.live)
    (hout : e ∉ spared ∪ making) (haddr : e.addr = g.symbolTable) {m : Mem}
    (hm : ∀ a, a < e.addr + 24 ∨ e.addr + e.bytes ≤ a → m a = s.heap.mem a) :
    Quiet g spared old m₀ making { s with heap := { s.heap with mem := m } } := by
  have hother : ∀ e' ∈ s.live, e' ≠ e → SameBytes s.heap.mem m e' :=
    fun e' he' hne => sameBytes_of_body hs.layout he hm he' hne
  refine hs.edit he (fun hin => hout (.inl hin)) hm ?_
  refine hs.roles.congr Set.Subset.rfl (fun _ _ hin => hin) ?_ ?_
  · intro e' he' _ haddr'
    refine load64_congr fun k hk => hm _ ?_
    omega
  · intro e' he' _ _ hne
    refine hother e' he' fun heq => hne ?_
    rw [heq, haddr]

end Quiet

/-! ## §3. Allocations and stores. -/

/-- The words of a body. -/
def bodyWords (format : UInt64) (size : Nat) : Nat :=
  if format = formatBytes then (size + 7) / 8 else size

/-- Where an allocation has put an object. -/
def madeAt (object : Nat) (format : UInt64) (size : Nat) : Extent :=
  ⟨object, 8 * (3 + bodyWords format size)⟩

theorem requestFor_bytes {classPtr format : Oop} {size : Nat} {req : AllocRequest}
    (h : requestFor classPtr format size = some req) :
    req.totalBytes = 8 * (3 + bodyWords format size) := by
  unfold requestFor at h
  split_ifs at h with hword
  unfold allocRequest at h
  split_ifs at h with hfits
  · obtain rfl := Option.some.inj h
    have hsize : (UInt64.ofNat (size : Int).toNat).toNat = size := toNat_ofNat64 hword
    obtain ⟨hround, -⟩ := hfits
    rw [hsize] at hround
    unfold AllocRequest.totalBytes slotWords bodyWords wordSize
    simp only [hsize]
    split_ifs with hformat
    · have hwrap := hround hformat
      rw [wrap64_of_lt (by omega)]
    · rfl
  · cases h

section Programs

variable {g : Globals} {spared old making : Set Extent} {m₀ : Mem}

theorem quiet_tryAlloc (classPtr format : Oop) (size : Nat) (R : Arena → Prop) :
    Triple (Quiet g spared old m₀ making) (tryAlloc classPtr format size)
      (fun result s => match result with
        | none => Quiet g spared old m₀ making s
        | some object => Quiet g spared old m₀ (insert (madeAt object format size) making) s) R := by
  refine Triple.modifyGet fun s hs => ?_
  rcases hreq : requestFor classPtr format size with _ | req
  · exact hs
  simp only
  rcases ha : omAlloc s.heap req with _ | ⟨object, heap⟩
  · exact hs
  simp only
  have hquiet := hs.alloc ha
  unfold madeAt
  rw [requestFor_bytes hreq] at hquiet ⊢
  exact hquiet

theorem quiet_alloc (classPtr format : Oop) (size : Nat) :
    Triple (Quiet g spared old m₀ making) (alloc classPtr format size)
      (fun object => Quiet g spared old m₀ (insert (madeAt object format size) making))
      (Quiet g spared old m₀ making) := by
  refine Triple.bind (quiet_tryAlloc classPtr format size _) fun result => ?_
  cases result with
  | none => exact Triple.reject fun s hs => hs
  | some object => exact Triple.pure fun s hs => hs

/-- An edit of an object in the making. -/
theorem quiet_editMem {e : Extent} (he : e ∈ making) {f : Mem → Mem}
    (hf : ∀ m a, a < e.addr + 24 ∨ e.addr + e.bytes ≤ a → f m a = m a) :
    Keeps (Quiet g spared old m₀ making) (editMem f) :=
  Keeps.modify fun s hs => hs.make he (hf s.heap.mem)

theorem quiet_storeField {e : Extent} (he : e ∈ making) {index : Nat}
    (hroom : 32 + 8 * index ≤ e.bytes) (value : Oop) :
    Keeps (Quiet g spared old m₀ making) (storeField e.addr index value) := by
  refine quiet_editMem he fun m a ha => store64_of_out _ _ ?_
  unfold objFieldAddr
  omega

theorem quiet_storeBytes {e : Extent} (he : e ∈ making) {bytes : List UInt8}
    (hroom : 24 + bytes.length ≤ e.bytes) :
    Keeps (Quiet g spared old m₀ making) (storeBytes e.addr bytes) := by
  refine quiet_editMem he fun m a ha => putBytes_of_out _ _ ?_
  unfold objFieldAddr
  omega

theorem nilFields_of_out (m : Mem) (object start n : Nat) {a : Nat}
    (ha : a < objFieldAddr object start ∨ objFieldAddr object (start + n) ≤ a) :
    nilFields m object start n a = m a := by
  induction n with
  | zero => rfl
  | succ n ih =>
    unfold nilFields at ih ⊢
    rw [List.range_succ, List.foldl_append, List.foldl_cons, List.foldl_nil, setObjField,
      store64_of_out _ _ (by unfold objFieldAddr at ha ⊢; omega)]
    exact ih (by unfold objFieldAddr at ha ⊢; omega)

/-- Programs that keep a larger part in the making keep the smaller. -/
theorem Triple.finish {α : Type} {making' : Set Extent} (hsub : making ⊆ making') {m : Mat α}
    (h : Keeps (Quiet g spared old m₀ making') m) :
    Triple (Quiet g spared old m₀ making') m (fun _ => Quiet g spared old m₀ making)
      (Quiet g spared old m₀ making) :=
  h.imp (fun _ hs => hs) (fun _ _ hs => hs.mono hsub) fun _ hs => hs.mono hsub

/-- **Interning spares**: what it stores into is new or the symbol table. -/
theorem Quiet.intern {s : Arena} (hs : Quiet g spared old m₀ making s) (symbolClass : Oop)
    (text : CString) :
    Quiet g spared old m₀ making
      (internCstringSymbol s g.symbolTable symbolClass text).2 := by
  unfold internCstringSymbol
  split_ifs with hnone
  · exact hs
  simp only
  split_ifs with hfound
  · exact hs
  rcases ha : omAlloc s.heap (symbolRequest symbolClass text) with _ | ⟨symbol, h⟩
  · exact hs
  simp only
  have hsize : (symbolRequest symbolClass text).totalBytes
      = 8 * (3 + (text.bytes.length + 7) / 8) := by
    unfold AllocRequest.totalBytes symbolRequest
    simp only
    rw [text.slotWords]
  -- the text goes into the new object
  have hwritten := (hs.alloc ha).make (Set.mem_insert _ _)
    (m := putBytes h.mem (objFieldAddr symbol 0) text.bytes) fun a ha' => by
      refine putBytes_of_out _ _ ?_
      simp only at ha'
      unfold objFieldAddr
      omega
  rcases hfree : freeEntry (putBytes h.mem (objFieldAddr symbol 0) text.bytes) g.symbolTable
      (objSize s.heap.mem g.symbolTable).toNat with _ | i
  · exact hwritten.mono (Set.subset_insert _ _)
  simp only
  obtain ⟨hi, -⟩ := freeEntry_some hfree
  obtain ⟨t, ht, hout, haddr, hroom⟩ := hs.roles.table fun h0 => hnone (.inl h0)
  unfold HasFields at hroom
  rw [haddr] at hroom
  refine (hwritten.mono (Set.subset_insert _ _)).table (Set.mem_insert_of_mem _ ht) hout haddr
    fun a ha' => ?_
  rw [haddr] at ha'
  exact store64_of_out _ _ (by unfold objFieldAddr; omega)

theorem quiet_internCString (env : InstallEnv) (text : CString) :
    Keeps (Quiet env.globals spared old m₀ making) (internCString env text) := by
  refine Triple.bind (Keeps.modifyGet fun s hs => hs.intern _ _) fun symbol => ?_
  exact Triple.bind (Keeps.require _) fun _ => Keeps.pure _

theorem quiet_internSymbol (env : InstallEnv) (text : List Char) :
    Keeps (Quiet env.globals spared old m₀ making) (internSymbol env text) :=
  quiet_internCString env _

theorem quiet_makeCString (env : InstallEnv) (text : CString) :
    Keeps (Quiet g spared old m₀ making) (makeCString env text) := by
  refine Triple.bind (quiet_alloc _ _ _) fun string => ?_
  refine Triple.bind (Triple.finish (Set.subset_insert _ _) ?_) fun _ => Keeps.pure _
  refine quiet_storeBytes (Set.mem_insert (madeAt string formatBytes _) _) ?_
  unfold madeAt bodyWords
  simp only [if_pos]
  omega

theorem quiet_bcMakeByteString (env : InstallEnv) (text : List Char) :
    Keeps (Quiet g spared old m₀ making) (bcMakeByteString env text) :=
  quiet_makeCString env _

end Programs

/-! ## §4. The Smalltalk dictionary. -/

/-- The dictionary has this array, which holds as many associations, and counts no
more. -/
structure Linked (g : Globals) (X : Set Extent) (associations tally : Nat) (s : Arena) : Prop where
  field : (objField s.heap.mem g.smalltalkDictionary 0).toNat = associations
  stored : storedTally s.heap.mem g.smalltalkDictionary ≤ tally
  holds : ∃ array, array.addr = associations ∧
    HoldsAssociations g X s.live s.heap.mem tally array

section Dictionary

variable {g : Globals} {spared old making : Set Extent} {m₀ : Mem} {s : Arena}

/-- Of two live objects one lies behind the other. -/
theorem behind_of_ne {h : Heap} {live : Set Extent} (hl : Layout h live) {e e' : Extent}
    (he : e ∈ live) (he' : e' ∈ live) (hne : e ≠ e') :
    e.addr + e.bytes ≤ e'.addr ∨ e'.addr + e'.bytes ≤ e.addr := by
  have hsize := (hl.objects e he).nonempty
  have hsize' := (hl.objects e' he').nonempty
  by_contra hin
  exact hne (hl.disjoint e he e' he' (max e.addr e'.addr) ⟨by omega, by omega⟩
    ⟨by omega, by omega⟩)

theorem addr_ne_of_ne {h : Heap} {live : Set Extent} (hl : Layout h live) {e e' : Extent}
    (he : e ∈ live) (he' : e' ∈ live) (hne : e ≠ e') : e.addr ≠ e'.addr := by
  have hsize := (hl.objects e he).nonempty
  have hsize' := (hl.objects e' he').nonempty
  have hbehind := behind_of_ne hl he he' hne
  omega

/-- An array in the making is ready to be linked. -/
theorem Quiet.newArray {A : Extent} (hs : Quiet g spared old m₀ (insert A making) s)
    (hA : A ∉ making) (hhas : g.HasDictionary) {tally : Nat} (hroom : HasFields s.heap.mem A)
    (hcounted : tally ≤ (objSize s.heap.mem A.addr).toNat)
    (hentry : ∀ i, i < tally → isObjectPtr (objField s.heap.mem A.addr i) = true →
      ∃ e ∈ s.live, e ∉ spared ∪ insert A making ∧ e.addr = (objField s.heap.mem A.addr i).toNat ∧
        40 ≤ e.bytes ∧ e.addr ≠ g.smalltalkDictionary ∧ e.addr ≠ g.symbolTable) :
    HoldsAssociations g (spared ∪ making) s.live s.heap.mem tally A := by
  obtain ⟨hlive, hnew⟩ := hs.new A (Set.mem_insert _ _)
  have hX : A ∈ spared ∪ insert A making := .inr (Set.mem_insert _ _)
  have hother : ∀ e ∈ s.live, e ∉ spared ∪ insert A making → e.addr ≠ A.addr :=
    fun e he hout => addr_ne_of_ne hs.layout he hlive fun heq => hout (heq ▸ hX)
  refine ⟨hlive, ?_, ?_, ?_, hroom, hcounted, ?_⟩
  · rintro (hin | hin)
    · exact hnew (hs.same A hin).1
    · exact hA hin
  · obtain ⟨d, hd⟩ := hs.roles.dictionary hhas
    rw [← hd.addr]
    exact (hother d hd.isLive hd.outside).symm
  · intro heq
    rcases eq_or_ne g.symbolTable 0 with hzero | hne
    · have habove := (hs.layout.objects A hlive).above
      have hfirst := hs.layout.placed.aboveFirstPage
      unfold pageBytes at hfirst
      omega
    · obtain ⟨e, he, hout, haddr, -⟩ := hs.roles.table hne
      exact hother e he hout (haddr.trans heq.symm)
  · intro i hi hptr
    obtain ⟨e, he, hout, haddr, hbytes, hdictionary, htable⟩ := hentry i hi hptr
    refine ⟨e, he, fun hin => hout ?_, haddr, hbytes, hother e he hout, hdictionary, htable⟩
    exact hin.imp id fun h => Set.mem_insert_of_mem _ h

/-- Stores into the dictionary that leave it a dictionary. -/
theorem Quiet.redirect (hs : Quiet g spared old m₀ making s) {d : Extent} {m : Mem}
    (hm : ∀ a, a < d.addr + 24 ∨ d.addr + d.bytes ≤ a → m a = s.heap.mem a)
    (hd : DictionaryAt g (spared ∪ making) s.live m d) :
    Quiet g spared old m₀ making { s with heap := { s.heap with mem := m } } := by
  refine hs.edit hd.isLive (fun hin => hd.outside (.inl hin)) hm ⟨fun hne => ?_, fun _ => ⟨d, hd⟩⟩
  obtain ⟨e, he, hout, haddr, hroom⟩ := hs.roles.table hne
  refine ⟨e, he, hout, haddr, ?_⟩
  have hne' : e ≠ d := by
    rintro rfl
    exact hd.notTable (hd.addr.symm.trans haddr)
  have hsame := sameBytes_of_body hs.layout hd.isLive hm he hne'
  unfold HasFields at hroom ⊢
  rw [hsame.size (hs.layout.objects e he).nonempty]
  exact hroom

/-- What is linked stays linked when other objects are stored into or made. -/
theorem Linked.congr {X X' : Set Extent} {associations tally : Nat} {s' : Arena}
    (h : Linked g X associations tally s) (hlive : s.live ⊆ s'.live)
    (hX : ∀ e ∈ s.live, e ∈ X' → e ∈ X) {d : Extent} (hd : DictionaryAt g X s.live s.heap.mem d)
    (hsame : ∀ e ∈ s.live, e ∉ X → SameBytes s.heap.mem s'.heap.mem e) :
    Linked g X' associations tally s' := by
  obtain ⟨array, haddr, hholds⟩ := h.holds
  have hroom := hd.room
  have hdSame := hsame d hd.isLive hd.outside
  refine ⟨?_, ?_, array, haddr, hholds.congr hlive hX (hsame array hholds.isLive hholds.outside)⟩
  · rw [← h.field, ← hd.addr, hdSame.field (by omega)]
  · rw [← hd.addr, storedTally_congr hdSame hroom, hd.addr]
    exact h.stored

/-- What is linked stays linked when an object is allocated. -/
theorem Linked.alloc (hs : Quiet g spared old m₀ making s) (hhas : g.HasDictionary)
    {associations tally : Nat} (hl : Linked g (spared ∪ making) associations tally s) {h : Heap}
    {A : Extent} (hfresh : A ∉ s.live) (hsame : ∀ e ∈ s.live, SameBytes s.heap.mem h.mem e) :
    Linked g (spared ∪ insert A making) associations tally ⟨h, insert A s.live⟩ := by
  obtain ⟨d, hd⟩ := hs.roles.dictionary hhas
  refine hl.congr (Set.subset_insert _ _) ?_ hd fun e he _ => hsame e he
  rintro e he (hin | rfl | hin)
  · exact .inl hin
  · exact absurd he hfresh
  · exact .inr hin

/-- A new object, of which the size is known, with what does not depend on it. -/
theorem quiet_allocNew {F : Set Extent → Arena → Prop}
    (hF : ∀ s h A, Quiet g spared old m₀ making s → F making s → A ∉ s.live →
      (∀ e ∈ s.live, SameBytes s.heap.mem h.mem e) → F (insert A making) ⟨h, insert A s.live⟩)
    (classPtr format : Oop) (size : Nat) :
    Triple (fun s => Quiet g spared old m₀ making s ∧ F making s) (alloc classPtr format size)
      (fun object s =>
        (Quiet g spared old m₀ (insert (madeAt object format size) making) s ∧
          F (insert (madeAt object format size) making) s) ∧
        madeAt object format size ∉ making ∧ (objSize s.heap.mem object).toNat = size)
      (Quiet g spared old m₀ making) := by
  rintro s ⟨hs, hf⟩
  unfold alloc
  rw [bind_run]
  unfold tryAlloc Attempt.modifyGet
  rcases hreq : requestFor classPtr format size with _ | req
  · exact hs
  rcases ha : omAlloc s.heap req with _ | ⟨object, heap⟩
  · simp only [ha]
    exact hs
  simp only [ha]
  obtain ⟨-, hunused, -, -⟩ := omAlloc_layout hs.layout ha
  obtain ⟨-, hwritten, -⟩ := omAlloc_scan ha
  have hbytes := req.le_totalBytes
  have hfresh : (⟨object, req.totalBytes⟩ : Extent) ∉ s.live := by
    intro hin
    exact hunused object (Nat.le_refl _) (by omega) ⟨_, hin, Nat.le_refl _, by
      show object < object + req.totalBytes
      omega⟩
  have hquiet := hs.alloc ha
  have hframe := hF s heap _ hs hf hfresh fun e he => omAlloc_sameBytes hs.layout ha he
  have hsize : (objSize heap.mem object).toNat = size := by
    rw [hwritten, objSize_writeObject]
    unfold requestFor at hreq
    split_ifs at hreq with hword
    unfold allocRequest at hreq
    split_ifs at hreq with hfits
    · obtain rfl := Option.some.inj hreq
      exact toNat_ofNat64 hword
    · cases hreq
  have hnew : (⟨object, req.totalBytes⟩ : Extent) ∉ making := fun hin => hfresh (hs.new _ hin).1
  unfold madeAt
  rw [requestFor_bytes hreq] at hquiet hframe hnew ⊢
  exact ⟨⟨hquiet, hframe⟩, hnew, hsize⟩

theorem nilFields_field (m : Mem) (object start n : Nat) {i : Nat} (hlo : start ≤ i)
    (hi : i < start + n) : objField (nilFields m object start n) object i = taggedNil := by
  induction n with
  | zero => omega
  | succ n ih =>
    unfold nilFields at ih ⊢
    rw [List.range_succ, List.foldl_append, List.foldl_cons, List.foldl_nil]
    rcases Nat.eq_or_lt_of_le (Nat.le_of_lt_succ (show i < start + n + 1 by omega)) with rfl | hlt
    · rw [objField_setObjField_self]
    · rw [objField_setObjField_of_ne _ _ _ (by omega)]
      exact ih hlt

theorem isObjectPtr_ofNat {e : Extent} {h : Heap} {live : Set Extent} (hl : Layout h live)
    (he : e ∈ live) : (UInt64.ofNat e.addr).toNat = e.addr ∧
      isObjectPtr (UInt64.ofNat e.addr) = true ∧ UInt64.ofNat e.addr ≠ taggedNil := by
  have hbelow := (hl.objects e he).below
  have haligned := (hl.objects e he).aligned
  have hlimit := hl.placed.freeLimit
  have hstop := hl.placed.limitStop
  have hbound := hl.placed.stopBound
  have hword : (UInt64.ofNat e.addr).toNat = e.addr := toNat_ofNat64 (by omega)
  refine ⟨hword, ?_, fun hnil => ?_⟩
  · rw [isObjectPtr_iff, hword]
    omega
  · rw [hnil] at hword
    have hthree : taggedNil.toNat = 3 := rfl
    omega

/-- The dictionary gets another array. -/
theorem Quiet.linkArray {A : Extent} (hs : Quiet g spared old m₀ (insert A making) s)
    (hhas : g.HasDictionary) {tally : Nat} {m : Mem}
    (hholds : HoldsAssociations g (spared ∪ making) s.live s.heap.mem tally A)
    (hfirst : objField m g.smalltalkDictionary 0 = UInt64.ofNat A.addr)
    (hm : ∀ a, a < objFieldAddr g.smalltalkDictionary 0 ∨ objFieldAddr g.smalltalkDictionary 2 ≤ a →
      m a = s.heap.mem a)
    (htally : storedTally m g.smalltalkDictionary ≤ tally) :
    Quiet g spared old m₀ making { s with heap := { s.heap with mem := m } } ∧
      Linked g (spared ∪ making) A.addr tally { s with heap := { s.heap with mem := m } } ∧
      SameBytes s.heap.mem m A := by
  have hs' := hs.mono (Set.subset_insert A making)
  obtain ⟨d, hd⟩ := hs'.roles.dictionary hhas
  have hroom := hd.room
  have hbody : ∀ a, a < d.addr + 24 ∨ d.addr + d.bytes ≤ a → m a = s.heap.mem a := by
    intro a ha
    refine hm a ?_
    rw [hd.addr] at ha
    unfold objFieldAddr
    omega
  obtain ⟨hword, hptr, hnotNil⟩ := isObjectPtr_ofNat hs.layout hholds.isLive
  have hne : A ≠ d := by
    rintro rfl
    exact hholds.notDictionary hd.addr
  have hsame := sameBytes_of_body hs.layout hd.isLive hbody hholds.isLive hne
  have hnew := hholds.congr Set.Subset.rfl (fun _ _ hin => hin) hsame
  refine ⟨hs'.redirect hbody ⟨hd.isLive, hd.outside, hd.addr, hd.room, hd.notTable, ?_, ?_⟩, ?_⟩
  · rw [hd.addr, hfirst]
    intro hnil
    exact absurd hnil hnotNil
  · rw [hd.addr, hfirst]
    intro _ _
    refine ⟨A, hword.symm, hnew.isLive, hnew.outside, hnew.notDictionary, hnew.notTable, hnew.room,
      htally.trans hnew.counted, ?_⟩
    intro i hi
    exact hnew.entry i (Nat.lt_of_lt_of_le hi htally)
  · refine ⟨⟨?_, htally, A, rfl, hnew⟩, hsame⟩
    show (objField m g.smalltalkDictionary 0).toNat = A.addr
    rw [hfirst, hword]

/-- A new array with nothing but nil from its start on. -/
theorem nilArray {A : Extent} {n : Nat} (hA : A = madeAt A.addr formatIndexable n) {s : Arena}
    (hs : Quiet g spared old m₀ (insert A making) s)
    (hsize : (objSize s.heap.mem A.addr).toNat = n) :
    let m := nilFields s.heap.mem A.addr 0 n
    Quiet g spared old m₀ (insert A making) { s with heap := { s.heap with mem := m } } ∧
      (objSize m A.addr).toNat = n ∧ ∀ i, i < n → objField m A.addr i = taggedNil := by
  have hbytes : A.bytes = 8 * (3 + n) := by
    rw [hA]
    rfl
  have hout : ∀ a, a < A.addr + 24 ∨ A.addr + A.bytes ≤ a →
      nilFields s.heap.mem A.addr 0 n a = s.heap.mem a := by
    intro a ha
    refine nilFields_of_out _ _ _ _ ?_
    unfold objFieldAddr
    omega
  refine ⟨hs.make (Set.mem_insert _ _) hout, ?_, fun i hi =>
    nilFields_field _ _ _ _ (Nat.zero_le i) (by omega)⟩
  have hsame : objSize (nilFields s.heap.mem A.addr 0 n) A.addr = objSize s.heap.mem A.addr :=
    load64_congr fun k hk => hout _ (by omega)
  rw [hsame, hsize]

theorem quiet_ensureAssociations (env : InstallEnv) (hhas : g.HasDictionary) (tally : Nat) :
    Triple
      (fun s => Quiet g spared old m₀ making s ∧
        storedTally s.heap.mem g.smalltalkDictionary = tally)
      (ensureAssociations env g.smalltalkDictionary)
      (fun associations s => Quiet g spared old m₀ making s ∧
        (isObjectPtr associations = true →
          Linked g (spared ∪ making) associations.toNat tally s))
      (Quiet g spared old m₀ making) := by
  refine Triple.get_bind_at fun s hs => ?_
  obtain ⟨hs, htally⟩ := hs
  obtain ⟨d, hd⟩ := hs.roles.dictionary hhas
  simp only
  rw [← hd.addr] at htally
  split
  next hnil =>
    rw [← hd.addr] at hnil
    have height : tally ≤ 8 := by
      rw [← htally]
      exact hd.empty hnil
    refine Triple.bind ((quiet_allocNew (F := fun _ _ => True) (fun _ _ _ _ _ _ _ => trivial)
      (UInt64.ofNat env.arrayClass) formatIndexable 8).imp
      (fun t ht => ⟨ht ▸ hs, trivial⟩) (fun _ _ h => h) fun _ h => h) fun new => ?_
    -- the new array is filled with nil
    refine Triple.bind (Q := fun _ s =>
        Quiet g spared old m₀ (insert (madeAt new formatIndexable 8) making) s ∧
        madeAt new formatIndexable 8 ∉ making ∧ (objSize s.heap.mem new).toNat = 8 ∧
        ∀ i, i < 8 → objField s.heap.mem new i = taggedNil)
      (Triple.modify ?_) fun _ => ?_
    · rintro s ⟨⟨hquiet, -⟩, hnew, hsize⟩
      obtain ⟨hfilled, hsize', hfields⟩ := nilArray rfl hquiet hsize
      exact ⟨hfilled, hnew, hsize', hfields⟩
    -- and becomes the array of the dictionary
    refine Triple.bind (Q := fun _ s => Quiet g spared old m₀ making s ∧
        Linked g (spared ∪ making) new tally s ∧ (UInt64.ofNat new).toNat = new)
      (Triple.modify ?_) fun _ => ?_
    · rintro s ⟨hquiet, hnew, hsize, hfields⟩
      have hholds : HoldsAssociations g (spared ∪ making) s.live s.heap.mem tally
          (madeAt new formatIndexable 8) := by
        refine hquiet.newArray hnew hhas ?_ ?_ ?_
        · unfold HasFields
          show 24 + 8 * (objSize s.heap.mem new).toNat ≤ 8 * (3 + 8)
          omega
        · show tally ≤ (objSize s.heap.mem new).toNat
          omega
        · intro i hi hptr
          replace hptr : isObjectPtr (objField s.heap.mem new i) = true := hptr
          rw [hfields i (by omega), isObjectPtr_taggedNil] at hptr
          cases hptr
      have hlink := hquiet.linkArray hhas
        (m := setObjField (setObjField s.heap.mem g.smalltalkDictionary 0 (UInt64.ofNat new))
          g.smalltalkDictionary 1 (tagSmallintNat 0)) hholds ?_ ?_ ?_
      · exact ⟨hlink.1, hlink.2.1,
          (isObjectPtr_ofNat hquiet.layout (hquiet.new _ (Set.mem_insert _ _)).1).1⟩
      · rw [objField_setObjField_of_ne _ _ _ (by decide), objField_setObjField_self]
        rfl
      · intro a ha
        unfold objFieldAddr at ha
        rw [setObjField, store64_of_out _ _ (by unfold objFieldAddr; omega), setObjField,
          store64_of_out _ _ (by unfold objFieldAddr; omega)]
      · unfold storedTally
        rw [objField_setObjField_self]
        exact Nat.zero_le _
    · refine Triple.pure fun s hs => ⟨hs.1, fun _ => ?_⟩
      rw [hs.2.2]
      exact hs.2.1
  next hne =>
    refine Triple.pure fun t ht => ?_
    subst ht
    rw [← hd.addr] at hne ⊢
    refine ⟨hs, fun hptr => ?_⟩
    obtain ⟨array, haddr, hholds⟩ := hd.holds hne hptr
    refine ⟨by rw [hd.addr], by rw [← hd.addr, htally], array, haddr, htally ▸ hholds⟩

/-- The old entries in a new array, and nil behind them. -/
theorem copiedArray (m : Mem) (src dst : Nat) {size n : Nat} (hsize : size ≤ n)
    (hapart : objFieldAddr src size ≤ objFieldAddr dst 0 ∨ objFieldAddr dst n ≤ objFieldAddr src 0) :
    (∀ i, i < size →
      objField (nilFields (copyFields m src dst size) dst size (n - size)) dst i
        = objField m src i) ∧
    ∀ a, a < objFieldAddr dst 0 ∨ objFieldAddr dst n ≤ a →
      nilFields (copyFields m src dst size) dst size (n - size) a = m a := by
  obtain ⟨hcopied, hother⟩ := copyFields_spec m src dst size
    (by unfold objFieldAddr at *; omega)
  have hbehind : ∀ a, a < objFieldAddr dst size ∨ objFieldAddr dst n ≤ a →
      nilFields (copyFields m src dst size) dst size (n - size) a
        = copyFields m src dst size a := by
    intro a ha
    refine nilFields_of_out _ _ _ _ ?_
    rw [Nat.add_sub_cancel' hsize]
    exact ha
  refine ⟨fun i hi => ?_, fun a ha => ?_⟩
  · rw [← hcopied i hi]
    refine objField_congr fun a hlo hhi => hbehind a ?_
    unfold objFieldAddr at *
    omega
  · rw [hbehind a (by unfold objFieldAddr at *; omega)]
    exact hother a (by unfold objFieldAddr at *; omega)

theorem quiet_growAssociations (env : InstallEnv) (hhas : g.HasDictionary)
    (associations tally : Nat) :
    Triple
      (fun s => Quiet g spared old m₀ making s ∧
        Linked g (spared ∪ making) associations tally s)
      (growAssociations env g.smalltalkDictionary associations tally)
      (fun result s => Quiet g spared old m₀ making s ∧
        Linked g (spared ∪ making) result tally s ∧
        tally < (objSize s.heap.mem result).toNat)
      (Quiet g spared old m₀ making) := by
  refine Triple.get_bind_at fun s hs => ?_
  obtain ⟨hs, hlinked⟩ := hs
  obtain ⟨array, haddr, hholds⟩ := hlinked.holds
  have hcounted := hholds.counted
  have hroom := hholds.room
  have hbelow := (hs.layout.objects array hholds.isLive).below
  have hplaced := hs.layout.placed
  have hlimit := hplaced.freeLimit
  have hstop := hplaced.limitStop
  have hbound := hplaced.stopBound
  unfold HasFields at hroom
  rw [haddr] at hcounted hroom
  simp only
  split
  next hfull =>
    have hsize : (objSize s.heap.mem associations).toNat = tally := by omega
    rw [hsize] at hroom ⊢
    -- the new size is larger
    obtain ⟨newSize, hnewSize, hlarger⟩ : ∃ n, n = (if tally = 0 then 8 else wrap64 (tally * 2)) ∧
        tally < n := by
      refine ⟨_, rfl, ?_⟩
      split_ifs with hzero
      · omega
      · rw [wrap64_of_lt (by omega)]
        omega
    rw [← hnewSize, Nat.min_eq_left (by omega)]
    refine Triple.bind ((quiet_allocNew
      (F := fun making t => Linked g (spared ∪ making) associations tally t)
      (fun t h A ht hl hfresh hsame => hl.alloc ht hhas hfresh hsame)
      (UInt64.ofNat env.arrayClass) formatIndexable newSize).imp
      (fun t ht => ht ▸ ⟨hs, hlinked⟩) (fun _ _ h => h) fun _ h => h) fun grown => ?_
    -- the entries are copied
    refine Triple.bind (Q := fun _ s =>
        Quiet g spared old m₀ (insert (madeAt grown formatIndexable newSize) making) s ∧
        HoldsAssociations g (spared ∪ making) s.live s.heap.mem tally
          (madeAt grown formatIndexable newSize) ∧
        (objSize s.heap.mem grown).toNat = newSize ∧
        storedTally s.heap.mem g.smalltalkDictionary ≤ tally)
      (Triple.modify ?_) fun _ => ?_
    · rintro s ⟨⟨hquiet, hlinked⟩, hnew, hgrown⟩
      have hstored := hlinked.stored
      obtain ⟨array, haddr, hholds⟩ := hlinked.holds
      have hA := (hquiet.new _ (Set.mem_insert (madeAt grown formatIndexable newSize) making)).1
      have hne : ∀ e, e ∉ spared ∪ insert (madeAt grown formatIndexable newSize) making →
          e ≠ madeAt grown formatIndexable newSize :=
        fun e hout heq => hout (.inr (heq ▸ Set.mem_insert _ _))
      have hcounted := hholds.counted
      have hroom := hholds.room
      have hbehind := behind_of_ne hquiet.layout hholds.isLive hA (hne _ hholds.outside)
      unfold HasFields at hroom
      rw [haddr] at hbehind hroom hcounted
      replace hbehind : associations + array.bytes ≤ grown ∨
        grown + 8 * (3 + newSize) ≤ associations := hbehind
      obtain ⟨hfields, hother⟩ := copiedArray s.heap.mem associations grown
        (show tally ≤ newSize by omega) (by unfold objFieldAddr; omega)
      have hout : ∀ a, a < grown + 24 ∨ grown + 8 * (3 + newSize) ≤ a →
          nilFields (copyFields s.heap.mem associations grown tally) grown tally
            (newSize - tally) a = s.heap.mem a :=
        fun a ha => hother a (by unfold objFieldAddr; omega)
      have hsizeSame : objSize (nilFields (copyFields s.heap.mem associations grown tally) grown
          tally (newSize - tally)) grown = objSize s.heap.mem grown :=
        load64_congr fun k hk => hout _ (by omega)
      have hcopied := hquiet.make (Set.mem_insert (madeAt grown formatIndexable newSize) making) hout
      obtain ⟨d, hd⟩ := hquiet.roles.dictionary hhas
      refine ⟨hcopied, hcopied.newArray hnew hhas ?_ ?_ ?_, ?_, ?_⟩
      · unfold HasFields
        show 24 + 8 * (objSize _ grown).toNat ≤ 8 * (3 + newSize)
        rw [hsizeSame]
        omega
      · show tally ≤ (objSize _ grown).toNat
        rw [hsizeSame]
        omega
      · intro i hi hptr
        replace hptr : isObjectPtr (objField (nilFields (copyFields s.heap.mem associations grown
          tally) grown tally (newSize - tally)) grown i) = true := hptr
        show ∃ e ∈ s.live, e ∉ _ ∧ e.addr = (objField (nilFields (copyFields s.heap.mem
          associations grown tally) grown tally (newSize - tally)) grown i).toNat ∧ _
        rw [hfields i hi] at hptr ⊢
        rw [← haddr] at hptr ⊢
        obtain ⟨e, he, hout', heq, hbytes, -, hrest⟩ := hholds.entry i hi hptr
        exact ⟨e, he, hout', heq, hbytes, hrest⟩
      · show (objSize _ grown).toNat = newSize
        rw [hsizeSame, hgrown]
      · have hdSame := sameBytes_of_body hquiet.layout hA hout hd.isLive (hne d hd.outside)
        rw [← hd.addr] at hstored ⊢
        show storedTally _ d.addr ≤ tally
        rw [storedTally_congr hdSame hd.room]
        exact hstored
    · refine Triple.bind (Q := fun _ s => Quiet g spared old m₀ making s ∧
          Linked g (spared ∪ making) grown tally s ∧ tally < (objSize s.heap.mem grown).toNat)
        (Triple.modify ?_) fun _ => Triple.pure fun s hs => hs
      rintro s ⟨hquiet, hholds, hgrown, hstored⟩
      obtain ⟨hlinkedQuiet, hlink, hsame⟩ := hquiet.linkArray hhas
        (m := setObjField s.heap.mem g.smalltalkDictionary 0 (UInt64.ofNat grown)) hholds
        (objField_setObjField_self _ _ _ _)
        (fun a ha => store64_of_out _ _ (by unfold objFieldAddr at *; omega))
        (by
          unfold storedTally at hstored ⊢
          rw [objField_setObjField_of_ne _ _ _ (by decide)]
          exact hstored)
      refine ⟨hlinkedQuiet, hlink, ?_⟩
      have hkept := hsame.size (show 24 ≤ 8 * (3 + newSize) by omega)
      replace hkept : objSize (setObjField s.heap.mem g.smalltalkDictionary 0
        (UInt64.ofNat grown)) grown = objSize s.heap.mem grown := hkept
      show tally < (objSize (setObjField _ _ _ _) grown).toNat
      rw [hkept, hgrown]
      exact hlarger
  next hroomLeft =>
    refine Triple.pure fun t ht => ?_
    subst ht
    exact ⟨hs, hlinked, by omega⟩

/-- The tally that is stored is the one that is read. -/
theorem tallyCount_tagged {n : Nat} (hn : n < 2 ^ 60) :
    tallyCount (tagSmallintNat n) = n ∧ tagSmallintNat n ≠ taggedNil := by
  have hword : (tagSmallintNat n).toNat = 4 * n + 1 := toNat_ofNat64 (by omega)
  constructor
  · have hint : (tagSmallintNat n).toBitVec.toInt = 4 * n + 1 := by
      rw [BitVec.toInt_eq_toNat_of_lt]
      · show ((tagSmallintNat n).toNat : Int) = _
        rw [hword]
        rfl
      · show 2 * (tagSmallintNat n).toNat < 2 ^ 64
        omega
    unfold tallyCount untagSmallint
    rw [hint]
    omega
  · intro hnil
    rw [hnil] at hword
    have hthree : taggedNil.toNat = 3 := rfl
    omega

/-- A value stored into an association that is there. -/
theorem Quiet.setValue (hs : Quiet g spared old m₀ making s) {associations tally : Nat}
    (hl : Linked g (spared ∪ making) associations tally s) {key association : Oop}
    (hfound : associationWithKey s.heap.mem associations tally key = some association)
    (value : Oop) :
    Quiet g spared old m₀ making
      { s with heap := { s.heap with mem := setObjField s.heap.mem association.toNat 1 value } } := by
  obtain ⟨array, haddr, hholds⟩ := hl.holds
  -- the entry it was found in
  obtain ⟨i, hi, hentry⟩ := List.exists_of_findSome?_eq_some hfound
  simp only at hentry
  split_ifs at hentry with hmatch
  have hfield := Option.some.inj hentry
  rw [← haddr] at hfield hmatch
  obtain ⟨e, he, hout, heq, hbytes, hnotArray, hnotDictionary, hnotTable⟩ :=
    hholds.entry i (List.mem_range.mp hi) hmatch.1
  rw [hfield] at heq
  have hbody : ∀ a, a < e.addr + 24 ∨ e.addr + e.bytes ≤ a →
      setObjField s.heap.mem association.toNat 1 value a = s.heap.mem a := by
    intro a ha
    rw [← heq]
    exact store64_of_out _ _ (by unfold objFieldAddr; omega)
  have hother : ∀ e' ∈ s.live, e'.addr ≠ e.addr →
      SameBytes s.heap.mem (setObjField s.heap.mem association.toNat 1 value) e' :=
    fun e' he' hne => sameBytes_of_body hs.layout he hbody he' fun h => hne (by rw [h])
  refine hs.edit he (fun hin => hout (.inl hin)) hbody ?_
  refine hs.roles.congr Set.Subset.rfl (fun _ _ hin => hin) ?_ ?_
  · intro e' he' _ haddr'
    refine (hother e' he' fun h => hnotTable ?_).size (hs.layout.objects e' he').nonempty
    rw [← h, haddr']
  · intro e' he' _ hpart _
    refine hother e' he' fun h => ?_
    rcases hpart with hd | ha
    · exact hnotDictionary (by rw [← h, hd])
    · exact hnotArray (by rw [← h, ha, hl.field, haddr])

/-- A new association becomes the next entry of the array. -/
theorem Quiet.linkEntry {A : Extent} (hs : Quiet g spared old m₀ (insert A making) s)
    (hhas : g.HasDictionary) (hA : A ∉ making) (hbytes : 40 ≤ A.bytes) {associations tally : Nat}
    (hl : Linked g (spared ∪ insert A making) associations tally s)
    (hroom : tally < (objSize s.heap.mem associations).toNat) :
    let m := setObjField s.heap.mem associations tally (UInt64.ofNat A.addr)
    Quiet g spared old m₀ making { s with heap := { s.heap with mem := m } } ∧
      Linked g (spared ∪ making) associations (tally + 1)
        { s with heap := { s.heap with mem := m } } := by
  intro m
  obtain ⟨array, haddr, hholds⟩ := hl.holds
  obtain ⟨d, hd⟩ := hs.roles.dictionary hhas
  obtain ⟨hlive, hnew⟩ := hs.new A (Set.mem_insert _ _)
  have hX : A ∈ spared ∪ insert A making := .inr (Set.mem_insert _ _)
  have hfree : ∀ e, e ∉ spared ∪ insert A making → e ∉ spared ∪ making :=
    fun e hout hin => hout (hin.imp id fun h => Set.mem_insert_of_mem _ h)
  have hother : ∀ e ∈ s.live, e ∉ spared ∪ insert A making → A.addr ≠ e.addr :=
    fun e he hout => addr_ne_of_ne hs.layout hlive he fun heq => hout (heq ▸ hX)
  obtain ⟨hword, -, -⟩ := isObjectPtr_ofNat hs.layout hlive
  have hfields := hholds.room
  unfold HasFields at hfields
  rw [← haddr] at hroom
  have hbody : ∀ a, a < array.addr + 24 ∨ array.addr + array.bytes ≤ a → m a = s.heap.mem a := by
    intro a ha
    show setObjField s.heap.mem associations tally _ a = _
    rw [← haddr]
    exact store64_of_out _ _ (by unfold objFieldAddr; omega)
  have hsize : objSize m array.addr = objSize s.heap.mem array.addr :=
    load64_congr fun k hk => hbody _ (by omega)
  have harrayTable := hholds.notTable
  have hsame : ∀ e ∈ s.live, e ≠ array → SameBytes s.heap.mem m e :=
    fun e he hne => sameBytes_of_body hs.layout hholds.isLive hbody he hne
  have hdne : d ≠ array := by
    rintro rfl
    exact hholds.notDictionary hd.addr
  have hdSame := hsame d hd.isLive hdne
  have hdRoom := hd.room
  have hfirst : objField m d.addr 0 = objField s.heap.mem d.addr 0 := hdSame.field (by omega)
  have hstored : storedTally m d.addr ≤ tally := by
    rw [storedTally_congr hdSame hdRoom, hd.addr]
    exact hl.stored
  -- the array with one entry more
  have hmore : HoldsAssociations g (spared ∪ making) s.live m (tally + 1) array := by
    refine ⟨hholds.isLive, hfree _ hholds.outside, hholds.notDictionary, harrayTable, ?_, ?_, ?_⟩
    · unfold HasFields
      rw [hsize]
      exact hfields
    · rw [hsize]
      exact hroom
    · intro i hi hptr
      rcases Nat.eq_or_lt_of_le (Nat.le_of_lt_succ hi) with rfl | hlt
      · have hentry : objField m array.addr i = UInt64.ofNat A.addr := by
          show objField (setObjField s.heap.mem associations i _) array.addr i = _
          rw [haddr, objField_setObjField_self]
        rw [hentry, hword]
        refine ⟨A, hlive, ?_, rfl, hbytes, hother array hholds.isLive hholds.outside, ?_, ?_⟩
        · rintro (hin | hin)
          · exact hnew (hs.same A hin).1
          · exact hA hin
        · rw [← hd.addr]
          exact hother d hd.isLive hd.outside
        · intro heq
          rcases eq_or_ne g.symbolTable 0 with hzero | hne
          · have habove := (hs.layout.objects A hlive).above
            have hpage := hs.layout.placed.aboveFirstPage
            unfold pageBytes at hpage
            omega
          · obtain ⟨t, ht, hout, htaddr, -⟩ := hs.roles.table hne
            exact hother t ht hout (heq.trans htaddr.symm)
      · have hentry : objField m array.addr i = objField s.heap.mem array.addr i := by
          show objField (setObjField s.heap.mem associations tally _) array.addr i = _
          rw [haddr, objField_setObjField_of_ne _ _ _ (by omega)]
        rw [hentry] at hptr ⊢
        obtain ⟨e, he, hout, hrest⟩ := hholds.entry i hlt hptr
        exact ⟨e, he, hfree e hout, hrest⟩
  refine ⟨(hs.mono (Set.subset_insert _ _)).edit hholds.isLive
    (fun hin => hholds.outside (.inl hin)) hbody ⟨fun hne => ?_, fun _ => ⟨d, ?_⟩⟩, ?_, ?_, array,
    haddr, hmore⟩
  · obtain ⟨t, ht, hout, htaddr, htroom⟩ := hs.roles.table hne
    refine ⟨t, ht, hfree t hout, htaddr, ?_⟩
    have htne : t ≠ array := fun h => harrayTable (by rw [← h, htaddr])
    unfold HasFields at htroom ⊢
    rw [(hsame t ht htne).size (hs.layout.objects t ht).nonempty]
    exact htroom
  · refine ⟨hd.isLive, hfree d hd.outside, hd.addr, hdRoom, hd.notTable, ?_, ?_⟩
    · rw [hfirst, storedTally_congr hdSame hdRoom]
      exact hd.empty
    · rw [hfirst]
      intro _ _
      refine ⟨array, by rw [hd.addr, hl.field, haddr], hmore.isLive, hmore.outside,
        hmore.notDictionary, hmore.notTable, hmore.room, by have := hmore.counted; omega, ?_⟩
      intro i hi
      exact hmore.entry i (by omega)
  · show (objField m g.smalltalkDictionary 0).toNat = associations
    rw [← hd.addr, hfirst, hd.addr]
    exact hl.field
  · show storedTally m g.smalltalkDictionary ≤ tally + 1
    rw [← hd.addr]
    omega

/-- The tally of the dictionary says how many entries its array holds. -/
theorem Quiet.setTally (hs : Quiet g spared old m₀ making s) (hhas : g.HasDictionary)
    {associations tally : Nat} (hl : Linked g (spared ∪ making) associations tally s) :
    Quiet g spared old m₀ making
      { s with heap := { s.heap with
          mem := setObjField s.heap.mem g.smalltalkDictionary 1 (tagSmallintNat tally) } } := by
  obtain ⟨array, haddr, hholds⟩ := hl.holds
  have hcounted := hholds.counted
  have hroom := hholds.room
  have hbelow := (hs.layout.objects array hholds.isLive).below
  have hplaced := hs.layout.placed
  have hlimit := hplaced.freeLimit
  have hstop := hplaced.limitStop
  have hbound := hplaced.stopBound
  unfold HasFields at hroom
  obtain ⟨htally, hnotNil⟩ := tallyCount_tagged (n := tally) (by omega)
  obtain ⟨d, hd⟩ := hs.roles.dictionary hhas
  have hdRoom := hd.room
  have hbody : ∀ a, a < d.addr + 24 ∨ d.addr + d.bytes ≤ a →
      setObjField s.heap.mem g.smalltalkDictionary 1 (tagSmallintNat tally) a = s.heap.mem a := by
    intro a ha
    rw [← hd.addr]
    exact store64_of_out _ _ (by unfold objFieldAddr; omega)
  have hne : array ≠ d := by
    rintro rfl
    exact hholds.notDictionary hd.addr
  have hkept := hholds.congr Set.Subset.rfl (fun _ _ hin => hin)
    (sameBytes_of_body hs.layout hd.isLive hbody hholds.isLive hne)
  have hstored : storedTally (setObjField s.heap.mem g.smalltalkDictionary 1 (tagSmallintNat tally))
      d.addr = tally := by
    unfold storedTally
    rw [hd.addr, objField_setObjField_self]
    simp only [if_neg hnotNil]
    exact htally
  have hfirst : objField (setObjField s.heap.mem g.smalltalkDictionary 1 (tagSmallintNat tally))
      d.addr 0 = objField s.heap.mem d.addr 0 := by
    rw [hd.addr, objField_setObjField_of_ne _ _ _ (by decide)]
  refine hs.redirect hbody ⟨hd.isLive, hd.outside, hd.addr, hdRoom, hd.notTable, ?_, ?_⟩
  · rw [hfirst]
    intro hnil
    -- a linked array is an object
    have haligned := (hs.layout.objects array hholds.isLive).aligned
    have hfield := hl.field
    rw [← hd.addr, hnil, ← haddr] at hfield
    have hthree : taggedNil.toNat = 3 := rfl
    omega
  · rw [hfirst, hstored]
    intro _ _
    exact ⟨array, by rw [hd.addr, hl.field, haddr], hkept⟩

end Dictionary

/-! ## §5. Literals and code. -/

section Materialize

variable {env : InstallEnv} {spared old making : Set Extent} {m₀ : Mem}

/-- A new association, linked. -/
theorem quiet_addAssociation (hhas : env.globals.HasDictionary) (array tally : Nat)
    (key value : Oop) :
    Triple
      (fun s => Quiet env.globals spared old m₀ making s ∧
        Linked env.globals (spared ∪ making) array tally s ∧
        tally < (objSize s.heap.mem array).toNat)
      (do
        let association ← alloc (UInt64.ofNat env.associationClass) formatFields 2
        storeField association 0 key
        storeField association 1 value
        storeField array tally (UInt64.ofNat association)
        storeField env.globals.smalltalkDictionary 1 (tagSmallintNat (tally + 1))
        return UInt64.ofNat association)
      (fun _ => Quiet env.globals spared old m₀ making)
      (Quiet env.globals spared old m₀ making) := by
  refine Triple.bind (quiet_allocNew
    (F := fun making t => Linked env.globals (spared ∪ making) array tally t ∧
      tally < (objSize t.heap.mem array).toNat) ?_ _ formatFields 2) fun association => ?_
  · rintro s h A hs ⟨hl, hroom⟩ hfresh hsame
    refine ⟨hl.alloc hs hhas hfresh hsame, ?_⟩
    obtain ⟨array, rfl, hholds⟩ := hl.holds
    show tally < (objSize h.mem array.addr).toNat
    rw [(hsame array hholds.isLive).size (hs.layout.objects array hholds.isLive).nonempty]
    exact hroom
  -- key and value go into an object in the making
  have hstore : ∀ index value, index < 2 →
      Triple (fun s => Quiet env.globals spared old m₀
          (insert (madeAt association formatFields 2) making) s ∧
          (Linked env.globals (spared ∪ insert (madeAt association formatFields 2) making) array
            tally s ∧ tally < (objSize s.heap.mem array).toNat) ∧
          madeAt association formatFields 2 ∉ making)
        (storeField association index value)
        (fun _ s => Quiet env.globals spared old m₀
          (insert (madeAt association formatFields 2) making) s ∧
          (Linked env.globals (spared ∪ insert (madeAt association formatFields 2) making) array
            tally s ∧ tally < (objSize s.heap.mem array).toNat) ∧
          madeAt association formatFields 2 ∉ making)
        (Quiet env.globals spared old m₀ making) := by
    intro index value hindex
    refine Triple.modify fun s hs => ?_
    obtain ⟨hs, ⟨hl, hroom⟩, hnew⟩ := hs
    have hmade := Set.mem_insert (madeAt association formatFields 2) making
    have hlive := (hs.new _ hmade).1
    have hbody : ∀ a, a < association + 24 ∨ association + 8 * (3 + 2) ≤ a →
        setObjField s.heap.mem association index value a = s.heap.mem a :=
      fun a ha => store64_of_out _ _ (by unfold objFieldAddr; omega)
    have hother : ∀ e ∈ s.live, e ∉ spared ∪ insert (madeAt association formatFields 2) making →
        SameBytes s.heap.mem (setObjField s.heap.mem association index value) e :=
      fun e he hout => sameBytes_of_body hs.layout hlive hbody he
        fun heq => hout (.inr (heq ▸ hmade))
    obtain ⟨d, hd⟩ := hs.roles.dictionary hhas
    refine ⟨hs.make hmade hbody, ⟨hl.congr Set.Subset.rfl (fun _ _ hin => hin) hd hother, ?_⟩, hnew⟩
    obtain ⟨array, rfl, hholds⟩ := hl.holds
    show tally < (objSize (setObjField _ _ _ _) array.addr).toNat
    rw [(hother array hholds.isLive hholds.outside).size
      (hs.layout.objects array hholds.isLive).nonempty]
    exact hroom
  refine Triple.bind ((hstore 0 key (by decide)).imp (fun s hs => ⟨hs.1.1, hs.1.2, hs.2.1⟩)
    (fun _ _ h => h) fun _ h => h) fun _ => ?_
  refine Triple.bind (hstore 1 value (by decide)) fun _ => ?_
  refine Triple.bind (Q := fun _ s => Quiet env.globals spared old m₀ making s ∧
      Linked env.globals (spared ∪ making) array (tally + 1) s)
    (Triple.modify fun s hs => ?_) fun _ => ?_
  · obtain ⟨hs, ⟨hl, hroom⟩, hnew⟩ := hs
    exact hs.linkEntry hhas hnew (show 40 ≤ 8 * (3 + 2) by decide) hl hroom
  refine Triple.bind (Q := fun _ => Quiet env.globals spared old m₀ making)
    (Triple.modify fun s hs => ?_) fun _ => Keeps.pure _
  exact hs.1.setTally hhas hs.2

theorem quiet_globalAssociation (name : CString) (value : Oop) :
    Keeps (Quiet env.globals spared old m₀ making) (globalAssociation env name value) := by
  unfold globalAssociation
  refine Triple.require_bind (fun _ hs => hs) fun hchecks => ?_
  have hhas : env.globals.HasDictionary := by
    simp only [Bool.and_eq_true, decide_eq_true_eq] at hchecks
    exact hchecks.1.1
  refine Triple.bind (quiet_internCString env name) fun key => ?_
  refine Triple.get_bind_at fun s hs => ?_
  refine Triple.bind ((quiet_ensureAssociations env hhas
    (storedTally s.heap.mem env.globals.smalltalkDictionary)).imp
    (fun t ht => ⟨ht ▸ hs, ht ▸ rfl⟩) (fun _ _ h => h) fun _ h => h) fun associations => ?_
  refine Triple.require_bind (fun _ h => h.1) fun hptr => ?_
  refine Triple.get_bind_at fun s' hs' => ?_
  obtain ⟨hs', hlinked⟩ := hs'
  replace hlinked := hlinked hptr
  split
  next association hfound =>
    -- the value of the one that is there
    refine Triple.bind (Q := fun _ => Quiet env.globals spared old m₀ making)
      (Triple.modify fun t ht => ?_) fun _ => Keeps.pure _
    rw [ht]
    exact hs'.setValue hlinked hfound value
  next =>
    -- a new association
    refine Triple.bind ((quiet_growAssociations env hhas _
      (storedTally s.heap.mem env.globals.smalltalkDictionary)).imp
      (fun t ht => ⟨ht ▸ hs', ht ▸ hlinked⟩) (fun _ _ h => h) fun _ h => h) fun array => ?_
    exact quiet_addAssociation hhas _ _ _ _

theorem quiet_bcGlobalAssociationOop (name : List Char) (value : Oop) :
    Keeps (Quiet env.globals spared old m₀ making) (bcGlobalAssociationOop env name value) :=
  quiet_globalAssociation _ value

theorem quiet_bcLiteralTokenToOop (token : BToken) :
    Keeps (Quiet env.globals spared old m₀ making) (bcLiteralTokenToOop env token) := by
  unfold bcLiteralTokenToOop
  split
  · exact Keeps.pure _
  · exact Keeps.pure _
  · exact Triple.bind (Keeps.require _) fun _ => quiet_bcMakeByteString env _
  · exact quiet_internSymbol env _
  · exact quiet_internSymbol env _
  · refine Triple.get_bind fun s hs => ?_
    exact Triple.bind (Keeps.require _) fun _ => quiet_bcGlobalAssociationOop _ _
  · split_ifs
    · exact Keeps.pure _
    · exact Keeps.pure _
    · exact Keeps.pure _
    · exact Keeps.reject
  · exact Keeps.reject

/-- Literals stored into an array in the making. -/
theorem quiet_storeLiterals {toOop : BToken → Mat Oop} {array : Extent} (hA : array ∈ making)
    (htoOop : ∀ token, Keeps (Quiet env.globals spared old m₀ making) (toOop token))
    (tokens : List BToken) (index : Nat)
    (hroom : 24 + 8 * (index + tokens.length) ≤ array.bytes) :
    Keeps (Quiet env.globals spared old m₀ making)
      (storeLiterals toOop array.addr index tokens) := by
  induction tokens generalizing index with
  | nil => exact Keeps.pure _
  | cons token rest ih =>
    rw [List.length_cons] at hroom
    refine Triple.bind (htoOop token) fun literal => ?_
    refine Triple.bind (quiet_storeField hA (by omega) literal) fun _ => ?_
    exact ih (index + 1) (by omega)

theorem quiet_storeValues {object : Extent} (hobject : object ∈ making) (values : List Oop)
    (index : Nat) (hroom : 24 + 8 * (index + values.length) ≤ object.bytes) :
    Keeps (Quiet env.globals spared old m₀ making) (storeValues object.addr index values) := by
  induction values generalizing index with
  | nil => exact Keeps.pure _
  | cons value rest ih =>
    rw [List.length_cons] at hroom
    refine Triple.bind (quiet_storeField hobject (by omega) value) fun _ => ?_
    exact ih (index + 1) (by omega)

theorem quiet_bcMaterializeLiteralArrayOop (fuel : Nat) (source : List Char) :
    Keeps (Quiet env.globals spared old m₀ making) (bcMaterializeLiteralArrayOop env fuel source) := by
  induction fuel generalizing making source with
  | zero => exact Triple.outOfFuel
  | succ fuel ih =>
    unfold bcMaterializeLiteralArrayOop
    split
    · exact Keeps.reject
    next items _ =>
      refine Triple.bind (quiet_alloc _ _ _) fun array => ?_
      refine Triple.bind (Triple.finish (Set.subset_insert _ _)
        (quiet_storeLiterals (Set.mem_insert (madeAt array formatIndexable items.length) _) ?_ items
          0 ?_)) fun _ => Keeps.pure _
      · intro token
        split_ifs
        · exact ih _
        · exact quiet_bcLiteralTokenToOop token
      · show 24 + 8 * (0 + items.length) ≤ 8 * (3 + items.length)
        omega

theorem quiet_bcBuildBlockLiteralArray {materialize : CompiledBlock → Mat Oop}
    (h : ∀ making inner, Keeps (Quiet env.globals spared old m₀ making) (materialize inner))
    (blocks : List CompiledBlock) (block : CompiledBlock) :
    Keeps (Quiet env.globals spared old m₀ making)
      (bcBuildBlockLiteralArray env materialize blocks block) := by
  unfold bcBuildBlockLiteralArray
  split_ifs
  · exact Keeps.pure _
  refine Triple.bind (quiet_alloc _ _ _) fun array => ?_
  refine Triple.bind (Triple.finish (Set.subset_insert _ _)
    (quiet_storeLiterals
      (Set.mem_insert (madeAt array formatIndexable block.literals.length) _) ?_ block.literals
      0 ?_)) fun _ => Keeps.pure _
  · intro token
    split_ifs
    · exact Keeps.reject
    · split
      · exact Keeps.reject
      · exact h _ _
    · exact quiet_bcLiteralTokenToOop token
  · show 24 + 8 * (0 + block.literals.length) ≤ 8 * (3 + block.literals.length)
    omega

theorem quiet_bcMaterializeCompiledBlock (blocks : List CompiledBlock) (fuel : Nat)
    (block : CompiledBlock) :
    Keeps (Quiet env.globals spared old m₀ making)
      (bcMaterializeCompiledBlock env blocks fuel block) := by
  induction fuel generalizing making block with
  | zero => exact Triple.outOfFuel
  | succ fuel ih =>
    unfold bcMaterializeCompiledBlock
    refine Triple.bind (quiet_bcBuildBlockLiteralArray (fun _ inner => ih inner) _ _)
      fun literals => ?_
    refine Triple.bind (quiet_alloc _ _ _) fun bytecodes => ?_
    refine Triple.bind (Triple.finish (Set.subset_insert _ _)
      (quiet_storeBytes (Set.mem_insert (madeAt bytecodes formatBytes _) _) ?_)) fun _ => ?_
    · unfold madeAt bodyWords
      simp only [if_pos]
      omega
    refine Triple.bind (quiet_alloc _ _ _) fun compiledMethod => ?_
    refine Triple.bind (Triple.finish (Set.subset_insert _ _)
      (quiet_storeValues (Set.mem_insert (madeAt compiledMethod formatFields 6) _) _ 0 ?_))
      fun _ => Keeps.pure _
    exact Nat.le_refl _

theorem quiet_methodLiteral (body : CompiledBody) (token : BToken) :
    Keeps (Quiet env.globals spared old m₀ making) (methodLiteral env body token) := by
  unfold methodLiteral
  split_ifs
  · exact Keeps.reject
  · split
    · exact Keeps.reject
    · exact quiet_bcMaterializeCompiledBlock _ _ _
  · exact Triple.bind (Keeps.require _) fun _ => quiet_bcMaterializeLiteralArrayOop _ _
  · exact quiet_bcLiteralTokenToOop token

theorem quiet_bcBuildLiteralArray (body : CompiledBody) :
    Keeps (Quiet env.globals spared old m₀ making) (bcBuildLiteralArray env body) := by
  unfold bcBuildLiteralArray
  split
  · exact Keeps.pure _
  next token rest _ =>
    refine Triple.bind (quiet_tryAlloc _ _ _ _) fun result => ?_
    cases result with
    | none => exact Triple.bind (quiet_methodLiteral body _) fun _ => Keeps.pure _
    | some array =>
      refine Triple.bind (Triple.finish (Set.subset_insert _ _)
        (quiet_storeLiterals (Set.mem_insert (madeAt array formatIndexable (rest.length + 1)) _)
          (quiet_methodLiteral body) (token :: rest) 0 ?_)) fun _ => Keeps.pure _
      rw [List.length_cons]
      show 24 + 8 * (0 + (rest.length + 1)) ≤ 8 * (3 + (rest.length + 1))
      omega

theorem quiet_methodSourceString (methodSource : List Char) :
    Keeps (Quiet env.globals spared old m₀ making) (methodSourceString env methodSource) := by
  unfold methodSourceString
  split_ifs
  · exact Keeps.pure _
  · exact quiet_bcMakeByteString env _

/-- The address of an object in the making is not 0. -/
theorem Quiet.made_ne_zero {g : Globals} {s : Arena} (hs : Quiet g spared old m₀ making s)
    {e : Extent} (he : e ∈ making) : UInt64.ofNat e.addr ≠ 0 := by
  have hlive := (hs.new e he).1
  have habove := (hs.layout.objects e hlive).above
  have hfirst := hs.layout.placed.aboveFirstPage
  have hword := (isObjectPtr_ofNat hs.layout hlive).1
  unfold pageBytes at hfirst
  intro hzero
  rw [hzero] at hword
  simp only [UInt64.toNat_zero] at hword
  omega

theorem quiet_finishMethod (method : BCompiledMethodDef) (literals source : Oop) :
    Triple (Quiet env.globals spared old m₀ making) (finishMethod env method literals source)
      (fun result s => Quiet env.globals spared old m₀ making s ∧
        ∀ compiledMethod, result = some compiledMethod → compiledMethod ≠ 0)
      (Quiet env.globals spared old m₀ making) := by
  have hnone : Triple (Quiet env.globals spared old m₀ making) (pure none : Mat (Option Oop))
      (fun result s => Quiet env.globals spared old m₀ making s ∧
        ∀ compiledMethod, result = some compiledMethod → compiledMethod ≠ 0)
      (Quiet env.globals spared old m₀ making) := by
    refine Triple.pure fun s hs => ⟨hs, fun _ h => ?_⟩
    cases h
  unfold finishMethod
  refine Triple.bind (quiet_tryAlloc _ _ _ _) fun result => ?_
  cases result with
  | none => exact hnone
  | some bytecodes =>
    refine Triple.bind (Triple.finish (Set.subset_insert _ _)
      (quiet_storeBytes (Set.mem_insert (madeAt bytecodes formatBytes _) _) ?_)) fun _ => ?_
    · unfold madeAt bodyWords
      simp only [if_pos]
      omega
    refine Triple.bind (quiet_tryAlloc _ _ _ _) fun result => ?_
    cases result with
    | none => exact hnone
    | some compiledMethod =>
      have hmade := Set.mem_insert (madeAt compiledMethod formatFields 6) making
      refine Triple.bind ((quiet_storeValues hmade _ 0 ?_).imp (fun _ hs => hs) (fun _ _ hs => hs)
        fun _ hs => hs.mono (Set.subset_insert _ _)) fun _ => ?_
      · exact Nat.le_refl _
      refine Triple.pure fun s hs => ⟨hs.mono (Set.subset_insert _ _), fun v hv => ?_⟩
      obtain rfl := Option.some.inj hv
      exact hs.made_ne_zero hmade

/-- **Making a method spares** what is not the symbol table or the Smalltalk dictionary;
a method that is made is an object. -/
theorem quiet_bcMaterializeCompiledMethod (method : BCompiledMethodDef) :
    Triple (Quiet env.globals spared old m₀ making) (bcMaterializeCompiledMethod env method)
      (fun result s => Quiet env.globals spared old m₀ making s ∧
        ∀ compiledMethod, result = some compiledMethod → compiledMethod ≠ 0)
      (Quiet env.globals spared old m₀ making) := by
  unfold bcMaterializeCompiledMethod
  refine Triple.bind (quiet_bcBuildLiteralArray _) fun literals => ?_
  cases literals with
  | none =>
    refine Triple.pure fun s hs => ⟨hs, fun _ h => ?_⟩
    cases h
  | some literals =>
    exact Triple.bind (quiet_methodSourceString _) fun _ => quiet_finishMethod _ _ _

end Materialize

end LivingObjects.Classes
