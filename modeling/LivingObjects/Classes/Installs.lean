/-
  LivingObjects.Classes.Installs — runs of method installations.

  `bc_install_compiled_methods` and `bc_compile_and_install_source_methods` make, for
  one method after the other, the selector and the compiled method and then append both
  to the dictionary of the target class.  What they do before the append are
  allocations and stores into objects that are neither classes nor dictionaries, so a
  run is a sequence of such allocations, stores and appends.

  The new entry goes to the end of the dictionary and the lookup takes the first one:
  `installs_found_iff` says that every lookup finds the most recent method exactly as
  long as no class gets a second method for a selector.
-/
import LivingObjects.Classes.MethodDict
import LivingObjects.ObjectMemory.Apart

namespace LivingObjects.Classes

open LivingObjects.Lib
open LivingObjects.VM
open LivingObjects.ObjectMemory

/-! ## §1. Runs. -/

/-- A heap with a class hierarchy, and the methods installed so far in each class in
the order of their installation. -/
structure Image where
  arena : Arena
  methods : Nat → List (Oop × Oop)

/-- What an installer does to the heap. -/
inductive InstallEvent where
  | alloc (req : AllocRequest)
  /-- Stores into the body of an object. -/
  | store (object : Extent) (m : Mem)
  /-- `bc_append_method_dict`. -/
  | install (classClass : Oop) (klass : Nat) (selector method : Oop)

/-- One event; an append whose allocation fails goes no further. -/
def Image.step (s : Image) : InstallEvent → Image
  | .alloc req => { s with arena := s.arena.step (.alloc req) }
  | .store _ m => { s with arena := { s.arena with heap := { s.arena.heap with mem := m } } }
  | .install classClass klass selector method =>
    match bcAppendMethodDict s.arena.heap classClass klass selector method with
    | none => s
    | some (newMd, heap) =>
      { arena :=
          { heap := heap
            live := insert
              ⟨newMd, 8 * (3 + ((oldSize s.arena.heap.mem klass).toNat + 2))⟩ s.arena.live }
        methods := Function.update s.methods klass (s.methods klass ++ [(selector, method)]) }

/-- The objects an installer does not store into: the classes of the hierarchy and
their dictionaries. -/
def Kept (m : Mem) (classes : Set Nat) (e : Extent) : Prop :=
  e.addr ∈ classes ∨ ∃ c ∈ classes, (objField m c classMethodDict).toNat = e.addr

/-- The events of the installers: a store is into the body of another object, and an
append gets a class of the hierarchy and a compiled method that is not installed yet,
and returns. -/
def InstallEvent.Legal (classes : Set Nat) (s : Image) : InstallEvent → Prop
  | .alloc _ => True
  | .store object m => object ∈ s.arena.live ∧ ¬ Kept s.arena.heap.mem classes object ∧
      ∀ a, a < object.addr + 24 ∨ object.addr + object.bytes ≤ a → m a = s.arena.heap.mem a
  | .install classClass klass selector method => klass ∈ classes ∧ method ≠ 0 ∧
      (∀ p ∈ s.methods klass, p.2 ≠ method) ∧
      (bcAppendMethodDict s.arena.heap classClass klass selector method).isSome = true

/-- The class has no method for the selector yet. -/
def InstallEvent.Fresh (s : Image) : InstallEvent → Prop
  | .install _ klass selector _ => ∀ p ∈ s.methods klass, p.1 ≠ selector
  | _ => True

/-! ## §2. What lookups should find. -/

/-- The most recent method for the selector. -/
def latest (entries : List (Oop × Oop)) (selector : Oop) : Option Oop :=
  firstEntry entries.reverse selector

/-- The most recent method for the selector in the nearest class that has one, 0 when
none has. -/
def nearestLatest (methods : Nat → List (Oop × Oop)) (selector : Oop) : List Nat → Oop
  | [] => 0
  | klass :: rest => (latest (methods klass) selector).getD (nearestLatest methods selector rest)

/-- Every lookup from a class of the hierarchy finds that method. -/
def Image.Found (classes : Set Nat) (s : Image) : Prop :=
  ∀ klass : Oop, klass.toNat ∈ classes → ∀ chain, Ancestors s.arena.heap.mem klass chain →
    ∀ selector fuel, chain.length < fuel →
      classLookup s.arena.heap.mem selector fuel klass
        = some (nearestLatest s.methods selector chain)

/-! ## §3. The hierarchy in the heap. -/

/-- The heap holds the classes with the methods installed in them. -/
structure Image.Inv (classes : Set Nat) (s : Image) : Prop where
  layout : Layout s.arena.heap s.arena.live
  klass : ∀ c ∈ classes, ∃ e ∈ s.arena.live, e.addr = c ∧ 40 ≤ e.bytes
  /-- The superclasses lead up to the end through classes of the hierarchy. -/
  ancestors : ∀ klass : Oop, klass.toNat ∈ classes → ∃ chain,
    Ancestors s.arena.heap.mem klass chain ∧ ∀ c ∈ chain, c ∈ classes
  methods : ∀ c ∈ classes, HasMethods s.arena.heap.mem c (s.methods c)
  dict : ∀ c ∈ classes, objField s.arena.heap.mem c classMethodDict ≠ taggedNil →
    ∃ e ∈ s.arena.live, (objField s.arena.heap.mem c classMethodDict).toNat = e.addr ∧
      e.addr ∉ classes ∧ e.bytes = 8 * (3 + 2 * (s.methods c).length)
  nonzero : ∀ c ∈ classes, ∀ p ∈ s.methods c, p.2 ≠ 0

theorem DictAt.congr {m m' : Mem} {e : Extent} {entries : List (Oop × Oop)}
    (hd : DictAt m e.addr entries) (h : SameBytes m m' e)
    (hbytes : 24 + 16 * entries.length ≤ e.bytes) : DictAt m' e.addr entries := by
  refine ⟨by rw [h.size (by omega), hd.size], fun i hi => ?_⟩
  rw [h.field (by omega), h.field (by omega)]
  exact hd.entry i hi

theorem Ancestors.congr {m m' : Mem} {klass : Oop} {chain : List Nat} (h : Ancestors m klass chain)
    (hsame : ∀ c ∈ chain, objField m' c classSuperclass = objField m c classSuperclass) :
    Ancestors m' klass chain := by
  induction h with
  | none hend => exact .none hend
  | some hne _ ih =>
    refine .some hne ?_
    rw [hsame _ List.mem_cons_self]
    exact ih fun c hc => hsame c (List.mem_cons_of_mem _ hc)

/-- The ancestors of a class are determined by the heap. -/
theorem Ancestors.unique {m : Mem} {klass : Oop} {chain chain' : List Nat}
    (h : Ancestors m klass chain) (h' : Ancestors m klass chain') : chain = chain' := by
  induction h generalizing chain' with
  | none hend =>
    cases h' with
    | none _ => rfl
    | some hne _ => exact absurd hend hne
  | some hne _ ih =>
    cases h' with
    | none hend => exact absurd hend hne
    | some _ hrest => rw [ih hrest]

section Frame

variable {classes : Set Nat} {s : Image}

/-- **Frame.**  A heap in which the classes and their dictionaries have the same bytes
holds the same hierarchy. -/
theorem Image.Inv.frame (hs : s.Inv classes) {heap : Heap} {live : Set Extent}
    (hl : Layout heap live) (hlive : s.arena.live ⊆ live)
    (hsame : ∀ e ∈ s.arena.live, Kept s.arena.heap.mem classes e →
      SameBytes s.arena.heap.mem heap.mem e) :
    (Image.mk ⟨heap, live⟩ s.methods).Inv classes := by
  have hfield : ∀ c ∈ classes, ∀ i, i < 2 →
      objField heap.mem c i = objField s.arena.heap.mem c i := by
    intro c hc i hi
    obtain ⟨e, he, rfl, hroom⟩ := hs.klass c hc
    exact (hsame e he (.inl hc)).field (by omega)
  have hdict : ∀ c ∈ classes,
      objField heap.mem c classMethodDict = objField s.arena.heap.mem c classMethodDict :=
    fun c hc => hfield c hc 1 (by omega)
  refine ⟨hl, fun c hc => ?_, fun klass hk => ?_, fun c hc => ?_, fun c hc => ?_, hs.nonzero⟩
  · obtain ⟨e, he, haddr, hroom⟩ := hs.klass c hc
    exact ⟨e, hlive he, haddr, hroom⟩
  · obtain ⟨chain, hchain, hall⟩ := hs.ancestors klass hk
    exact ⟨chain, hchain.congr fun c hc => hfield c (hall c hc) 0 (by omega), hall⟩
  · rcases hs.methods c hc with ⟨hnil, hempty⟩ | ⟨hne, hat⟩
    · exact .inl ⟨(hdict c hc).trans hnil, hempty⟩
    · obtain ⟨e, he, haddr, -, hbytes⟩ := hs.dict c hc hne
      refine .inr ⟨by rw [hdict c hc]; exact hne, ?_⟩
      rw [hdict c hc, haddr]
      rw [haddr] at hat
      have hroom : 24 + 16 * (s.methods c).length ≤ e.bytes := by omega
      exact hat.congr (hsame e he (.inr ⟨c, hc, haddr⟩)) hroom
  · show objField heap.mem c classMethodDict ≠ taggedNil → _
    rw [hdict c hc]
    intro hne
    obtain ⟨e, he, haddr, hout, hbytes⟩ := hs.dict c hc hne
    exact ⟨e, hlive he, haddr, hout, hbytes⟩

/-- The size of the dictionary a class has. -/
theorem Image.Inv.oldSize_eq (hs : s.Inv classes) {c : Nat} (hc : c ∈ classes) :
    (oldSize s.arena.heap.mem c).toNat = 2 * (s.methods c).length := by
  unfold oldSize
  simp only
  rcases hs.methods c hc with ⟨hnil, hempty⟩ | ⟨hne, hat⟩
  · rw [if_neg (fun h => h.1 hnil), hempty]
    rfl
  · obtain ⟨e, he, haddr, -, -⟩ := hs.dict c hc hne
    have halign := (hs.layout.objects e he).aligned
    have habove := (hs.layout.objects e he).above
    have hfirst := hs.layout.placed.aboveFirstPage
    unfold pageBytes at hfirst
    have hptr : isObjectPtr (objField s.arena.heap.mem c classMethodDict) = true := by
      rw [isObjectPtr_iff, haddr]
      omega
    have hzero : objField s.arena.heap.mem c classMethodDict ≠ 0 := by
      intro hzero
      rw [hzero] at haddr
      simp only [UInt64.toNat_zero] at haddr
      omega
    rw [if_pos ⟨hne, hptr, hzero⟩]
    exact hat.size

end Frame

/-! ## §4. The append. -/

/-- What `bc_append_method_dict` does when it returns. -/
theorem bcAppendMethodDict_some {h heap : Heap} {classClass selector method : Oop}
    {klass newMd : Nat}
    (happend : bcAppendMethodDict h classClass klass selector method = some (newMd, heap)) :
    ∃ hfits h', omAlloc h (indexableRequest classClass (oldSize h.mem klass + 2) hfits)
        = some (newMd, h') ∧ heap.om = h'.om ∧
      heap.mem = setObjField (setObjField (setObjField
        (copyFields h'.mem (objField h.mem klass classMethodDict).toNat newMd
          (oldSize h.mem klass).toNat)
        newMd (oldSize h.mem klass).toNat selector)
        newMd ((oldSize h.mem klass).toNat + 1) method)
        klass classMethodDict (UInt64.ofNat newMd) := by
  unfold bcAppendMethodDict at happend
  simp only at happend
  split at happend
  case isFalse => cases happend
  next hfits =>
  split at happend
  · cases happend
  next newMd' h' halloc =>
  simp only [Option.some.injEq, Prod.mk.injEq] at happend
  obtain ⟨rfl, rfl⟩ := happend
  exact ⟨hfits, h', halloc, rfl, rfl⟩

/-- The entries copied and the new pair behind them. -/
theorem dictAt_append {m : Mem} {src dst : Nat} {entries : List (Oop × Oop)}
    (hold : entries = [] ∨ DictAt m src entries)
    (hsize : (objSize m dst).toNat = 2 * (entries.length + 1))
    (hapart : objFieldAddr src (2 * entries.length) ≤ objFieldAddr dst 0 ∨
      objFieldAddr dst (2 * entries.length + 2) ≤ objFieldAddr src 0) (selector method : Oop) :
    DictAt (setObjField (setObjField (copyFields m src dst (2 * entries.length))
        dst (2 * entries.length) selector) dst (2 * entries.length + 1) method)
      dst (entries ++ [(selector, method)]) ∧
    ∀ a, a < objFieldAddr dst 0 ∨ objFieldAddr dst (2 * entries.length + 2) ≤ a →
      setObjField (setObjField (copyFields m src dst (2 * entries.length))
        dst (2 * entries.length) selector) dst (2 * entries.length + 1) method a = m a := by
  obtain ⟨hcopied, hother⟩ := copyFields_spec m src dst (2 * entries.length)
    (by unfold objFieldAddr at *; omega)
  have hout : ∀ a, a < objFieldAddr dst 0 ∨ objFieldAddr dst (2 * entries.length + 2) ≤ a →
      setObjField (setObjField (copyFields m src dst (2 * entries.length))
        dst (2 * entries.length) selector) dst (2 * entries.length + 1) method a = m a := by
    intro a ha
    unfold objFieldAddr at ha
    rw [setObjField, store64_of_out _ _ (by unfold objFieldAddr; omega), setObjField,
      store64_of_out _ _ (by unfold objFieldAddr; omega)]
    exact hother a (by unfold objFieldAddr; omega)
  refine ⟨⟨?_, fun i hi => ?_⟩, hout⟩
  · have hsame : objSize (setObjField (setObjField (copyFields m src dst (2 * entries.length))
        dst (2 * entries.length) selector) dst (2 * entries.length + 1) method) dst
        = objSize m dst :=
      load64_congr fun k hk => hout _ (by unfold objFieldAddr; omega)
    rw [hsame, hsize, List.length_append, List.length_singleton]
  · rw [List.length_append, List.length_singleton] at hi
    rcases Nat.lt_or_ge i entries.length with hlt | hge
    · -- an old entry
      have hat : DictAt m src entries := by
        rcases hold with rfl | hat
        · exact absurd hlt (Nat.not_lt_zero i)
        · exact hat
      rw [List.getElem_append_left hlt,
        objField_setObjField_of_ne _ _ _ (by omega), objField_setObjField_of_ne _ _ _ (by omega),
        objField_setObjField_of_ne _ _ _ (by omega), objField_setObjField_of_ne _ _ _ (by omega),
        hcopied _ (by omega), hcopied _ (by omega)]
      exact hat.entry i hlt
    · -- the new one
      obtain rfl : i = entries.length := by omega
      rw [List.getElem_append_right hge, objField_setObjField_of_ne _ _ _ (by omega),
        objField_setObjField_self, objField_setObjField_self]
      simp

section Append

variable {classes : Set Nat} {s : Image} {classClass selector method : Oop} {klass newMd : Nat}
  {heap : Heap}

/-- What `bc_append_method_dict` leaves behind. -/
structure Appended (s : Image) (klass : Nat) (selector method : Oop) (newMd : Nat) (heap : Heap)
    (live : Set Extent) : Prop where
  layout : Layout heap live
  /-- The new dictionary is a new object. -/
  fresh : ∀ e ∈ s.arena.live, e.addr ≠ newMd
  field : (objField heap.mem klass classMethodDict).toNat = newMd
  dict : DictAt heap.mem newMd (s.methods klass ++ [(selector, method)])
  /-- But for the dictionary field of the class, the other objects are as they were. -/
  same : ∀ e ∈ s.arena.live, ∀ a, e.Holds a →
    a < objFieldAddr klass classMethodDict ∨ objFieldAddr klass classMethodDict + 8 ≤ a →
    heap.mem a = s.arena.heap.mem a

/-- The dictionary of a class lies in the heap. -/
theorem Image.Inv.oldSize_lt (hs : s.Inv classes) (hk : klass ∈ classes) :
    24 + 16 * (s.methods klass).length < 2 ^ 63 := by
  rcases hs.methods klass hk with ⟨-, hempty⟩ | ⟨hne, -⟩
  · rw [hempty]
    decide
  · obtain ⟨e, he, -, -, hbytes⟩ := hs.dict klass hk hne
    have habove := (hs.layout.objects e he).above
    have hbelow := (hs.layout.objects e he).below
    have hplaced := hs.layout.placed
    have hfirst := hplaced.aboveFirstPage
    have hfree := hplaced.freeLimit
    have hstop := hplaced.limitStop
    have hbound := hplaced.stopBound
    unfold pageBytes at hfirst
    omega

theorem Image.Inv.append (hs : s.Inv classes) (hk : klass ∈ classes)
    (happend : bcAppendMethodDict s.arena.heap classClass klass selector method
      = some (newMd, heap)) :
    Appended s klass selector method newMd heap
      (insert ⟨newMd, 8 * (3 + ((oldSize s.arena.heap.mem klass).toNat + 2))⟩ s.arena.live) := by
  have hold := hs.oldSize_eq hk
  have hlt := hs.oldSize_lt hk
  obtain ⟨hfits, h', halloc, hom, hmem⟩ := bcAppendMethodDict_some happend
  have hsum : (oldSize s.arena.heap.mem klass + 2).toNat
      = (oldSize s.arena.heap.mem klass).toNat + 2 := by
    rw [UInt64.toNat_add]
    show ((oldSize s.arena.heap.mem klass).toNat + 2) % 2 ^ 64 = _
    omega
  have htotal : (indexableRequest classClass (oldSize s.arena.heap.mem klass + 2) hfits).totalBytes
      = 8 * (3 + ((oldSize s.arena.heap.mem klass).toNat + 2)) := by
    unfold AllocRequest.totalBytes
    show 8 * (3 + (oldSize s.arena.heap.mem klass + 2).toNat) = _
    rw [hsum]
  obtain ⟨hlayout, hunused, -, -⟩ := omAlloc_layout hs.layout halloc
  obtain ⟨-, hwritten, -⟩ := omAlloc_scan halloc
  rw [htotal] at hlayout hunused
  rw [hold] at hlayout hunused htotal hmem ⊢
  have hside : ∀ e ∈ s.arena.live, e.addr + e.bytes ≤ newMd ∨
      newMd + 8 * (3 + (2 * (s.methods klass).length + 2)) ≤ e.addr :=
    fun e he => below_or_above hs.layout (by omega) hunused he
  have hnewSize : (objSize h'.mem newMd).toNat = 2 * ((s.methods klass).length + 1) := by
    rw [hwritten, objSize_writeObject]
    show (oldSize s.arena.heap.mem klass + 2).toNat = _
    omega
  have hlive := hs.layout.placed
  have hfirst := hlive.aboveFirstPage
  unfold pageBytes at hfirst
  obtain ⟨halign, hlo, hhi, -⟩ := omAlloc_place hs.layout.placed halloc
  have hstop := hlive.limitStop
  have hbound := hlive.stopBound
  -- the old dictionary is still there, apart from the new one
  have hsrc : (s.methods klass = [] ∨
        DictAt h'.mem (objField s.arena.heap.mem klass classMethodDict).toNat (s.methods klass)) ∧
      (objFieldAddr (objField s.arena.heap.mem klass classMethodDict).toNat
          (2 * (s.methods klass).length) ≤ objFieldAddr newMd 0 ∨
        objFieldAddr newMd (2 * (s.methods klass).length + 2)
          ≤ objFieldAddr (objField s.arena.heap.mem klass classMethodDict).toNat 0) := by
    unfold objFieldAddr
    rcases hs.methods klass hk with ⟨hnil, hempty⟩ | ⟨hne, hat⟩
    · refine ⟨.inl hempty, .inl ?_⟩
      rw [hnil, hempty]
      show 3 + 24 + 8 * (2 * 0) ≤ _
      omega
    · obtain ⟨e, he, haddr, -, hbytes⟩ := hs.dict klass hk hne
      have hapart := hside e he
      rw [haddr] at hat ⊢
      refine ⟨.inr (DictAt.congr (e := e) hat ?_ (by omega)), by omega⟩
      intro a hh
      rw [hwritten]
      exact writeObject_of_out _ _ _ (by rw [htotal]; unfold Extent.Holds at hh; omega)
  obtain ⟨hdict, hother⟩ := dictAt_append hsrc.1 hnewSize hsrc.2 selector method
  obtain ⟨k, hkLive, rfl, hroom⟩ := hs.klass klass hk
  have hkSide := hside k hkLive
  have hfieldOut : ∀ a, a < objFieldAddr k.addr classMethodDict ∨
      objFieldAddr k.addr classMethodDict + 8 ≤ a →
      a < objFieldAddr newMd 0 ∨ objFieldAddr newMd (2 * (s.methods k.addr).length + 2) ≤ a →
      heap.mem a = h'.mem a := by
    intro a ha hb
    rw [hmem, setObjField, store64_of_out _ _ ha]
    exact hother a hb
  unfold classMethodDict objFieldAddr at hfieldOut
  refine ⟨?_, fun e he => ?_, ?_, ?_, fun e he a hh hout => ?_⟩
  · have hbodies := layout_bodies hlayout (m := heap.mem) fun a ha => by
      have hin := ha k (Set.mem_insert_of_mem _ hkLive)
      have hnew := ha _ (Set.mem_insert _ _)
      simp only at hnew
      exact hfieldOut a (by omega) (by omega)
    rw [← hom] at hbodies
    exact hbodies
  · have hpos := (hs.layout.objects e he).nonempty
    have hapart := hside e he
    omega
  · rw [hmem, objField_setObjField_self]
    exact toNat_ofNat64 (by omega)
  · rw [hmem]
    refine DictAt.congr
      (e := ⟨newMd, 8 * (3 + (2 * (s.methods k.addr).length + 2))⟩) hdict ?_ ?_
    · intro a hh
      refine store64_of_out _ _ ?_
      unfold Extent.Holds at hh
      unfold objFieldAddr classMethodDict
      simp only at hh
      omega
    · rw [List.length_append, List.length_singleton]
      show _ ≤ 8 * (3 + (2 * (s.methods k.addr).length + 2))
      omega
  · have hapart := hside e he
    unfold Extent.Holds at hh
    unfold objFieldAddr classMethodDict at hout
    rw [hfieldOut a hout (by omega), hwritten]
    exact writeObject_of_out _ _ _ (by rw [htotal]; omega)

/-- An object other than the class has the same bytes. -/
theorem Appended.sameBytes {live : Set Extent} (hs : s.Inv classes) (hk : klass ∈ classes)
    (ha : Appended s klass selector method newMd heap live) {e : Extent} (he : e ∈ s.arena.live)
    (hne : e.addr ≠ klass) : SameBytes s.arena.heap.mem heap.mem e := by
  intro a hh
  refine ha.same e he a hh ?_
  obtain ⟨k, hkLive, rfl, hroom⟩ := hs.klass klass hk
  unfold objFieldAddr classMethodDict
  by_contra hin
  have heq := hs.layout.disjoint e he k hkLive a hh ⟨by omega, by omega⟩
  exact hne (by rw [heq])

/-- The superclass of a class is the same. -/
theorem Appended.superclass {live : Set Extent} (hs : s.Inv classes) (hk : klass ∈ classes)
    (ha : Appended s klass selector method newMd heap live) {c : Nat} (hc : c ∈ classes) :
    objField heap.mem c classSuperclass = objField s.arena.heap.mem c classSuperclass := by
  obtain ⟨e, he, rfl, hroom⟩ := hs.klass c hc
  unfold classSuperclass
  by_cases heq : e.addr = klass
  · refine objField_congr fun a hlo hhi => ?_
    unfold objFieldAddr at hlo hhi
    refine ha.same e he a (by unfold Extent.Holds; omega) ?_
    unfold objFieldAddr classMethodDict
    omega
  · exact (ha.sameBytes hs hk he heq).field (by omega)

/-- The dictionary of another class is the same. -/
theorem Appended.otherDict {live : Set Extent} (hs : s.Inv classes) (hk : klass ∈ classes)
    (ha : Appended s klass selector method newMd heap live) {c : Nat} (hc : c ∈ classes)
    (hne : c ≠ klass) :
    objField heap.mem c classMethodDict = objField s.arena.heap.mem c classMethodDict := by
  obtain ⟨e, he, rfl, hroom⟩ := hs.klass c hc
  exact (ha.sameBytes hs hk he hne).field (by unfold classMethodDict; omega)

/-- **An append keeps the hierarchy in the heap.** -/
theorem Appended.inv (hs : s.Inv classes) (hk : klass ∈ classes)
    (ha : Appended s klass selector method newMd heap
      (insert ⟨newMd, 8 * (3 + ((oldSize s.arena.heap.mem klass).toNat + 2))⟩ s.arena.live))
    (hmethod : method ≠ 0) :
    (Image.mk ⟨heap, insert ⟨newMd, 8 * (3 + ((oldSize s.arena.heap.mem klass).toNat + 2))⟩
        s.arena.live⟩
      (Function.update s.methods klass (s.methods klass ++ [(selector, method)]))).Inv classes := by
  have hold := hs.oldSize_eq hk
  have hnew := ha.layout.objects _ (Set.mem_insert _ _)
  have hnotNil : objField heap.mem klass classMethodDict ≠ taggedNil := by
    intro hnil
    have hfield := ha.field
    rw [hnil] at hfield
    have haligned := hnew.aligned
    simp only [← hfield] at haligned
    exact absurd haligned (by decide)
  refine ⟨ha.layout, fun c hc => ?_, fun k hkIn => ?_, fun c hc => ?_, fun c hc => ?_,
    fun c hc => ?_⟩
  · obtain ⟨e, he, haddr, hroom⟩ := hs.klass c hc
    exact ⟨e, Set.mem_insert_of_mem _ he, haddr, hroom⟩
  · obtain ⟨chain, hchain, hall⟩ := hs.ancestors k hkIn
    exact ⟨chain, hchain.congr fun c hc => ha.superclass hs hk (hall c hc), hall⟩
  · rcases eq_or_ne c klass with rfl | hne
    · refine .inr ⟨hnotNil, ?_⟩
      simp only [Function.update_self, ha.field]
      exact ha.dict
    · simp only [Function.update_of_ne hne]
      have hdict := ha.otherDict hs hk hc hne
      rcases hs.methods c hc with ⟨hnil, hempty⟩ | ⟨hhas, hat⟩
      · exact .inl ⟨hdict.trans hnil, hempty⟩
      · obtain ⟨e, he, haddr, hout, hbytes⟩ := hs.dict c hc hhas
        refine .inr ⟨by rw [hdict]; exact hhas, ?_⟩
        rw [hdict, haddr]
        rw [haddr] at hat
        exact hat.congr (ha.sameBytes hs hk he (fun h => hout (h ▸ hk))) (by omega)
  · show objField heap.mem c classMethodDict ≠ taggedNil → _
    intro hhas
    rcases eq_or_ne c klass with rfl | hne
    · refine ⟨_, Set.mem_insert _ _, ha.field, fun hin => ?_, ?_⟩
      · obtain ⟨e, he, haddr, -⟩ := hs.klass _ hin
        exact ha.fresh e he haddr
      · simp only [Function.update_self, List.length_append, List.length_singleton]
        omega
    · simp only [Function.update_of_ne hne]
      rw [ha.otherDict hs hk hc hne] at hhas ⊢
      obtain ⟨e, he, haddr, hout, hbytes⟩ := hs.dict c hc hhas
      exact ⟨e, Set.mem_insert_of_mem _ he, haddr, hout, hbytes⟩
  · rcases eq_or_ne c klass with rfl | hne
    · simp only [Function.update_self]
      intro p hp
      rcases List.mem_append.mp hp with hin | hin
      · exact hs.nonzero c hc p hin
      · rw [List.mem_singleton.mp hin]
        exact hmethod
    · simp only [Function.update_of_ne hne]
      exact hs.nonzero c hc

end Append

/-! ## §5. Runs of installers. -/

section Runs

variable {classes : Set Nat}

/-- **Every event keeps the hierarchy in the heap.** -/
theorem Image.Inv.step {s : Image} (hs : s.Inv classes) (event : InstallEvent)
    (hlegal : event.Legal classes s) : (s.step event).Inv classes := by
  cases event with
  | alloc req =>
    unfold Image.step Arena.step
    simp only
    rcases ha : omAlloc s.arena.heap req with _ | ⟨obj, h'⟩
    · exact hs
    exact hs.frame (omAlloc_layout hs.layout ha).1 (Set.subset_insert _ _)
      fun e he _ => omAlloc_sameBytes hs.layout ha he
  | store object m =>
    obtain ⟨hobject, hnotKept, hm⟩ := hlegal
    have hlayout := layout_bodies hs.layout (m := m) fun a ha => by
      have hout := ha object hobject
      have hsize := (hs.layout.objects object hobject).nonempty
      exact hm a (by omega)
    refine hs.frame hlayout Set.Subset.rfl fun e he hkept a hh => ?_
    -- a kept object shares no byte with the one stored into
    refine hm a ?_
    by_contra hin
    have heq := hs.layout.disjoint e he object hobject a hh ⟨by omega, by omega⟩
    exact hnotKept (heq ▸ hkept)
  | install classClass klass selector method =>
    obtain ⟨hk, hmethod, -, -⟩ := hlegal
    unfold Image.step
    simp only
    rcases happend : bcAppendMethodDict s.arena.heap classClass klass selector method with
      _ | ⟨newMd, heap⟩
    · exact hs
    · exact (hs.append hk happend).inv hs hk hmethod

/-- What a lookup finds in the heap. -/
theorem Image.Inv.lookup {s : Image} (hs : s.Inv classes) {klass : Oop}
    (hk : klass.toNat ∈ classes) {chain : List Nat}
    (hchain : Ancestors s.arena.heap.mem klass chain) (selector : Oop) {fuel : Nat}
    (hfuel : chain.length < fuel) :
    classLookup s.arena.heap.mem selector fuel klass
      = some (nearestFirst s.methods selector chain) := by
  obtain ⟨chain', hchain', hall⟩ := hs.ancestors klass hk
  rw [hchain.unique hchain'] at hfuel ⊢
  exact classLookup_eq hchain' (fun c hc => ⟨hs.methods c (hall c hc), hs.nonzero c (hall c hc)⟩)
    selector hfuel

/-- No class of the hierarchy has two methods for a selector. -/
def Image.Single (classes : Set Nat) (s : Image) : Prop :=
  ∀ c ∈ classes, ((s.methods c).map Prod.fst).Nodup

/-- With one entry for a selector the first is the most recent. -/
theorem latest_eq_firstEntry {entries : List (Oop × Oop)} (h : (entries.map Prod.fst).Nodup)
    (selector : Oop) : latest entries selector = firstEntry entries selector := by
  unfold latest
  induction entries with
  | nil => rfl
  | cons p rest ih =>
    rw [List.map_cons, List.nodup_cons] at h
    have hrest := ih h.2
    unfold firstEntry at hrest ⊢
    rw [List.reverse_cons, List.find?_append]
    by_cases hp : p.1 = selector
    · -- the selector of the head is not in the tail
      have hnone : rest.reverse.find? (fun q => q.1 == selector) = none := by
        rw [List.find?_eq_none]
        intro q hq heq
        have hsame : q.1 = p.1 := by rw [hp]; simpa using heq
        exact h.1 (hsame ▸ List.mem_map_of_mem (List.mem_reverse.mp hq))
      rw [hnone]
      simp [hp]
    · have hskip : ∀ l : List (Oop × Oop), (p :: l).find? (fun q => q.1 == selector)
          = l.find? (fun q => q.1 == selector) :=
        fun l => List.find?_cons_of_neg (by simpa using hp)
      rw [hskip, hskip, List.find?_nil, Option.or_none]
      exact hrest

theorem Image.Single.found {s : Image} (hs : s.Inv classes) (hsingle : s.Single classes) :
    s.Found classes := by
  intro klass hk chain hchain selector fuel hfuel
  rw [hs.lookup hk hchain selector hfuel]
  obtain ⟨chain', hchain', hall⟩ := hs.ancestors klass hk
  obtain rfl := hchain.unique hchain'
  congr 1
  clear hchain hchain' hfuel
  induction chain with
  | nil => rfl
  | cons c rest ih =>
    rw [nearestFirst, nearestLatest, latest_eq_firstEntry (hsingle c (hall c List.mem_cons_self)),
      ih fun c' hc' => hall c' (List.mem_cons_of_mem _ hc')]

/-- A new selector keeps the selectors apart. -/
theorem Image.Single.step {s : Image} (hsingle : s.Single classes) {event : InstallEvent}
    (hfresh : event.Fresh s) : (s.step event).Single classes := by
  cases event with
  | alloc req => exact hsingle
  | store object m => exact hsingle
  | install classClass klass selector method =>
    unfold Image.step
    simp only
    rcases bcAppendMethodDict s.arena.heap classClass klass selector method with _ | ⟨newMd, heap⟩
    · exact hsingle
    · intro c hc
      rcases eq_or_ne c klass with rfl | hne
      · simp only [Function.update_self, List.map_append, List.map_cons, List.map_nil]
        rw [List.nodup_append]
        refine ⟨hsingle c hc, by simp, fun a ha b hb => ?_⟩
        rw [List.mem_singleton.mp hb]
        obtain ⟨p, hp, rfl⟩ := List.mem_map.mp ha
        exact hfresh p hp
      · simp only [Function.update_of_ne hne]
        exact hsingle c hc

/-- A lookup that finds the new method had no other for the selector. -/
theorem fresh_of_found {s : Image} (hs : s.Inv classes) {event : InstallEvent}
    (hlegal : event.Legal classes s) (hfound : (s.step event).Found classes) :
    event.Fresh s := by
  have hs' := hs.step event hlegal
  cases event with
  | alloc req => trivial
  | store object m => trivial
  | install classClass klass selector method =>
    obtain ⟨hk, -, hnew, hsome⟩ := hlegal
    obtain ⟨⟨newMd, heap⟩, happend⟩ := Option.isSome_iff_exists.mp hsome
    have hmethods : (s.step (.install classClass klass selector method)).methods klass
        = s.methods klass ++ [(selector, method)] := by
      unfold Image.step
      simp only [happend, Function.update_self]
    -- the lookup starts at the class itself
    obtain ⟨e, he, haddr, -⟩ := hs.klass klass hk
    have habove := (hs.layout.objects e he).above
    have hbelow := (hs.layout.objects e he).below
    have haligned := (hs.layout.objects e he).aligned
    have hplaced := hs.layout.placed
    have hfirst := hplaced.aboveFirstPage
    have hlimit := hplaced.freeLimit
    have hstop := hplaced.limitStop
    have hbound := hplaced.stopBound
    unfold pageBytes at hfirst
    have hword : (UInt64.ofNat klass).toNat = klass := toNat_ofNat64 (by omega)
    have hclass : ¬ (UInt64.ofNat klass = 0 ∨ UInt64.ofNat klass = taggedNil) := by
      rintro (h0 | hnil)
      · rw [h0] at hword
        simp only [UInt64.toNat_zero] at hword
        omega
      · rw [hnil] at hword
        have hthree : taggedNil.toNat = 3 := rfl
        omega
    obtain ⟨chain, hchain, -⟩ := hs'.ancestors (UInt64.ofNat klass) (by rw [hword]; exact hk)
    have hlookup := hs'.lookup (by rw [hword]; exact hk) hchain selector (Nat.lt_succ_self _)
    rw [hfound (UInt64.ofNat klass) (by rw [hword]; exact hk) chain hchain selector _
      (Nat.lt_succ_self _)] at hlookup
    cases hchain with
    | none hend => exact absurd hend hclass
    | some _ _ =>
      rw [nearestFirst, nearestLatest, hword, hmethods] at hlookup
      intro p hp heq
      -- an old entry comes before the new one
      have hlatest : latest (s.methods klass ++ [(selector, method)]) selector = some method := by
        unfold latest firstEntry
        simp
      rw [hlatest] at hlookup
      obtain ⟨q, hq⟩ : ∃ q, (s.methods klass).find? (fun p => p.1 == selector) = some q := by
        rw [← Option.isSome_iff_exists, List.find?_isSome]
        exact ⟨p, hp, by simpa using heq⟩
      have hfirst' : firstEntry (s.methods klass ++ [(selector, method)]) selector = some q.2 := by
        unfold firstEntry
        rw [List.find?_append, hq]
        rfl
      rw [hfirst'] at hlookup
      exact hnew q (List.mem_of_find?_eq_some hq) (Option.some.inj hlookup).symm

/-- **Lookup after installations.**  In every run of installers on a heap that holds the
classes with the methods installed in them, no two for one selector in a class, every
lookup finds after every event the most recent method for its selector in the nearest
class that has one exactly if no event installs a method for a selector in a class that
has one already. -/
theorem installs_found_iff {s : Image} (hs : s.Inv classes) (hsingle : s.Single classes)
    {events : List InstallEvent}
    (hlegal : AtEvery Image.step (fun s e => e.Legal classes s) s events) :
    AtEvery Image.step (fun s e => (s.step e).Found classes) s events ↔
      AtEvery Image.step (fun s e => e.Fresh s) s events := by
  refine AtEvery.iff_of_invariant (fun s => s.Inv classes ∧ s.Single classes) ?_ ?_
    ⟨hs, hsingle⟩ hlegal
  · rintro s e ⟨hs, hsingle⟩ hlegal hfresh
    exact ⟨hs.step e hlegal, hsingle.step hfresh⟩
  · rintro s e ⟨hs, hsingle⟩ hlegal
    exact ⟨fresh_of_found hs hlegal, fun hfresh => (hsingle.step hfresh).found (hs.step e hlegal)⟩

end Runs

/-! ## §6. One class. -/

/-- An image with one class, which has no superclass and no methods. -/
def oneClass : Image where
  arena :=
    { heap :=
        { om := (smallArena.step (.alloc threeFields)).heap.om
          mem := setObjField (setObjField (smallArena.step (.alloc threeFields)).heap.mem
            65536 classSuperclass taggedNil) 65536 classMethodDict taggedNil }
      live := {⟨65536, 48⟩} }
  methods := fun _ => []

theorem oneClass_inv : oneClass.Inv {65536} := by
  obtain ⟨h', halloc, hstep⟩ := Arena.step_alloc smallArena threeFields 65536
    (by decide +kernel)
  obtain ⟨hlayout, -⟩ := omAlloc_layout (omInit_layout smallBuffer (fun _ => 0)) halloc
  have hlive : insert (⟨65536, threeFields.totalBytes⟩ : Extent) (∅ : Set Extent)
      = {⟨65536, 48⟩} := by
    rw [insert_empty_eq]
    rfl
  rw [hlive] at hlayout
  have hheap : (smallArena.step (.alloc threeFields)).heap = h' := by rw [hstep]
  have hsuper : objField oneClass.arena.heap.mem 65536 classSuperclass = taggedNil := by
    unfold oneClass
    simp only
    rw [objField_setObjField_of_ne _ _ _ (by decide), objField_setObjField_self]
  have hdict : objField oneClass.arena.heap.mem 65536 classMethodDict = taggedNil := by
    unfold oneClass
    simp only
    rw [objField_setObjField_self]
  refine ⟨?_, ?_, ?_, ?_, ?_, ?_⟩
  · unfold oneClass
    simp only
    rw [hheap]
    refine layout_bodies hlayout fun a ha => ?_
    have hout := ha ⟨65536, 48⟩ (Set.mem_singleton _)
    simp only at hout
    rw [setObjField, store64_of_out _ _ (by unfold objFieldAddr classMethodDict; omega), setObjField,
      store64_of_out _ _ (by unfold objFieldAddr classSuperclass; omega)]
  · rintro c rfl
    exact ⟨⟨65536, 48⟩, Set.mem_singleton _, rfl, by decide⟩
  · intro klass hk
    have hword : klass.toNat = 65536 := hk
    have hne : ¬ (klass = 0 ∨ klass = taggedNil) := by
      rintro (rfl | rfl) <;> exact absurd hword (by decide)
    refine ⟨[klass.toNat], .some hne (.none (.inr ?_)), fun c hc => ?_⟩
    · rw [hword, hsuper]
    · rw [List.mem_singleton.mp hc]
      exact hk
  · rintro c rfl
    exact .inl ⟨hdict, rfl⟩
  · rintro c rfl hne
    exact absurd hdict hne
  · intro c _ p hp
    exact absurd hp List.not_mem_nil

/-- Methods for two selectors. -/
def twoSelectors : List InstallEvent := [.install 0 65536 4 8, .install 0 65536 12 16]

/-- Two methods for one selector. -/
def sameSelector : List InstallEvent := [.install 0 65536 4 8, .install 0 65536 4 16]

/-- The class has no methods, and one after the first installation. -/
theorem oneClass_methods : oneClass.methods 65536 = [] ∧
    (oneClass.step (.install 0 65536 4 8)).methods 65536 = [(4, 8)] :=
  ⟨rfl, by decide +kernel⟩

/-- With two selectors every lookup finds the most recent method. -/
theorem twoSelectors_found :
    AtEvery Image.step (fun s e => (s.step e).Found {65536}) oneClass twoSelectors := by
  refine (installs_found_iff oneClass_inv (fun c _ => List.nodup_nil) ?_).mpr ?_
  · refine ⟨⟨rfl, by decide, ?_, by decide +kernel⟩, ⟨rfl, by decide, ?_, by decide +kernel⟩,
      trivial⟩
    · rw [oneClass_methods.1]
      exact List.forall_mem_nil _
    · rw [oneClass_methods.2]
      exact List.forall_mem_singleton.mpr (by decide)
  · refine ⟨?_, ?_, trivial⟩
    · show ∀ p ∈ oneClass.methods 65536, p.1 ≠ 4
      rw [oneClass_methods.1]
      exact List.forall_mem_nil _
    · show ∀ p ∈ (oneClass.step (.install 0 65536 4 8)).methods 65536, p.1 ≠ 12
      rw [oneClass_methods.2]
      exact List.forall_mem_singleton.mpr (by decide)

/-- With one selector the lookup finds the old method. -/
theorem sameSelector_old :
    AtEvery Image.step (fun s e => e.Legal {65536} s) oneClass sameSelector ∧
    ¬ AtEvery Image.step (fun s e => (s.step e).Found {65536}) oneClass sameSelector := by
  refine ⟨⟨⟨rfl, by decide, ?_, by decide +kernel⟩, ⟨rfl, by decide, ?_, by decide +kernel⟩,
    trivial⟩, ?_⟩
  · rw [oneClass_methods.1]
    exact List.forall_mem_nil _
  · rw [oneClass_methods.2]
    exact List.forall_mem_singleton.mpr (by decide)
  rintro ⟨-, hfound, -⟩
  have hold := hfound 65536 rfl [65536] (.some (by decide) (.none (.inr (by decide +kernel)))) 4 2
    (by decide)
  exact absurd hold (by decide +kernel)

end LivingObjects.Classes
