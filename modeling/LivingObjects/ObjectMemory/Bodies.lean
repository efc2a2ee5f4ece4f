/-
  LivingObjects.ObjectMemory.Bodies — fields, bytes and stores into bodies.

  An object that is stored into keeps its header, every other object keeps its bytes,
  and the heap keeps its layout.  A new object lies below or above every live one.
-/
import LivingObjects.ObjectMemory.Layout

namespace LivingObjects.ObjectMemory

open LivingObjects.Lib
open LivingObjects.VM

/-! ## §1. Fields. -/

theorem objField_congr {m m' : Mem} {o i : Nat}
    (h : ∀ a, objFieldAddr o i ≤ a → a < objFieldAddr o i + 8 → m' a = m a) :
    objField m' o i = objField m o i :=
  load64_congr fun k hk => h _ (Nat.le_add_right _ _) (by omega)

@[simp] theorem objField_setObjField_self (m : Mem) (o i : Nat) (v : UInt64) :
    objField (setObjField m o i v) o i = v := load64_store64_self _ _ _

theorem objField_setObjField_of_ne (m : Mem) (o : Nat) {i j : Nat} (v : UInt64) (h : i ≠ j) :
    objField (setObjField m o i v) o j = objField m o j :=
  load64_store64_of_disjoint _ _ (by unfold objFieldAddr; omega)

/-! ## §2. Objects that are not stored into. -/

/-- The bytes of an object are the same. -/
def SameBytes (m m' : Mem) (e : Extent) : Prop := ∀ a, e.Holds a → m' a = m a

theorem SameBytes.field {m m' : Mem} {e : Extent} (h : SameBytes m m' e) {i : Nat}
    (hi : 32 + 8 * i ≤ e.bytes) : objField m' e.addr i = objField m e.addr i :=
  objField_congr fun a hlo hhi => h a (by unfold Extent.Holds objFieldAddr at *; omega)

theorem SameBytes.size {m m' : Mem} {e : Extent} (h : SameBytes m m' e) (hsize : 24 ≤ e.bytes) :
    objSize m' e.addr = objSize m e.addr :=
  load64_congr fun k hk => h _ (by unfold Extent.Holds; omega)

theorem SameBytes.format {m m' : Mem} {e : Extent} (h : SameBytes m m' e) (hsize : 24 ≤ e.bytes) :
    objFormat m' e.addr = objFormat m e.addr :=
  load64_congr fun k hk => h _ (by unfold Extent.Holds; omega)

/-! ## §3. The layout. -/

/-- Stores into class words and bodies keep the rest of the headers. -/
theorem headers_kept {h : Heap} {live : Set Extent} (hl : Layout h live) {m : Mem}
    (hm : ∀ a, (∀ e ∈ live, a < e.addr ∨ (e.addr + 8 ≤ a ∧ a < e.addr + 24) ∨
      e.addr + e.bytes ≤ a) → m a = h.mem a) {e : Extent} (he : e ∈ live) :
    objFormat m e.addr = objFormat h.mem e.addr ∧ objSize m e.addr = objSize h.mem e.addr := by
  have hheader : ∀ i, 8 ≤ i → i < 24 → m (e.addr + i) = h.mem (e.addr + i) := by
    intro i hlo hhi
    refine hm _ fun e' he' => ?_
    have hsize := (hl.objects e he).nonempty
    by_contra hin
    have hsame := hl.disjoint e he e' he' (e.addr + i) ⟨by omega, by omega⟩ ⟨by omega, by omega⟩
    subst hsame
    omega
  constructor
  · apply load64_congr
    intro i hi
    rw [Nat.add_assoc]
    exact hheader (8 + i) (by omega) (by omega)
  · apply load64_congr
    intro i hi
    rw [Nat.add_assoc]
    exact hheader (16 + i) (by omega) (by omega)

/-- Stores into class words and bodies keep the layout. -/
theorem layout_bodies {h : Heap} {live : Set Extent} (hl : Layout h live) {m : Mem}
    (hm : ∀ a, (∀ e ∈ live, a < e.addr ∨ (e.addr + 8 ≤ a ∧ a < e.addr + 24) ∨
      e.addr + e.bytes ≤ a) → m a = h.mem a) :
    Layout { h with mem := m } live := by
  refine hl.congr (SameButDirty.refl _) fun e he => ?_
  obtain ⟨hformat, hsize⟩ := headers_kept hl hm he
  exact objectSlotCount_congr hformat hsize

/-- An object where nothing is live lies below or above every live object. -/
theorem below_or_above {h : Heap} {live : Set Extent} (hl : Layout h live) {obj total : Nat}
    (hpos : 0 < total) (hunused : ∀ a, obj ≤ a → a < obj + total → ¬ ∃ e ∈ live, e.Holds a)
    {e : Extent} (he : e ∈ live) : e.addr + e.bytes ≤ obj ∨ obj + total ≤ e.addr := by
  have hsize := (hl.objects e he).nonempty
  by_contra hin
  exact hunused (max e.addr obj) (by omega) (by omega)
    ⟨e, he, by unfold Extent.Holds; omega⟩

/-- An allocation leaves the live objects alone. -/
theorem omAlloc_sameBytes {h h' : Heap} {live : Set Extent} (hl : Layout h live)
    {req : AllocRequest} {obj : Nat} (ha : omAlloc h req = some (obj, h')) {e : Extent}
    (he : e ∈ live) : SameBytes h.mem h'.mem e := by
  obtain ⟨-, hunused, -, -⟩ := omAlloc_layout hl ha
  obtain ⟨-, hwritten, -⟩ := omAlloc_scan ha
  have hpos := req.le_totalBytes
  have hside := below_or_above hl (by omega) hunused he
  intro a hh
  rw [hwritten]
  exact writeObject_of_out _ _ _ (by unfold Extent.Holds at hh; omega)

end LivingObjects.ObjectMemory
