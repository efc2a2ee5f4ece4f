/-
  LivingObjects.Gc.Cheney — the two-finger invariant of `gc_collect`.

  `Fingers` is what holds while the collection runs: the objects copied so far, in order,
  lie one after the other from the old free pointer on; their originals are forwarded and
  the rest of memory is as it was; and up to the address `scanned` the copies hold renamed
  words, above it the words as they were.  Copying an object appends it to the list;
  looking at a word of a copy moves `scanned` past it.  When the scan has caught up with
  the free pointer the list is closed under references, and it holds the objects that are
  reached from the roots.
-/
import LivingObjects.Gc.Collect

namespace LivingObjects.Gc

/-! ## §1. Objects laid out one after the other. -/

section Layout

variable {mem : Nat → Nat}

theorem three_le_totalWords (mem : Nat → Nat) (o : Nat) : 3 ≤ totalWords mem o := by
  unfold totalWords
  split <;> omega

theorem bytesOf_append (mem : Nat → Nat) (l l' : List Nat) :
    bytesOf mem (l ++ l') = bytesOf mem l + bytesOf mem l' := by
  unfold bytesOf
  rw [List.map_append, List.sum_append]

theorem bytesOf_cons (mem : Nat → Nat) (o : Nat) (l : List Nat) :
    bytesOf mem (o :: l) = 8 * totalWords mem o + bytesOf mem l := List.sum_cons

theorem imageOf_cons_of_ne {free o o' : Nat} {l : List Nat} (hne : o ≠ o') :
    imageOf mem free (o' :: l) o = imageOf mem (free + 8 * totalWords mem o') l o := if_neg hne

theorem imageOf_append_of_mem {free o : Nat} {l : List Nat} (l' : List Nat) (ho : o ∈ l) :
    imageOf mem free (l ++ l') o = imageOf mem free l o := by
  induction l generalizing free with
  | nil => cases ho
  | cons x l ih =>
    by_cases hx : o = x
    · rw [List.cons_append, imageOf, if_pos hx, imageOf, if_pos hx]
    · rw [List.cons_append, imageOf_cons_of_ne hx, imageOf_cons_of_ne hx]
      exact ih ((List.mem_cons.mp ho).resolve_left hx)

theorem imageOf_append_self {free o : Nat} {l : List Nat} (l' : List Nat) (ho : o ∉ l) :
    imageOf mem free (l ++ o :: l') o = free + bytesOf mem l := by
  induction l generalizing free with
  | nil => rw [List.nil_append, imageOf, if_pos rfl]; rfl
  | cons x l ih =>
    have hx : o ≠ x := fun h => ho (h ▸ List.mem_cons_self)
    rw [List.cons_append, imageOf_cons_of_ne hx, ih fun h => ho (List.mem_cons_of_mem x h),
      bytesOf_cons, Nat.add_assoc]

/-- An object lies between the start and the end of the layout. -/
theorem imageOf_bounds {free o : Nat} {l : List Nat} (ho : o ∈ l) :
    free ≤ imageOf mem free l o ∧
      imageOf mem free l o + 8 * totalWords mem o ≤ free + bytesOf mem l := by
  induction l generalizing free with
  | nil => cases ho
  | cons x l ih =>
    rw [bytesOf_cons]
    by_cases hx : o = x
    · subst hx
      rw [imageOf, if_pos rfl]
      omega
    · rw [imageOf_cons_of_ne hx]
      have hrest := @ih (free + 8 * totalWords mem x) ((List.mem_cons.mp ho).resolve_left hx)
      omega

/-- Two objects do not overlap. -/
theorem imageOf_apart {free o o' : Nat} {l : List Nat} (ho : o ∈ l) (ho' : o' ∈ l)
    (hne : o ≠ o') :
    imageOf mem free l o + 8 * totalWords mem o ≤ imageOf mem free l o' ∨
      imageOf mem free l o' + 8 * totalWords mem o' ≤ imageOf mem free l o := by
  induction l generalizing free with
  | nil => cases ho
  | cons x l ih =>
    by_cases hx : o = x
    · subst hx
      rw [imageOf, if_pos rfl, imageOf_cons_of_ne (Ne.symm hne)]
      exact Or.inl (imageOf_bounds ((List.mem_cons.mp ho').resolve_left (Ne.symm hne))).1
    · by_cases hx' : o' = x
      · subst hx'
        rw [imageOf_cons_of_ne hx]
        refine Or.inr ?_
        rw [imageOf, if_pos rfl]
        exact (imageOf_bounds ((List.mem_cons.mp ho).resolve_left hx)).1
      · rw [imageOf_cons_of_ne hx, imageOf_cons_of_ne hx']
        exact ih ((List.mem_cons.mp ho).resolve_left hx) ((List.mem_cons.mp ho').resolve_left hx')

/-- Which word of which object lies at an address. -/
theorem imageOf_word_inj {free o o' i i' : Nat} {l : List Nat} (ho : o ∈ l) (ho' : o' ∈ l)
    (hi : i < totalWords mem o) (hi' : i' < totalWords mem o')
    (h : imageOf mem free l o + 8 * i = imageOf mem free l o' + 8 * i') : o = o' ∧ i = i' := by
  by_cases hne : o = o'
  · subst hne
    exact ⟨rfl, by omega⟩
  · have hapart := @imageOf_apart mem free _ _ _ ho ho' hne
    omega

theorem imageOf_aligned {free o : Nat} {l : List Nat} (hfree : free % 8 = 0) :
    imageOf mem free l o % 8 = 0 := by
  induction l generalizing free with
  | nil => exact hfree
  | cons x l ih =>
    rw [imageOf]
    split
    · exact hfree
    · exact ih (by omega)

end Layout

/-! ## §2. The copy loop. -/

theorem copyLoop_of_out {n src dst a : Nat} {mem : Nat → Nat} (h : a < dst ∨ dst + 8 * n ≤ a) :
    copyLoop n src dst mem a = mem a := by
  induction n generalizing src dst mem with
  | zero => rfl
  | succ n ih =>
    rw [copyLoop, ih (by omega)]
    exact Function.update_of_ne (by omega) _ _

/-- The words copied, when the two stretches do not overlap. -/
theorem copyLoop_word {n src dst i : Nat} {mem : Nat → Nat} (hi : i < n)
    (hapart : src + 8 * n ≤ dst ∨ dst + 8 * n ≤ src) :
    copyLoop n src dst mem (dst + 8 * i) = mem (src + 8 * i) := by
  induction n generalizing src dst i mem with
  | zero => exact absurd hi (Nat.not_lt_zero i)
  | succ n ih =>
    rw [copyLoop]
    cases i with
    | zero =>
      rw [copyLoop_of_out (by omega)]
      exact Function.update_self _ _ _
    | succ i =>
      have hrest : copyLoop n (src + 8) (dst + 8) (Function.update mem dst (mem src))
          (dst + 8 + 8 * i) = Function.update mem dst (mem src) (src + 8 + 8 * i) :=
        ih (by omega) (by omega)
      rw [show dst + 8 * (i + 1) = dst + 8 + 8 * i by omega, hrest,
        show src + 8 * (i + 1) = src + 8 + 8 * i by omega]
      exact Function.update_of_ne (by omega) _ _

/-! ## §3. The invariant. -/

section Run

variable {mem : Nat → Nat} {fromStart fromEnd free toEnd : Nat} {objs : Nat → Prop}
variable {roots : List Nat}

/-- What a collection needs: a well-formed from-space, roots that are valid words, and a
to-space apart from it with room for what is reached. -/
structure Ready (mem : Nat → Nat) (fromStart fromEnd free toEnd : Nat) (objs : Nat → Prop)
    (roots : List Nat) : Prop where
  heap : WellFormed mem fromStart fromEnd objs
  validRoots : ∀ r ∈ roots, ValidWord fromStart fromEnd objs r
  aligned : free % 8 = 0
  disjoint : fromEnd ≤ free ∨ toEnd ≤ fromStart
  room : ∀ l : List Nat, l.Nodup → (∀ o ∈ l, Reachable mem fromStart fromEnd roots o) →
    free + bytesOf mem l ≤ toEnd

/-- **The two fingers**: `copied` up to the free pointer, `scanned`. -/
structure Fingers (mem : Nat → Nat) (fromStart fromEnd free toEnd : Nat) (roots : List Nat)
    (copied : List Nat) (scanned : Nat) (s : Space) : Prop where
  nodup : copied.Nodup
  reached : ∀ o ∈ copied, Reachable mem fromStart fromEnd roots o
  top : s.free = free + bytesOf mem copied
  forwarded : ∀ o ∈ copied, s.mem o = imageOf mem free copied o + 1
  words : ∀ o ∈ copied, ∀ i < totalWords mem o, s.mem (imageOf mem free copied o + 8 * i)
    = if imageOf mem free copied o + 8 * i < scanned ∧ IsSlot mem o i then
        renamed mem fromStart fromEnd free copied (mem (o + 8 * i))
      else mem (o + 8 * i)
  closed : ∀ o ∈ copied, ∀ i < totalWords mem o,
    imageOf mem free copied o + 8 * i < scanned → IsSlot mem o i →
    inFromSpace fromStart fromEnd (mem (o + 8 * i)) = true → mem (o + 8 * i) ∈ copied
  same : ∀ a, a < free ∨ toEnd ≤ a → a ∉ copied → s.mem a = mem a

theorem inFromSpace_iff {word : Nat} :
    inFromSpace fromStart fromEnd word = true ↔
      word % 4 = 0 ∧ fromStart ≤ word ∧ word < fromEnd := by
  simp [inFromSpace, and_assoc]

/-- Valid roots reach objects only. -/
theorem WellFormed.reachable (h : WellFormed mem fromStart fromEnd objs)
    (hroots : ∀ r ∈ roots, ValidWord fromStart fromEnd objs r) {o : Nat}
    (ho : Reachable mem fromStart fromEnd roots o) : objs o := by
  induction ho with
  | root hroot hin => exact hroots _ hroot hin
  | slot _ href ih =>
    obtain ⟨i, hi, hslot, rfl, hin⟩ := href
    exact h.slots _ ih i hi hslot hin

theorem Ready.obj (h : Ready mem fromStart fromEnd free toEnd objs roots) {o : Nat}
    (ho : Reachable mem fromStart fromEnd roots o) : objs o := h.heap.reachable h.validRoots ho

/-- The words of an object that has not been copied, and those after the class of one that
has, are as they were. -/
theorem Fingers.from_word {copied : List Nat} {scanned o i : Nat} {s : Space}
    (hf : Fingers mem fromStart fromEnd free toEnd roots copied scanned s)
    (h : Ready mem fromStart fromEnd free toEnd objs roots) (ho : objs o)
    (hi : i < totalWords mem o) (hnew : o ∉ copied ∨ 0 < i) : s.mem (o + 8 * i) = mem (o + 8 * i) := by
  have hinside := h.heap.inside o ho
  refine hf.same _ ?_ fun hmem => ?_
  · rcases h.disjoint with hd | hd
    · exact Or.inl (by omega)
    · exact Or.inr (by omega)
  · by_cases hsame : o = o + 8 * i
    · rw [← hsame] at hmem
      exact hnew.elim (fun hn => hn hmem) (by omega)
    · have hapart := h.heap.apart o (o + 8 * i) ho (h.obj (hf.reached _ hmem)) hsame
      have hwords := three_le_totalWords mem (o + 8 * i)
      omega

/-- What a word becomes does not change when more objects are copied. -/
theorem renamed_append {copied : List Nat} (more : List Nat) {word : Nat}
    (hword : inFromSpace fromStart fromEnd word = true → word ∈ copied) :
    renamed mem fromStart fromEnd free (copied ++ more) word
      = renamed mem fromStart fromEnd free copied word := by
  unfold renamed
  split
  · exact imageOf_append_of_mem more (hword ‹_›)
  · rfl

/-- An object in to-space is outside from-space. -/
theorem Ready.image_ne (h : Ready mem fromStart fromEnd free toEnd objs roots) {a o : Nat}
    (hlo : free ≤ a) (hhi : a < toEnd) (ho : objs o) : a ≠ o := by
  have hinside := h.heap.inside o ho
  have hwords := three_le_totalWords mem o
  rcases h.disjoint with hd | hd <;> omega

/-- The copies all fit. -/
theorem Fingers.fits {copied : List Nat} {scanned : Nat} {s : Space}
    (hf : Fingers mem fromStart fromEnd free toEnd roots copied scanned s)
    (h : Ready mem fromStart fromEnd free toEnd objs roots) :
    free + bytesOf mem copied ≤ toEnd :=
  h.room copied hf.nodup hf.reached

theorem or_one_of_aligned {a : Nat} (ha : a % 8 = 0) : a ||| 1 = a + 1 := by
  obtain ⟨k, rfl⟩ : ∃ k, a = 2 ^ 3 * k := ⟨a / 8, by omega⟩
  exact (Nat.two_pow_add_eq_or_of_lt (by decide) k).symm

theorem bytesOf_aligned (mem : Nat → Nat) (l : List Nat) : bytesOf mem l % 8 = 0 := by
  induction l with
  | nil => rfl
  | cons o l ih =>
    rw [bytesOf_cons]
    omega

theorem nodup_concat {l : List Nat} {o : Nat} (hl : l.Nodup) (ho : o ∉ l) : (l ++ [o]).Nodup :=
  List.nodup_append.mpr ⟨hl, List.pairwise_singleton _ o, fun a ha b hb hab =>
    ho (by rw [← List.mem_singleton.mp hb, ← hab]; exact ha)⟩

/-- One more object that is reached. -/
theorem Fingers.reached_concat {copied : List Nat} {scanned o : Nat} {s : Space}
    (hf : Fingers mem fromStart fromEnd free toEnd roots copied scanned s)
    (ho : Reachable mem fromStart fromEnd roots o) :
    ∀ o' ∈ copied ++ [o], Reachable mem fromStart fromEnd roots o' := by
  intro o' ho'
  rcases List.mem_append.mp ho' with ho' | ho'
  · exact hf.reached o' ho'
  · rw [List.mem_singleton.mp ho']
    exact ho

/-- The size of an object can still be read. -/
theorem Fingers.totalWords {copied : List Nat} {scanned o : Nat} {s : Space}
    (hf : Fingers mem fromStart fromEnd free toEnd roots copied scanned s)
    (h : Ready mem fromStart fromEnd free toEnd objs roots) (ho : objs o) :
    totalWords s.mem o = totalWords mem o := by
  have hwords := three_le_totalWords mem o
  have hformat := hf.from_word h ho (by omega : 1 < Gc.totalWords mem o) (Or.inr Nat.one_pos)
  have hsize := hf.from_word h ho (by omega : 2 < Gc.totalWords mem o) (Or.inr Nat.two_pos)
  rw [Nat.mul_one] at hformat
  unfold Gc.totalWords
  rw [hformat, show o + 16 = o + 8 * 2 from rfl, hsize]

/-- A new copy at the free pointer. -/
theorem Fingers.newCopy {copied : List Nat} {scanned o : Nat} {s : Space}
    (hf : Fingers mem fromStart fromEnd free toEnd roots copied scanned s)
    (h : Ready mem fromStart fromEnd free toEnd objs roots)
    (ho : Reachable mem fromStart fromEnd roots o) (hnew : o ∉ copied)
    (hscanned : scanned ≤ s.free) (hroom : s.free + 8 * Gc.totalWords mem o ≤ toEnd) :
    Fingers mem fromStart fromEnd free toEnd roots (copied ++ [o]) scanned
      { mem := Function.update (copyLoop (Gc.totalWords mem o) o s.free s.mem) o (s.free ||| 1)
        free := s.free + 8 * Gc.totalWords mem o } := by
  have hobj := h.obj ho
  have hinside := h.heap.inside o hobj
  have htop := hf.top
  have hbytes := bytesOf_aligned mem copied
  have hfree := h.aligned
  have himage : imageOf mem free (copied ++ [o]) o = s.free := by
    rw [imageOf_append_self [] hnew, htop]
  have hold : ∀ o' ∈ copied, imageOf mem free (copied ++ [o]) o' = imageOf mem free copied o' :=
    fun o' ho' => imageOf_append_of_mem [o] ho'
  -- nothing below the free pointer changes but the class word of the original
  have hsame : ∀ a, a ≠ o → a < s.free ∨ s.free + 8 * Gc.totalWords mem o ≤ a →
      Function.update (copyLoop (Gc.totalWords mem o) o s.free s.mem) o (s.free ||| 1) a
        = s.mem a := fun a hne hout =>
    (Function.update_of_ne hne _ _).trans (copyLoop_of_out hout)
  have hbelow : ∀ o' ∈ copied, ∀ i < Gc.totalWords mem o',
      imageOf mem free copied o' + 8 * i < s.free := by
    intro o' ho' i hi
    have hbounds := @imageOf_bounds mem free o' copied ho'
    omega
  refine ⟨nodup_concat hf.nodup hnew, hf.reached_concat ho, ?_, ?_, ?_, ?_, ?_⟩
  · rw [bytesOf_append, bytesOf_cons, ← Nat.add_assoc, ← htop]
    rfl
  · intro o' ho'
    rcases List.mem_append.mp ho' with ho' | ho'
    · have hne : o' ≠ o := fun hsame => hnew (hsame ▸ ho')
      have hobj' := h.obj (hf.reached o' ho')
      have hinside' := h.heap.inside o' hobj'
      have hwords := three_le_totalWords mem o'
      rw [hold o' ho', ← hf.forwarded o' ho']
      refine hsame o' hne ?_
      rcases h.disjoint with hd | hd <;> omega
    · rw [List.mem_singleton.mp ho', himage]
      refine (Function.update_self _ _ _).trans (or_one_of_aligned ?_)
      omega
  · intro o' ho' i hi
    rcases List.mem_append.mp ho' with ho' | ho'
    · have hlt := hbelow o' ho' i hi
      have hbounds := @imageOf_bounds mem free o' copied ho'
      rw [hold o' ho']
      refine (hsame _ (h.image_ne (by omega) (by omega) hobj) (Or.inl hlt)).trans
        ((hf.words o' ho' i hi).trans ?_)
      refine if_ctx_congr Iff.rfl (fun hin => ?_) fun _ => rfl
      exact (renamed_append [o] (hf.closed o' ho' i hi hin.1 hin.2)).symm
    · obtain rfl := List.mem_singleton.mp ho'
      rw [himage, if_neg (by omega)]
      refine (Function.update_of_ne (h.image_ne (by omega) (by omega) hobj) _ _).trans ?_
      rw [copyLoop_word hi (by rcases h.disjoint with hd | hd <;> omega)]
      exact hf.from_word h hobj hi (Or.inl hnew)
  · intro o' ho' i hi hlt hslot hin
    rcases List.mem_append.mp ho' with ho' | ho'
    · rw [hold o' ho'] at hlt
      exact List.mem_append_left [o] (hf.closed o' ho' i hi hlt hslot hin)
    · rw [List.mem_singleton.mp ho', himage] at hlt
      omega
  · intro a hout hmem
    rw [List.mem_append, List.mem_singleton, not_or] at hmem
    refine (hsame a hmem.2 ?_).trans (hf.same a hout hmem.1)
    rcases hout with hout | hout <;> omega

/-- **`gc_copy_object` copies an object that is reached at most once**, and answers where its
copy lies. -/
theorem Fingers.copyObject {copied : List Nat} {scanned o : Nat} {s : Space}
    (hf : Fingers mem fromStart fromEnd free toEnd roots copied scanned s)
    (h : Ready mem fromStart fromEnd free toEnd objs roots)
    (ho : Reachable mem fromStart fromEnd roots o) (hscanned : scanned ≤ s.free) :
    ∃ more s', gcCopyObject toEnd o s = some (imageOf mem free (copied ++ more) o, s') ∧
      objectCopied o s = more ∧
      Fingers mem fromStart fromEnd free toEnd roots (copied ++ more) scanned s' ∧
      o ∈ copied ++ more := by
  have hobj := h.obj ho
  unfold gcCopyObject
  by_cases hmem : o ∈ copied
  · have haligned := @imageOf_aligned mem free o copied h.aligned
    have hnone : objectCopied o s = [] := if_pos (by rw [hf.forwarded o hmem]; omega)
    refine ⟨[], s, ?_, hnone, by rw [List.append_nil]; exact hf, by rw [List.append_nil]; exact hmem⟩
    simp only [hf.forwarded o hmem]
    rw [if_pos (by omega), List.append_nil, Nat.add_sub_cancel]
  · have hwords := three_le_totalWords mem o
    have hclass := hf.from_word h hobj (by omega : 0 < Gc.totalWords mem o) (Or.inl hmem)
    have htag := h.heap.classTag o hobj
    have hroom := h.room (copied ++ [o]) (nodup_concat hf.nodup hmem) (hf.reached_concat ho)
    rw [bytesOf_append, bytesOf_cons, ← Nat.add_assoc, ← hf.top] at hroom
    have hroom' : s.free + 8 * Gc.totalWords mem o ≤ toEnd := hroom
    rw [Nat.mul_zero, Nat.add_zero] at hclass
    have hone : objectCopied o s = [o] := if_neg (by rw [hclass]; omega)
    refine ⟨[o], _, ?_, hone, hf.newCopy h ho hmem hscanned hroom', by simp⟩
    rw [imageOf_append_self [] hmem, ← hf.top, hf.totalWords h hobj]
    simp only [hclass]
    rw [if_neg (by omega), if_neg (by omega)]

/-! ## §4. Scanning. -/

/-- The finger moves past a word that has become what it should. -/
theorem Fingers.advance {copied : List Nat} {scanned o i : Nat} {s : Space} {mem' : Nat → Nat}
    (hf : Fingers mem fromStart fromEnd free toEnd roots copied scanned s)
    (h : Ready mem fromStart fromEnd free toEnd objs roots) (ho : o ∈ copied)
    (hi : i < Gc.totalWords mem o) (hat : scanned = imageOf mem free copied o + 8 * i)
    (hword : mem' scanned = if IsSlot mem o i then
      renamed mem fromStart fromEnd free copied (mem (o + 8 * i)) else mem (o + 8 * i))
    (hother : ∀ a, a ≠ scanned → mem' a = s.mem a)
    (hclosed : IsSlot mem o i → inFromSpace fromStart fromEnd (mem (o + 8 * i)) = true →
      mem (o + 8 * i) ∈ copied) :
    Fingers mem fromStart fromEnd free toEnd roots copied (scanned + 8) { s with mem := mem' } := by
  have hbounds := @imageOf_bounds mem free o copied ho
  have hfits := hf.fits h
  have haligned := fun o' => @imageOf_aligned mem free o' copied h.aligned
  have hsplit : ∀ o' ∈ copied, ∀ i' < Gc.totalWords mem o',
      o' = o ∧ i' = i ∨ imageOf mem free copied o' + 8 * i' ≠ scanned := by
    intro o' ho' i' hi'
    by_cases hsame : imageOf mem free copied o' + 8 * i' = scanned
    · exact Or.inl (imageOf_word_inj ho' ho hi' hi (hsame.trans hat))
    · exact Or.inr hsame
  refine ⟨hf.nodup, hf.reached, hf.top, fun o' ho' => ?_, fun o' ho' i' hi' => ?_,
    fun o' ho' i' hi' hlt hslot hin => ?_, fun a hout hmem => ?_⟩
  · refine (hother o' ?_).trans (hf.forwarded o' ho')
    exact (h.image_ne (by omega) (by omega) (h.obj (hf.reached o' ho'))).symm
  · rcases hsplit o' ho' i' hi' with ⟨rfl, rfl⟩ | hne
    · rw [← hat]
      refine hword.trans (if_congr ?_ rfl rfl)
      exact ⟨fun hslot => ⟨by omega, hslot⟩, fun hin => hin.2⟩
    · have ho8 := haligned o'
      have hs8 := haligned o
      refine (hother _ hne).trans ((hf.words o' ho' i' hi').trans (if_congr ?_ rfl rfl))
      exact and_congr_left fun _ => by omega
  · rcases hsplit o' ho' i' hi' with ⟨rfl, rfl⟩ | hne
    · exact hclosed hslot hin
    · have ho8 := haligned o'
      have hs8 := haligned o
      exact hf.closed o' ho' i' hi' (by omega) hslot hin
  · refine (hother a ?_).trans (hf.same a hout hmem)
    rcases hout with hout | hout <;> omega

/-- Words that are no references are passed as they are. -/
theorem Fingers.skip {copied : List Nat} {o i : Nat} {s : Space} (n : Nat)
    (hf : Fingers mem fromStart fromEnd free toEnd roots copied
      (imageOf mem free copied o + 8 * i) s)
    (h : Ready mem fromStart fromEnd free toEnd objs roots) (ho : o ∈ copied)
    (hn : i + n ≤ Gc.totalWords mem o) (hnone : ∀ j, i ≤ j → j < i + n → ¬IsSlot mem o j) :
    Fingers mem fromStart fromEnd free toEnd roots copied
      (imageOf mem free copied o + 8 * (i + n)) s := by
  induction n generalizing i with
  | zero => exact hf
  | succ n ih =>
    have hi : i < Gc.totalWords mem o := by omega
    have hslot : ¬IsSlot mem o i := hnone i (Nat.le_refl i) (by omega)
    have hword := hf.words o ho i hi
    rw [if_neg fun hin => hslot hin.2] at hword
    have hnext : Fingers mem fromStart fromEnd free toEnd roots copied _ { s with mem := s.mem } :=
      hf.advance h ho hi rfl (by rw [if_neg hslot]; exact hword) (fun _ _ => rfl)
        fun hin => absurd hin hslot
    rw [Nat.add_assoc, ← Nat.mul_succ] at hnext
    have hrest := ih hnext (by omega) fun j hlo hhi => hnone j (by omega) (by omega)
    rw [show i + 1 + n = i + (n + 1) by omega] at hrest
    exact hrest

/-- **A reference in a copy is renamed**, and what it refers to copied before. -/
theorem Fingers.scanWord {copied : List Nat} {o i : Nat} {s : Space}
    (hf : Fingers mem fromStart fromEnd free toEnd roots copied
      (imageOf mem free copied o + 8 * i) s)
    (h : Ready mem fromStart fromEnd free toEnd objs roots) (ho : o ∈ copied)
    (hi : i < Gc.totalWords mem o) (hslot : IsSlot mem o i) :
    ∃ more s', scanWord fromStart fromEnd toEnd (imageOf mem free copied o + 8 * i) s = some s' ∧
      wordCopied fromStart fromEnd (imageOf mem free copied o + 8 * i) s = more ∧
      Fingers mem fromStart fromEnd free toEnd roots (copied ++ more)
        (imageOf mem free copied o + 8 * (i + 1)) s' := by
  have hword := hf.words o ho i hi
  have hbounds := @imageOf_bounds mem free o copied ho
  have htop := hf.top
  rw [if_neg fun hin => absurd hin.1 (Nat.lt_irrefl _)] at hword
  unfold Gc.scanWord wordCopied
  rw [hword]
  by_cases hin : inFromSpace fromStart fromEnd (mem (o + 8 * i)) = true
  · have hreached : Reachable mem fromStart fromEnd roots (mem (o + 8 * i)) :=
      .slot (hf.reached o ho) ⟨i, hi, hslot, rfl, hin⟩
    obtain ⟨more, s', hcopy, hcopied, hf', hmem⟩ := hf.copyObject h hreached (by omega)
    have himage := @imageOf_append_of_mem mem free o copied more ho
    have hstored : Function.update s'.mem (imageOf mem free copied o + 8 * i)
          (imageOf mem free (copied ++ more) (mem (o + 8 * i))) (imageOf mem free copied o + 8 * i)
        = if IsSlot mem o i then
            renamed mem fromStart fromEnd free (copied ++ more) (mem (o + 8 * i))
          else mem (o + 8 * i) := by
      rw [if_pos hslot, renamed, if_pos hin]
      exact Function.update_self _ _ _
    have hnext := hf'.advance h (List.mem_append_left more ho) hi (by rw [himage]) hstored
      (fun a hne => Function.update_of_ne hne _ _) fun _ _ => hmem
    refine ⟨more, _, by rw [if_pos hin, hcopy]; rfl, by rw [if_pos hin, hcopied], ?_⟩
    rw [Nat.mul_succ, ← Nat.add_assoc]
    exact hnext
  · refine ⟨[], s, if_neg hin, if_neg hin, ?_⟩
    have hnext : Fingers mem fromStart fromEnd free toEnd roots copied _ { s with mem := s.mem } :=
      hf.advance h ho hi rfl ?_ (fun _ _ => rfl) fun _ hin' => absurd hin' hin
    · rw [List.append_nil, Nat.mul_succ, ← Nat.add_assoc]
      exact hnext
    · rw [if_pos hslot, renamed, if_neg hin]
      exact hword

/-- The fields from one on. -/
theorem Fingers.scanFields {copied : List Nat} {o index : Nat} {s : Space} (n : Nat)
    (hf : Fingers mem fromStart fromEnd free toEnd roots copied
      (imageOf mem free copied o + 8 * (index + 3)) s)
    (h : Ready mem fromStart fromEnd free toEnd objs roots) (ho : o ∈ copied)
    (hn : index + 3 + n ≤ Gc.totalWords mem o) (hformat : mem (o + 8) ≠ formatBytes) :
    ∃ more s',
      scanFields fromStart fromEnd toEnd (imageOf mem free copied o) n index s = some s' ∧
      fieldsCopied fromStart fromEnd toEnd (imageOf mem free copied o) n index s = more ∧
      Fingers mem fromStart fromEnd free toEnd roots (copied ++ more)
        (imageOf mem free copied o + 8 * (index + 3 + n)) s' := by
  induction n generalizing copied index s with
  | zero => exact ⟨[], s, rfl, rfl, by rw [List.append_nil]; exact hf⟩
  | succ n ih =>
    obtain ⟨more, s₁, hscan, hcopied, hf₁⟩ := hf.scanWord h ho (by omega) (Or.inr ⟨by omega, hformat⟩)
    have himage := @imageOf_append_of_mem mem free o copied more ho
    rw [← himage, show index + 3 + 1 = index + 1 + 3 by omega] at hf₁
    obtain ⟨more', s₂, hrest, hcopied', hf₂⟩ := ih hf₁ (List.mem_append_left more ho) (by omega)
    rw [himage] at hrest hcopied' hf₂
    refine ⟨more ++ more', s₂, ?_, ?_, ?_⟩
    · rw [Gc.scanFields, hscan, Option.bind_eq_bind, Option.bind_some]
      exact hrest
    · rw [fieldsCopied, hscan, Option.elim_some, hcopied, hcopied']
    · rw [← List.append_assoc, show index + 3 + (n + 1) = index + 1 + 3 + n by omega]
      exact hf₂

/-- The format and the size of a copy. -/
theorem Fingers.header {copied : List Nat} {scanned o : Nat} {s : Space}
    (hf : Fingers mem fromStart fromEnd free toEnd roots copied scanned s) (ho : o ∈ copied) :
    s.mem (imageOf mem free copied o + 8) = mem (o + 8) ∧
      s.mem (imageOf mem free copied o + 16) = mem (o + 16) := by
  have hwords := three_le_totalWords mem o
  have hformat := hf.words o ho 1 (by omega)
  have hsize := hf.words o ho 2 (by omega)
  rw [if_neg fun hin => by rcases hin.2 with h | h <;> omega] at hformat hsize
  exact ⟨hformat, hsize⟩

/-- **A copy is scanned** to its end. -/
theorem Fingers.scanObject {copied : List Nat} {o : Nat} {s : Space}
    (hf : Fingers mem fromStart fromEnd free toEnd roots copied (imageOf mem free copied o) s)
    (h : Ready mem fromStart fromEnd free toEnd objs roots) (ho : o ∈ copied) :
    ∃ more s', scanObject fromStart fromEnd toEnd (imageOf mem free copied o) s = some s' ∧
      scanCopied fromStart fromEnd toEnd (imageOf mem free copied o) s = more ∧
      Fingers mem fromStart fromEnd free toEnd roots (copied ++ more)
        (imageOf mem free copied o + 8 * Gc.totalWords mem o) s' := by
  have hwords := three_le_totalWords mem o
  obtain ⟨more, s₁, hclass, hcopied, hf₁⟩ :=
    Fingers.scanWord (i := 0) hf h ho (by omega) (Or.inl rfl)
  have himage := @imageOf_append_of_mem mem free o copied more ho
  have ho₁ := List.mem_append_left more ho
  have hformat := (hf₁.header ho₁).1
  have hsize := (hf.header ho).2
  rw [himage] at hformat
  rw [← himage] at hf₁
  unfold Gc.scanObject scanCopied
  rw [Nat.mul_zero, Nat.add_zero] at hclass hcopied
  simp only [hclass, Option.bind_eq_bind, Option.bind_some, Option.elim_some, hformat, hsize,
    hcopied]
  -- the format and the size are no references, nor is the body of a bytes object
  by_cases hbytes : mem (o + 8) = formatBytes
  · refine ⟨more, s₁, if_pos hbytes, by rw [if_pos hbytes, List.append_nil], ?_⟩
    have hskip := hf₁.skip (Gc.totalWords mem o - 1) h ho₁ (by omega) fun j hlo _ hslot => by
      rcases hslot with hslot | hslot
      · omega
      · exact hslot.2 hbytes
    rw [himage, Nat.zero_add, Nat.add_sub_cancel' (by omega)] at hskip
    exact hskip
  · have htotal : Gc.totalWords mem o = mem (o + 16) + 3 := if_neg hbytes
    have hskip := hf₁.skip 2 h ho₁ (by omega) fun j hlo hhi hslot => by
      rcases hslot with hslot | hslot <;> omega
    have hfield : Fingers mem fromStart fromEnd free toEnd roots (copied ++ more)
        (imageOf mem free (copied ++ more) o + 8 * (0 + 3)) s₁ := hskip
    obtain ⟨more', s₂, hfields, hcopied', hf₂⟩ :=
      hfield.scanFields (mem (o + 16)) h ho₁ (by omega) hbytes
    rw [himage] at hfields hcopied' hf₂
    refine ⟨more ++ more', s₂, (if_neg hbytes).trans hfields, ?_, ?_⟩
    · rw [if_neg hbytes, hcopied']
    rw [← List.append_assoc, htotal, Nat.add_comm (mem (o + 16))]
    exact hf₂

/-- **The scan catches up**: `done` are the objects scanned, and the induction is on what
is left of to-space. -/
theorem Fingers.scanLoop {done todo : List Nat} {s : Space} (fuel : Nat)
    (hf : Fingers mem fromStart fromEnd free toEnd roots (done ++ todo)
      (free + bytesOf mem done) s)
    (h : Ready mem fromStart fromEnd free toEnd objs roots)
    (hfuel : toEnd - (free + bytesOf mem done) < fuel) :
    ∃ more s', scanLoop fromStart fromEnd toEnd fuel (free + bytesOf mem done) s = some s' ∧
      loopCopied fromStart fromEnd toEnd fuel (free + bytesOf mem done) s = more ∧
      Fingers mem fromStart fromEnd free toEnd roots (done ++ todo ++ more) s'.free s' := by
  induction fuel generalizing done todo s with
  | zero => exact absurd hfuel (Nat.not_lt_zero _)
  | succ fuel ih =>
    have htop := hf.top
    have hfits := hf.fits h
    rw [bytesOf_append] at htop hfits
    cases todo with
    | nil =>
      have hnil : bytesOf mem [] = 0 := rfl
      have hmet : s.free = free + bytesOf mem done := by omega
      refine ⟨[], s, if_pos (Nat.le_of_eq hmet), if_pos (Nat.le_of_eq hmet), ?_⟩
      rw [List.append_nil, hmet]
      exact hf
    | cons o rest =>
      have hwords := three_le_totalWords mem o
      rw [bytesOf_cons] at htop hfits
      have hnew : o ∉ done := fun hmem =>
        (List.nodup_append.mp hf.nodup).2.2 o hmem o List.mem_cons_self rfl
      have himage : imageOf mem free (done ++ o :: rest) o = free + bytesOf mem done :=
        imageOf_append_self rest hnew
      have ho : o ∈ done ++ o :: rest := by simp
      rw [← himage] at hf
      obtain ⟨more, s₁, hscan, hcopied, hf₁⟩ := hf.scanObject h ho
      have hsize := (hf.header ho).2
      have hformat := (hf₁.header (List.mem_append_left more ho)).1
      rw [imageOf_append_of_mem more ho] at hformat
      rw [himage] at hscan hcopied hf₁ hsize hformat
      have hbytes : free + bytesOf mem done + 8 * Gc.totalWords mem o
          = free + bytesOf mem (done ++ [o]) := by
        rw [bytesOf_append, bytesOf_cons, Nat.add_assoc]
        rfl
      have hlist : done ++ o :: rest ++ more = (done ++ [o]) ++ (rest ++ more) := by simp
      rw [hbytes, hlist] at hf₁
      obtain ⟨more', s₂, hloop, hcopied', hf₂⟩ := ih hf₁ (by omega)
      refine ⟨more ++ more', s₂, ?_, ?_, ?_⟩
      · rw [Gc.scanLoop, if_neg (by omega), hscan, Option.bind_eq_bind, Option.bind_some, hsize,
          hformat]
        rw [← hbytes] at hloop
        exact hloop
      · rw [← hbytes] at hcopied'
        rw [loopCopied, if_neg (by omega), hscan, Option.elim_some, hcopied, hsize, hformat]
        exact congrArg (more ++ ·) hcopied'
      · have hwhole : done ++ o :: rest ++ (more ++ more') = done ++ [o] ++ (rest ++ more) ++ more' := by
          simp
        rw [hwhole]
        exact hf₂

/-- A root is copied, or left. -/
theorem Fingers.copyRoot {copied : List Nat} {r : Nat} {s : Space}
    (hf : Fingers mem fromStart fromEnd free toEnd roots copied free s)
    (h : Ready mem fromStart fromEnd free toEnd objs roots) (hr : r ∈ roots) :
    ∃ more s', copyRoot fromStart fromEnd toEnd r s
        = some (renamed mem fromStart fromEnd free (copied ++ more) r, s') ∧
      rootCopied fromStart fromEnd r s = more ∧
      Fingers mem fromStart fromEnd free toEnd roots (copied ++ more) free s' ∧
      (inFromSpace fromStart fromEnd r = true → r ∈ copied ++ more) := by
  have htop := hf.top
  unfold Gc.copyRoot rootCopied
  by_cases hin : inFromSpace fromStart fromEnd r = true
  · obtain ⟨more, s', hcopy, hcopied, hf', hmem⟩ := hf.copyObject h (.root hr hin) (by omega)
    refine ⟨more, s', ?_, by rw [if_pos hin, hcopied], hf', fun _ => hmem⟩
    rw [if_pos hin, hcopy, renamed, if_pos hin]
  · refine ⟨[], s, ?_, if_neg hin, by rw [List.append_nil]; exact hf,
      fun hin' => absurd hin' hin⟩
    rw [if_neg hin, renamed, if_neg hin]

/-- **The roots are copied** and renamed. -/
theorem Fingers.rootsLoop {copied rest : List Nat} {s : Space}
    (hf : Fingers mem fromStart fromEnd free toEnd roots copied free s)
    (h : Ready mem fromStart fromEnd free toEnd objs roots) (hrest : ∀ r ∈ rest, r ∈ roots) :
    ∃ more s', rootsLoop fromStart fromEnd toEnd rest s
        = some (rest.map (renamed mem fromStart fromEnd free (copied ++ more)), s') ∧
      rootsCopied fromStart fromEnd toEnd rest s = more ∧
      Fingers mem fromStart fromEnd free toEnd roots (copied ++ more) free s' ∧
      ∀ r ∈ rest, inFromSpace fromStart fromEnd r = true → r ∈ copied ++ more := by
  induction rest generalizing copied s with
  | nil => exact ⟨[], s, rfl, rfl, by rw [List.append_nil]; exact hf, fun r hr => nomatch hr⟩
  | cons r rest ih =>
    obtain ⟨more, s₁, hfirst, hcopied, hf₁, hmem⟩ := hf.copyRoot h (hrest r List.mem_cons_self)
    obtain ⟨more', s₂, hloop, hcopied', hf₂, hall⟩ :=
      ih hf₁ fun x hx => hrest x (List.mem_cons_of_mem r hx)
    refine ⟨more ++ more', s₂, ?_, ?_, ?_, ?_⟩
    · rw [Gc.rootsLoop, hfirst, List.map_cons, ← List.append_assoc, renamed_append more' hmem]
      simp only [Option.bind_eq_bind, Option.bind_some, hloop]
      rfl
    · rw [rootsCopied, hfirst, Option.elim_some, hcopied, hcopied']
    · rw [← List.append_assoc]
      exact hf₂
    · intro x hx hin
      rw [← List.append_assoc]
      rcases List.mem_cons.mp hx with rfl | hx
      · exact List.mem_append_left more' (hmem hin)
      · exact hall x hx hin

/-! ## §5. The collection. -/

/-- What a collection leaves: the reachable objects, each once, lie one after the other from
the old free pointer on, their references and the roots renamed. -/
structure Collected (mem : Nat → Nat) (fromStart fromEnd free toEnd : Nat) (roots : List Nat)
    (copied : List Nat) (roots' : List Nat) (s' : Space) : Prop where
  nodup : copied.Nodup
  reachable : ∀ o, o ∈ copied ↔ Reachable mem fromStart fromEnd roots o
  injective : ∀ o ∈ copied, ∀ o' ∈ copied,
    imageOf mem free copied o = imageOf mem free copied o' → o = o'
  top : s'.free = free + bytesOf mem copied
  fits : s'.free ≤ toEnd
  roots : roots' = roots.map (renamed mem fromStart fromEnd free copied)
  words : ∀ o ∈ copied, ∀ i < Gc.totalWords mem o, s'.mem (imageOf mem free copied o + 8 * i)
    = if IsSlot mem o i then renamed mem fromStart fromEnd free copied (mem (o + 8 * i))
      else mem (o + 8 * i)
  closed : ∀ o ∈ copied, ∀ i < Gc.totalWords mem o, IsSlot mem o i →
    inFromSpace fromStart fromEnd (mem (o + 8 * i)) = true → mem (o + 8 * i) ∈ copied
  same : ∀ a, a < free ∨ toEnd ≤ a → a ∉ copied → s'.mem a = mem a

/-- Before the collection nothing is copied. -/
theorem Fingers.initial :
    Fingers mem fromStart fromEnd free toEnd roots [] free ⟨mem, free⟩ where
  nodup := List.nodup_nil
  reached _ ho := absurd ho List.not_mem_nil
  top := rfl
  forwarded _ ho := absurd ho List.not_mem_nil
  words _ ho := absurd ho List.not_mem_nil
  closed _ ho := absurd ho List.not_mem_nil
  same _ _ _ := rfl

/-- When the scan has caught up, what is reached is copied. -/
theorem Fingers.complete {copied : List Nat} {s : Space}
    (hf : Fingers mem fromStart fromEnd free toEnd roots copied s.free s)
    (hroots : ∀ r ∈ roots, inFromSpace fromStart fromEnd r = true → r ∈ copied) {o : Nat}
    (ho : Reachable mem fromStart fromEnd roots o) : o ∈ copied := by
  induction ho with
  | root hroot hin => exact hroots _ hroot hin
  | slot _ href ih =>
    obtain ⟨i, hi, hslot, rfl, hin⟩ := href
    have hbounds := @imageOf_bounds mem free _ copied ih
    have htop := hf.top
    exact hf.closed _ ih i hi (by omega) hslot hin

/-- What the invariant says when the scan has caught up. -/
theorem Fingers.collected {copied : List Nat} {s : Space}
    (hf : Fingers mem fromStart fromEnd free toEnd roots copied s.free s)
    (h : Ready mem fromStart fromEnd free toEnd objs roots)
    (hroots : ∀ r ∈ roots, inFromSpace fromStart fromEnd r = true → r ∈ copied) :
    Collected mem fromStart fromEnd free toEnd roots copied
      (roots.map (renamed mem fromStart fromEnd free copied)) s := by
  have htop := hf.top
  have hbelow : ∀ o ∈ copied, ∀ i < Gc.totalWords mem o,
      imageOf mem free copied o + 8 * i < s.free := by
    intro o ho i hi
    have hbounds := @imageOf_bounds mem free o _ ho
    omega
  refine ⟨hf.nodup, fun o => ⟨hf.reached o, hf.complete hroots⟩, fun o ho o' ho' heq => ?_, htop,
    ?_, rfl, fun o ho i hi => ?_,
    fun o ho i hi hslot => hf.closed o ho i hi (hbelow o ho i hi) hslot, hf.same⟩
  · have hwords := three_le_totalWords mem o
    have hwords' := three_le_totalWords mem o'
    exact (imageOf_word_inj ho ho' (by omega : 0 < _) (by omega : 0 < _)
      (congrArg (· + 8 * 0) heq)).1
  · rw [htop]
    exact hf.fits h
  · refine (hf.words o ho i hi).trans (if_congr ?_ rfl rfl)
    exact and_iff_right (hbelow o ho i hi)

/-- The two phases of a collection. -/
theorem Ready.gcCollect_fingers (h : Ready mem fromStart fromEnd free toEnd objs roots) :
    ∃ copied s', gcCollect fromStart fromEnd toEnd roots ⟨mem, free⟩
        = some (roots.map (renamed mem fromStart fromEnd free copied), s') ∧
      gcCopied fromStart fromEnd toEnd roots ⟨mem, free⟩ = copied ∧
      Fingers mem fromStart fromEnd free toEnd roots copied s'.free s' ∧
      ∀ r ∈ roots, inFromSpace fromStart fromEnd r = true → r ∈ copied := by
  obtain ⟨first, s₁, hloop, hfirst, hf₁, hroots⟩ := Fingers.initial.rootsLoop h fun _ hr => hr
  rw [List.nil_append] at hloop hf₁ hroots
  have hstart : Fingers mem fromStart fromEnd free toEnd roots ([] ++ first)
      (free + bytesOf mem []) s₁ := hf₁
  obtain ⟨more, s₂, hscan, hmore, hf₂⟩ := hstart.scanLoop (toEnd + 1) h (by omega)
  rw [List.nil_append] at hf₂
  refine ⟨first ++ more, s₂, ?_, ?_, hf₂,
    fun r hr hin => List.mem_append_left more (hroots r hr hin)⟩
  · have hscan' : Gc.scanLoop fromStart fromEnd toEnd (toEnd + 1) free s₁ = some s₂ := hscan
    unfold gcCollect
    rw [hloop]
    simp only [hscan', Option.bind_eq_bind, Option.bind_some]
    refine congrArg (fun l => some (l, s₂)) (List.map_congr_left fun r hr => ?_)
    exact (renamed_append more (hroots r hr)).symm
  · unfold gcCopied
    rw [hloop, hfirst]
    exact congrArg (first ++ ·) hmore

/-- **`gc_collect` copies exactly the reachable subgraph.** -/
theorem gcCollect_correct (h : Ready mem fromStart fromEnd free toEnd objs roots) :
    ∃ copied roots' s', gcCollect fromStart fromEnd toEnd roots ⟨mem, free⟩ = some (roots', s') ∧
      Collected mem fromStart fromEnd free toEnd roots copied roots' s' := by
  obtain ⟨copied, s', hrun, _, hf, hroots⟩ := h.gcCollect_fingers
  exact ⟨copied, _, s', hrun, hf.collected h hroots⟩

end Run

/-! ## §6. Room. -/

/-- A list without repetitions takes no more than one that contains it. -/
theorem bytesOf_le_of_subset {mem : Nat → Nat} {l all : List Nat} (hl : l.Nodup)
    (hsub : ∀ o ∈ l, o ∈ all) : bytesOf mem l ≤ bytesOf mem all := by
  induction l generalizing all with
  | nil => exact Nat.zero_le _
  | cons o l ih =>
    have hperm := List.perm_cons_erase (hsub o List.mem_cons_self)
    have hbytes : bytesOf mem all = bytesOf mem (o :: all.erase o) := (hperm.map _).sum_nat
    rw [hbytes, bytesOf_cons, bytesOf_cons]
    refine Nat.add_le_add_left (ih (List.nodup_cons.mp hl).2 fun x hx => ?_) _
    have hne : x ≠ o := fun h => (List.nodup_cons.mp hl).1 (h ▸ hx)
    exact (List.mem_erase_of_ne hne).mpr (hsub x (List.mem_cons_of_mem o hx))

/-- A to-space that could take the whole of from-space has room. -/
theorem ready_of_objects {mem : Nat → Nat} {fromStart fromEnd free toEnd : Nat} (all : List Nat)
    {roots : List Nat} (hheap : WellFormed mem fromStart fromEnd (· ∈ all))
    (hroots : ∀ r ∈ roots, ValidWord fromStart fromEnd (· ∈ all) r) (hfree : free % 8 = 0)
    (hdisjoint : fromEnd ≤ free ∨ toEnd ≤ fromStart) (hroom : free + bytesOf mem all ≤ toEnd) :
    Ready mem fromStart fromEnd free toEnd (· ∈ all) roots where
  heap := hheap
  validRoots := hroots
  aligned := hfree
  disjoint := hdisjoint
  room l hl hreached :=
    Nat.le_trans (Nat.add_le_add_left
      (bytesOf_le_of_subset hl fun o ho => hheap.reachable hroots (hreached o ho)) free) hroom

/-- An object at 64 whose fields are itself and the string at 104, its class too. -/
def cyclicHeap (a : Nat) : Nat := [104, 0, 2, 64, 104, 0, 2, 5, 77].getD ((a - 64) / 8) 0

theorem cyclicHeap_wellFormed : WellFormed cyclicHeap 64 136 (· ∈ [64, 104]) := by
  refine ⟨?_, ?_, fun o o' ho ho' hne => ?_, ?_, ?_⟩
  · show ∀ o ∈ [64, 104], o % 8 = 0
    decide
  · show ∀ o ∈ [64, 104], 64 ≤ o ∧ o + 8 * totalWords cyclicHeap o ≤ 136
    decide
  · simp only [List.mem_cons, List.not_mem_nil, or_false] at ho ho'
    rcases ho with rfl | rfl <;> rcases ho' with rfl | rfl
    · exact absurd rfl hne
    · decide
    · decide
    · exact absurd rfl hne
  · show ∀ o ∈ [64, 104], cyclicHeap o % 4 = 0
    decide
  · show ∀ o ∈ [64, 104], ∀ i < totalWords cyclicHeap o, IsSlot cyclicHeap o i →
      inFromSpace 64 136 (cyclicHeap (o + 8 * i)) = true → cyclicHeap (o + 8 * i) ∈ [64, 104]
    decide

theorem cyclicHeap_collected :
    ∃ copied roots' s', gcCollect 64 136 2048 [64, 5] ⟨cyclicHeap, 1024⟩ = some (roots', s') ∧
      Collected cyclicHeap 64 136 1024 2048 [64, 5] copied roots' s' := by
  have hroots : ∀ r ∈ [64, 5], inFromSpace 64 136 r = true → r ∈ [64, 104] := by decide
  exact gcCollect_correct (ready_of_objects [64, 104] cyclicHeap_wellFormed hroots rfl (Or.inl (by decide))
    (by decide))

end LivingObjects.Gc
