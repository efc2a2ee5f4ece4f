/-
  LivingObjects.Stack.SenderChain — contexts for a chain of frames when memory runs out.

  `ensure_frame_context_with_sp` allocates the context of a frame before it turns to the
  caller's frame, and takes a `NULL` from there for the end of the chain.  The frames
  are in the words of the stack, the contexts in the bytes of the object memory, and
  each allocation is an `om_alloc` that may fail.
-/
import Mathlib
import LivingObjects.ObjectMemory.Bodies
import LivingObjects.Stack.Frame

namespace LivingObjects.SenderChain

open LivingObjects.Lib
open LivingObjects.VM
open LivingObjects.ObjectMemory
open LivingObjects.Stack (CompiledMethod frameSavedIp frameSavedFp frameMethod frameFlags
  frameContext frameReceiver frameTemp frameNumArgs frameArg frameHasContext
  frameHasBlockClosure contextIpForFrame taggedSmallint)

/-! ## §1. The code. -/

/-- `CONTEXT_SENDER`. -/
def contextSender : Nat := 0

/-- `CONTEXT_VAR_BASE`. -/
def contextVarBase : Nat := 10

/-- `BLOCK_HOME_CONTEXT`. -/
def blockHomeContext : Nat := 0

/-- A request for an object of `n` fields. -/
def fieldsRequest (classPtr : Oop) (n : Nat) (h : 8 * (3 + n) ≤ 2 ^ 63) : AllocRequest where
  classPtr := classPtr
  format := formatFields
  size := UInt64.ofNat n
  roundsUp := fun hf => absurd hf (by decide)
  fits := by
    show 8 * (3 + (UInt64.ofNat n).toNat) ≤ 2 ^ 63
    rw [toNat_ofNat64 (by omega)]
    exact h

/-- `om_alloc` of an object of `n` fields. -/
def omAllocFields (h : Heap) (classPtr : Oop) (n : Nat) : Option (Nat × Heap) :=
  if hfits : 8 * (3 + n) ≤ 2 ^ 63 then omAlloc h (fieldsRequest classPtr n hfits) else none

/-- Fields stored from the first on. -/
def storeFields (m : Mem) (obj : Nat) (values : List UInt64) : Mem :=
  values.zipIdx.foldl (fun m p => setObjField m obj p.2 p.1) m

section Code

variable (code : Nat → CompiledMethod)

/-- `base_sp`. -/
def baseSp (mem : Nat → Nat) (fp : Nat) : Nat :=
  let numTemps := (code (frameMethod mem fp)).numTemps
  if numTemps = 0 then fp - 4 else fp - (5 + (numTemps - 1))

/-- `effective_sp`; no `sp` is `NULL`. -/
def effectiveSp (sp : Option Nat) (mem : Nat → Nat) (fp : Nat) : Nat :=
  match sp with
  | some sp => if baseSp code mem fp < sp then baseSp code mem fp else sp
  | none => baseSp code mem fp

/-- `stack_depth`. -/
def stackDepth (sp : Option Nat) (mem : Nat → Nat) (fp : Nat) : Nat :=
  baseSp code mem fp - effectiveSp code sp mem fp

/-- `field_count`. -/
def fieldCount (sp : Option Nat) (mem : Nat → Nat) (fp : Nat) : Nat :=
  contextVarBase + frameNumArgs mem fp + (code (frameMethod mem fp)).numTemps
    + stackDepth code sp mem fp

/-- The words stored in the new context, in the order of its fields.  `mem` is the
stack before the callers' frames are visited and `mem'` after that. -/
def contextFields (sp : Option Nat) (fp : Nat) (mem mem' : Nat → Nat) (m : Mem) (sender : Nat) :
    List UInt64 :=
  let closure := if frameHasBlockClosure mem fp then frameContext mem fp else 0
  let numArgs := frameNumArgs mem fp
  let numTemps := (code (frameMethod mem fp)).numTemps
  let depth := stackDepth code sp mem fp
  [ if sender = 0 then taggedNil else UInt64.ofNat sender,
    UInt64.ofNat (contextIpForFrame code mem' fp),
    UInt64.ofNat (frameMethod mem fp),
    UInt64.ofNat (frameReceiver mem' fp),
    if closure = 0 then taggedNil else objField m closure blockHomeContext,
    if closure = 0 then taggedNil else UInt64.ofNat closure,
    UInt64.ofNat (taggedSmallint (frameFlags mem' fp)),
    UInt64.ofNat (taggedSmallint numArgs),
    UInt64.ofNat (taggedSmallint numTemps),
    UInt64.ofNat (taggedSmallint depth) ]
  ++ ((List.range numArgs).map (fun i => UInt64.ofNat (frameArg mem' fp i))
  ++ ((List.range numTemps).map (fun i => UInt64.ofNat (frameTemp mem' fp i))
  ++ (List.range depth).map (fun i => UInt64.ofNat (mem' (effectiveSp code sp mem fp + i)))))

/-- The frame is given its context. -/
def marryFrame (mem : Nat → Nat) (fp context : Nat) : Nat → Nat :=
  let mem := Function.update mem (fp - 3) context
  let flags := frameFlags mem fp
  Function.update mem (fp - 2) ((flags ^^^ (flags &&& 2)) ||| 1)

variable (contextClass : Oop)

/-- `ensure_frame_context_with_sp`; 0 is `NULL`, and `fuel` bounds the number of
frames. -/
def ensureFrameContextWithSp :
    Nat → Option Nat → Nat → (Nat → Nat) → Heap → Nat × (Nat → Nat) × Heap
  | 0, _, _, mem, h => (0, mem, h)
  | fuel + 1, sp, fp, mem, h =>
    if fp = 0 then (0, mem, h)
    else if frameHasContext mem fp then (frameContext mem fp, mem, h)
    else
      match omAllocFields h contextClass (fieldCount code sp mem fp) with
      | none => (0, mem, h)
      | some (context, h) =>
        -- `ensure_frame_context` of the caller
        let (sender, mem', h) := ensureFrameContextWithSp fuel none (frameSavedFp mem fp) mem h
        let m := storeFields h.mem context (contextFields code sp fp mem mem' h.mem sender)
        (context, marryFrame mem' fp context, { h with mem := m })

end Code

/-! ## §2. What it is for. -/

/-- The frames of a chain, the innermost first: each below its callers. -/
def FrameChain (mem : Nat → Nat) : Nat → List Nat → Prop
  | fp, [] => fp = 0
  | fp, f :: rest => fp = f ∧ 4 ≤ f ∧ FrameChain mem (frameSavedFp mem f) rest ∧
      ∀ g ∈ rest, f + 4 ≤ g

/-- The context of the innermost frame, nil past the outermost one. -/
def headContext (mem : Nat → Nat) : List Nat → Oop
  | [] => taggedNil
  | f :: _ => UInt64.ofNat (frameContext mem f)

/-- Every frame has a context, and the senders list the contexts in order. -/
def SendersComplete (mem : Nat → Nat) (m : Mem) : List Nat → Prop
  | [] => True
  | f :: rest => frameHasContext mem f = true ∧
      objField m (frameContext mem f) contextSender = headContext mem rest ∧
      SendersComplete mem m rest

/-- What a caller of the routine counts on: `NULL` and no frame changed, or the context
of the first frame with the chain of senders complete. -/
def FailsOrCompletes (frames : List Nat) (mem : Nat → Nat)
    (result : Nat × (Nat → Nat) × Heap) : Prop :=
  (result.1 = 0 ∧ ∀ f ∈ frames, frameContext result.2.1 f = frameContext mem f ∧
    frameFlags result.2.1 f = frameFlags mem f) ∨
  (result.1 ≠ 0 ∧ frames.head?.map (frameContext result.2.1) = some result.1 ∧
    SendersComplete result.2.1 result.2.2.mem frames)

section Condition

variable (code : Nat → CompiledMethod) (contextClass : Oop)

/-- There is room for the contexts of the frames up to the first that has one. -/
def roomForContexts (mem : Nat → Nat) : Option Nat → List Nat → Heap → Bool
  | _, [], _ => true
  | sp, f :: rest, h =>
    frameHasContext mem f ||
      match omAllocFields h contextClass (fieldCount code sp mem f) with
      | none => false
      | some (_, h) => roomForContexts mem none rest h

/-- From the first frame with a context on, the chain of senders is complete. -/
def TailComplete (mem : Nat → Nat) (m : Mem) (frames : List Nat) : Prop :=
  SendersComplete mem m (frames.dropWhile (fun f => !frameHasContext mem f))

/-- There is nothing to do, or no room for the first context. -/
def FailsAtOnce (mem : Nat → Nat) (sp : Option Nat) (frames : List Nat) (h : Heap) : Prop :=
  match frames with
  | [] => True
  | f :: _ => frameHasContext mem f = false ∧
      omAllocFields h contextClass (fieldCount code sp mem f) = none

end Condition

/-- The contexts of the frames are live objects. -/
def ContextsLive (mem : Nat → Nat) (live : Set Extent) (frames : List Nat) : Prop :=
  ∀ f ∈ frames, frameHasContext mem f = true →
    ∃ e ∈ live, e.addr = frameContext mem f ∧ 32 ≤ e.bytes

/-! ## §3. Storing the fields. -/

theorem storeFields_spec (values : List UInt64) (m : Mem) (obj : Nat) :
    (∀ i, (hi : i < values.length) → objField (storeFields m obj values) obj i = values[i]) ∧
    ∀ a, a < objFieldAddr obj 0 ∨ objFieldAddr obj values.length ≤ a →
      storeFields m obj values a = m a := by
  induction values using List.reverseRecOn with
  | nil => exact ⟨fun i hi => absurd hi (Nat.not_lt_zero i), fun _ _ => rfl⟩
  | append_singleton values v ih =>
    obtain ⟨hfields, hother⟩ := ih
    have hstep : storeFields m obj (values ++ [v])
        = setObjField (storeFields m obj values) obj values.length v := by
      unfold storeFields
      rw [List.zipIdx_append, List.foldl_append, Nat.zero_add]
      rfl
    rw [hstep]
    refine ⟨fun i hi => ?_, fun a ha => ?_⟩
    · rw [List.length_append, List.length_singleton] at hi
      rcases Nat.eq_or_lt_of_le (Nat.le_of_lt_succ hi) with rfl | hlt
      · rw [objField_setObjField_self]
        simp
      · rw [objField_setObjField_of_ne _ _ _ (by omega), hfields i hlt,
          List.getElem_append_left hlt]
    · rw [List.length_append, List.length_singleton] at ha
      unfold objFieldAddr at ha
      rw [setObjField, store64_of_out _ _ (by unfold objFieldAddr; omega)]
      exact hother a (by unfold objFieldAddr; omega)

theorem contextFields_length (code : Nat → CompiledMethod) (sp : Option Nat) (fp : Nat)
    (mem mem' : Nat → Nat) (m : Mem) (sender : Nat) :
    (contextFields code sp fp mem mem' m sender).length = fieldCount code sp mem fp := by
  unfold contextFields fieldCount contextVarBase
  simp only [List.length_append, List.length_cons, List.length_nil, List.length_map,
    List.length_range]
  omega

/-! ## §4. Frames. -/

section Frames

variable {mem mem' : Nat → Nat} {f : Nat}

theorem marryFrame_of_ne (context : Nat) {b : Nat} (hthree : b ≠ f - 3) (htwo : b ≠ f - 2) :
    marryFrame mem f context b = mem b :=
  (Function.update_of_ne htwo _ _).trans (Function.update_of_ne hthree _ _)

theorem frameHasContext_marryFrame (context : Nat) :
    frameHasContext (marryFrame mem f context) f = true := by
  unfold frameHasContext
  have hflags : frameFlags (marryFrame mem f context) f
      = (frameFlags (Function.update mem (f - 3) context) f ^^^
          (frameFlags (Function.update mem (f - 3) context) f &&& 2)) ||| 1 :=
    Function.update_self _ _ _
  rw [hflags, Nat.and_one_is_mod, Nat.or_mod_two_eq_one.mpr (.inr rfl)]
  rfl

theorem frameContext_marryFrame (context : Nat) (hf : 4 ≤ f) :
    frameContext (marryFrame mem f context) f = context := by
  unfold frameContext marryFrame
  rw [Function.update_of_ne (by omega), Function.update_self]

/-- The words of a frame that the routine looks at. -/
def SameHeader (mem mem' : Nat → Nat) (f : Nat) : Prop :=
  frameContext mem' f = frameContext mem f ∧ frameFlags mem' f = frameFlags mem f

theorem SameHeader.hasContext (h : SameHeader mem mem' f) :
    frameHasContext mem' f = frameHasContext mem f := by
  unfold frameHasContext
  rw [h.2]

theorem sendersComplete_congr {m m' : Mem} {frames : List Nat}
    (hsame : ∀ f ∈ frames, SameHeader mem mem' f)
    (hsender : ∀ f ∈ frames, frameHasContext mem f = true →
      objField m' (frameContext mem f) contextSender = objField m (frameContext mem f) contextSender) :
    SendersComplete mem' m' frames ↔ SendersComplete mem m frames := by
  induction frames with
  | nil => exact Iff.rfl
  | cons f rest ih =>
    have hf := hsame f List.mem_cons_self
    have hhead : headContext mem' rest = headContext mem rest := by
      cases rest with
      | nil => rfl
      | cons g rest =>
        show UInt64.ofNat (frameContext mem' g) = UInt64.ofNat (frameContext mem g)
        rw [(hsame g (List.mem_cons_of_mem _ List.mem_cons_self)).1]
    unfold SendersComplete
    rw [hf.hasContext, hf.1, hhead, ih (fun g hg => hsame g (List.mem_cons_of_mem _ hg))
      (fun g hg => hsender g (List.mem_cons_of_mem _ hg))]
    refine and_congr_right fun hhas => ?_
    rw [hsender f List.mem_cons_self hhas]

end Frames

/-! ## §5. What the routine does. -/

/-- What the routine leaves, whether it finds room or not. -/
structure Ensured (frames : List Nat) (mem : Nat → Nat) (h : Heap) (live : Set Extent)
    (context : Nat) (mem' : Nat → Nat) (h' : Heap) (live' : Set Extent) : Prop where
  layout : Layout h' live'
  keeps : live ⊆ live'
  same : ∀ e ∈ live, SameBytes h.mem h'.mem e
  words : ∀ b, (∀ f ∈ frames, b ≠ f - 3 ∧ b ≠ f - 2) → mem' b = mem b
  /-- The context of a frame is a live object, and an old one only if it was there. -/
  contexts : ∀ f ∈ frames, frameHasContext mem' f = true →
    ∃ e ∈ live', e.addr = frameContext mem' f ∧ 32 ≤ e.bytes ∧
      (e ∈ live → frameHasContext mem f = true ∧ frameContext mem f = e.addr)
  result : (context = 0 ∧ mem' = mem) ∨
    (context ≠ 0 ∧ ∃ f rest, frames = f :: rest ∧ frameHasContext mem' f = true ∧
      frameContext mem' f = context)

section Induction

variable {code : Nat → CompiledMethod} {contextClass : Oop} {mem : Nat → Nat} {h : Heap}
  {live : Set Extent}

/-- A routine that does nothing. -/
theorem Ensured.refl (hl : Layout h live) {frames : List Nat}
    (hcontexts : ContextsLive mem live frames) {context : Nat}
    (hresult : (context = 0 ∧ mem = mem) ∨ (context ≠ 0 ∧ ∃ f rest, frames = f :: rest ∧
      frameHasContext mem f = true ∧ frameContext mem f = context)) :
    Ensured frames mem h live context mem h live := by
  refine ⟨hl, Set.Subset.rfl, fun _ _ _ _ => rfl, fun _ _ => rfl, fun f hf hhas => ?_, hresult⟩
  obtain ⟨e, he, haddr, hroom⟩ := hcontexts f hf hhas
  exact ⟨e, he, haddr, hroom, fun _ => ⟨hhas, haddr.symm⟩⟩

/-- Where the object of an allocation lies. -/
theorem omAllocFields_some (hl : Layout h live) {n obj : Nat} {h' : Heap}
    (ha : omAllocFields h contextClass n = some (obj, h')) :
    Layout h' (insert ⟨obj, 8 * (3 + n)⟩ live) ∧ (⟨obj, 8 * (3 + n)⟩ : Extent) ∉ live ∧
      (∀ e ∈ live, e.addr ≠ obj) ∧ (∀ e ∈ live, SameBytes h.mem h'.mem e) ∧ obj ≠ 0 := by
  unfold omAllocFields at ha
  split at ha
  case isFalse => cases ha
  next hfits =>
  have htotal : (fieldsRequest contextClass n hfits).totalBytes = 8 * (3 + n) := by
    show 8 * (3 + (UInt64.ofNat n).toNat) = _
    rw [toNat_ofNat64 (by omega)]
  obtain ⟨hlayout, hunused, -, -⟩ := omAlloc_layout hl ha
  obtain ⟨-, hlo, -⟩ := omAlloc_scan ha
  rw [htotal] at hlayout hunused
  have haddr : ∀ e ∈ live, e.addr ≠ obj := by
    intro e he
    have hside := below_or_above hl (by omega) hunused he
    have hsize := (hl.objects e he).nonempty
    omega
  have habove := (hlayout.objects _ (Set.mem_insert _ _)).above
  have hfirst := hlayout.placed.aboveFirstPage
  unfold pageBytes at hfirst
  simp only at habove
  exact ⟨hlayout, fun hin => haddr _ hin rfl, haddr, fun e he => omAlloc_sameBytes hl ha he,
    by omega⟩

/-- The address of a live object as a word. -/
theorem live_word (hl : Layout h live) {e : Extent} (he : e ∈ live) :
    (UInt64.ofNat e.addr).toNat = e.addr ∧ e.addr ≠ 0 ∧ UInt64.ofNat e.addr ≠ taggedNil := by
  have hobject := hl.objects e he
  have habove := hobject.above
  have hbelow := hobject.below
  have hfirst := hl.placed.aboveFirstPage
  have hfree := hl.placed.freeLimit
  have hstop := hl.placed.limitStop
  have hbound := hl.placed.stopBound
  unfold pageBytes at hfirst
  have hword : (UInt64.ofNat e.addr).toNat = e.addr := toNat_ofNat64 (by omega)
  refine ⟨hword, by omega, fun hnil => ?_⟩
  rw [hnil] at hword
  have hthree : taggedNil.toNat = 3 := rfl
  omega

/-- The step of the induction: the callers' frames have been visited. -/
theorem Ensured.marry {f obj n sender : Nat} {rest : List Nat} {mem₁ : Nat → Nat}
    {h₁ h₂ : Heap} {live₂ : Set Extent} (hl : Layout h live) (hf : 4 ≤ f)
    (hbelow : ∀ g ∈ rest, f + 4 ≤ g)
    (hunmarried : frameHasContext mem f = false) (hcontexts : ContextsLive mem live rest)
    (ha : omAllocFields h contextClass n = some (obj, h₁)) (hn : 10 ≤ n)
    (hrest : Ensured rest mem h₁ (insert ⟨obj, 8 * (3 + n)⟩ live) sender mem₁ h₂ live₂)
    {values : List UInt64} (hlength : values.length = n) :
    Ensured (f :: rest) mem h live obj (marryFrame mem₁ f obj)
        { h₂ with mem := storeFields h₂.mem obj values } live₂ ∧
      (∀ g ∈ rest, SameHeader mem₁ (marryFrame mem₁ f obj) g) ∧
      ∀ g ∈ rest, frameHasContext mem₁ g = true →
        objField (storeFields h₂.mem obj values) (frameContext mem₁ g) contextSender
          = objField h₂.mem (frameContext mem₁ g) contextSender := by
  obtain ⟨hlayout₁, hnotLive, hother, hsame₁, hzero⟩ := omAllocFields_some hl ha
  have hnewLive : (⟨obj, 8 * (3 + n)⟩ : Extent) ∈ live₂ := hrest.keeps (Set.mem_insert _ _)
  obtain ⟨-, hout⟩ := storeFields_spec values h₂.mem obj
  have hsame₂ : ∀ e ∈ live₂, e.addr ≠ obj →
      SameBytes h₂.mem (storeFields h₂.mem obj values) e := by
    intro e he hne a hh
    refine hout a ?_
    unfold objFieldAddr
    by_contra hin
    have heq := hrest.layout.disjoint e he _ hnewLive a hh ⟨by simp only; omega, by simp only; omega⟩
    exact hne (by rw [heq])
  -- the contexts of the callers are other objects
  have hcallers : ∀ g ∈ rest, frameHasContext mem₁ g = true → ∃ e ∈ live₂,
      e.addr = frameContext mem₁ g ∧ 32 ≤ e.bytes ∧ e.addr ≠ obj ∧
      (e ∈ insert ⟨obj, 8 * (3 + n)⟩ live →
        frameHasContext mem g = true ∧ frameContext mem g = e.addr) := by
    intro g hg hhas
    obtain ⟨e, he, haddr, hroom, hold⟩ := hrest.contexts g hg hhas
    refine ⟨e, he, haddr, hroom, fun heq => ?_, hold⟩
    have hnew := hrest.layout.eq_of_addr he hnewLive heq
    obtain ⟨hhas', hcontext⟩ := hold (hnew ▸ Set.mem_insert _ _)
    obtain ⟨e', he', haddr', -⟩ := hcontexts g hg hhas'
    exact hother e' he' (haddr'.trans (hcontext.trans heq))
  have hheaders : ∀ g ∈ rest, SameHeader mem₁ (marryFrame mem₁ f obj) g := by
    intro g hg
    have hapart := hbelow g hg
    exact ⟨marryFrame_of_ne obj (by omega) (by omega), marryFrame_of_ne obj (by omega) (by omega)⟩
  refine ⟨⟨?_, ?_, ?_, ?_, ?_, ?_⟩, hheaders, fun g hg hhas => ?_⟩
  · refine layout_bodies hrest.layout fun a ha => hout a ?_
    have hin := ha _ hnewLive
    unfold objFieldAddr
    simp only at hin
    omega
  · exact (Set.subset_insert _ _).trans hrest.keeps
  · intro e he a hh
    show storeFields h₂.mem obj values a = _
    rw [hsame₂ e (hrest.keeps (Set.mem_insert_of_mem _ he)) (hother e he) a hh,
      hrest.same e (Set.mem_insert_of_mem _ he) a hh]
    exact hsame₁ e he a hh
  · intro b hb
    obtain ⟨hthree, htwo⟩ := hb f List.mem_cons_self
    rw [marryFrame_of_ne obj hthree htwo]
    exact hrest.words b fun g hg => hb g (List.mem_cons_of_mem _ hg)
  · intro g hg hhas
    rcases List.mem_cons.mp hg with rfl | hg
    · refine ⟨_, hnewLive, (frameContext_marryFrame obj hf).symm, ?_, fun hin => absurd hin hnotLive⟩
      show 32 ≤ 8 * (3 + n)
      omega
    · rw [(hheaders g hg).hasContext] at hhas
      obtain ⟨e, he, haddr, hroom, -, hold⟩ := hcallers g hg hhas
      exact ⟨e, he, by rw [(hheaders g hg).1]; exact haddr, hroom,
        fun hin => hold (Set.mem_insert_of_mem _ hin)⟩
  · exact .inr ⟨hzero, f, rest, rfl, frameHasContext_marryFrame obj, frameContext_marryFrame obj hf⟩
  · obtain ⟨e, he, haddr, hroom, hne, -⟩ := hcallers g hg hhas
    rw [← haddr]
    exact (hsame₂ e he hne).field (by unfold contextSender; omega)

/-- The chain of senders with the new context in front. -/
theorem sendersComplete_cons {f obj sender : Nat} {rest : List Nat} {mem₁ : Nat → Nat}
    {h₁ h₂ : Heap} {live₁ live₂ : Set Extent} (hf : 4 ≤ f)
    (hrest : Ensured rest mem h₁ live₁ sender mem₁ h₂ live₂) {m : Mem}
    (hheaders : ∀ g ∈ rest, SameHeader mem₁ (marryFrame mem₁ f obj) g)
    (hsenders : ∀ g ∈ rest, frameHasContext mem₁ g = true →
      objField m (frameContext mem₁ g) contextSender
        = objField h₂.mem (frameContext mem₁ g) contextSender)
    (hfield : objField m obj contextSender
      = if sender = 0 then taggedNil else UInt64.ofNat sender) :
    SendersComplete (marryFrame mem₁ f obj) m (f :: rest) ↔
      (rest ≠ [] → sender ≠ 0) ∧ SendersComplete mem₁ h₂.mem rest := by
  show (_ ∧ objField m (frameContext (marryFrame mem₁ f obj) f) contextSender = _ ∧
    SendersComplete (marryFrame mem₁ f obj) m rest) ↔ _
  rw [frameContext_marryFrame obj hf, hfield, sendersComplete_congr hheaders hsenders]
  simp only [frameHasContext_marryFrame, true_and]
  refine and_congr_left fun hcomplete => ?_
  cases rest with
  | nil =>
    rcases hrest.result with ⟨hzero, -⟩ | ⟨-, g, tail, hcons, -⟩
    · rw [hzero]
      exact iff_of_true rfl fun hne => absurd rfl hne
    · cases hcons
  | cons g tail =>
    -- the context of the caller is no nil
    obtain ⟨e, he, haddr, -⟩ := hrest.contexts g List.mem_cons_self hcomplete.1
    obtain ⟨hword, hne, hnotNil⟩ := live_word hrest.layout he
    have hhead : headContext (marryFrame mem₁ f obj) (g :: tail)
        = UInt64.ofNat (frameContext mem₁ g) := by
      show UInt64.ofNat (frameContext (marryFrame mem₁ f obj) g) = _
      rw [(hheaders g List.mem_cons_self).1]
    rw [hhead]
    constructor
    · intro heq _ hzero
      rw [if_pos hzero, ← haddr] at heq
      exact hnotNil heq.symm
    · intro hsender
      have hnonzero := hsender (List.cons_ne_nil _ _)
      rw [if_neg hnonzero]
      rcases hrest.result with ⟨hzero, -⟩ | ⟨-, g', tail', hcons, -, hcontext⟩
      · exact absurd hzero hnonzero
      · rw [List.cons.inj hcons |>.1, hcontext]

/-- **`ensure_frame_context_with_sp` on a chain of frames.**  The induction is on the
frames; the state in which the caller's frame is visited has the new context among the
live objects already. -/
theorem ensureFrameContextWithSp_spec (code : Nat → CompiledMethod) (sp : Option Nat) {fuel fp : Nat}
    {frames : List Nat} (hl : Layout h live) (hchain : FrameChain mem fp frames) (hfuel : frames.length < fuel)
    (hcontexts : ContextsLive mem live frames) :
    ∃ context mem' h' live', ensureFrameContextWithSp code contextClass fuel sp fp mem h
        = (context, mem', h') ∧ Ensured frames mem h live context mem' h' live' ∧
      (((frames ≠ [] → context ≠ 0) ∧ SendersComplete mem' h'.mem frames) ↔
        roomForContexts code contextClass mem sp frames h = true ∧ TailComplete mem h.mem frames) ∧
      (context = 0 ↔ FailsAtOnce code contextClass mem sp frames h) := by
  induction frames generalizing fuel sp fp h live with
  | nil =>
    obtain ⟨fuel, rfl⟩ : ∃ k, fuel = k + 1 := ⟨fuel - 1, by omega⟩
    have hfp : fp = 0 := hchain
    refine ⟨0, mem, h, live, ?_, .refl hl hcontexts (.inl ⟨rfl, rfl⟩), ?_,
      iff_of_true rfl trivial⟩
    · rw [ensureFrameContextWithSp, if_pos hfp]
    · exact iff_of_true ⟨fun hne => absurd rfl hne, trivial⟩ ⟨rfl, trivial⟩
  | cons f rest ih =>
    rw [List.length_cons] at hfuel
    obtain ⟨fuel, rfl⟩ : ∃ k, fuel = k + 1 := ⟨fuel - 1, by omega⟩
    obtain ⟨rfl, hf, hchain, hbelow⟩ := hchain
    rw [ensureFrameContextWithSp, if_neg (by omega)]
    cases hhas : frameHasContext mem fp with
    | true =>
      obtain ⟨e, he, haddr, -⟩ := hcontexts fp List.mem_cons_self hhas
      have hnonzero : frameContext mem fp ≠ 0 := haddr ▸ (live_word hl he).2.1
      refine ⟨frameContext mem fp, mem, h, live, if_pos rfl,
        .refl hl hcontexts (.inr ⟨hnonzero, fp, rest, rfl, hhas, rfl⟩), ?_,
        iff_of_false hnonzero fun hfails => nomatch hhas.symm.trans hfails.1⟩
      unfold TailComplete
      rw [List.dropWhile_cons_of_neg (by rw [hhas]; decide), roomForContexts, hhas, Bool.true_or]
      exact ⟨fun hdone => ⟨rfl, hdone.2⟩, fun hdone => ⟨fun _ => hnonzero, hdone.2⟩⟩
    | false =>
      rw [if_neg (by decide)]
      cases ha : omAllocFields h contextClass (fieldCount code sp mem fp) with
      | none =>
        refine ⟨0, mem, h, live, rfl, .refl hl hcontexts (.inl ⟨rfl, rfl⟩), ?_,
          iff_of_true rfl ⟨hhas, ha⟩⟩
        rw [roomForContexts, hhas, ha]
        exact iff_of_false (fun hdone => hdone.1 (List.cons_ne_nil _ _) rfl)
          fun hdone => nomatch hdone.1
      | some placed =>
        obtain ⟨obj, h₁⟩ := placed
        obtain ⟨hlayout₁, -, -, hsame₁, hzero⟩ := omAllocFields_some hl ha
        have hcontexts' : ContextsLive mem live rest :=
          fun g hg => hcontexts g (List.mem_cons_of_mem _ hg)
        obtain ⟨sender, mem₁, h₂, live₂, hrun, hens, hiff, -⟩ := @ih h₁ _ none fuel _ hlayout₁ hchain
          (by omega) (fun g hg hhas => by
            obtain ⟨e, he, hrest⟩ := hcontexts' g hg hhas
            exact ⟨e, Set.mem_insert_of_mem _ he, hrest⟩)
        have hten : 10 ≤ fieldCount code sp mem fp := by
          unfold fieldCount contextVarBase
          omega
        have hlength := contextFields_length code sp fp mem mem₁ h₂.mem sender
        obtain ⟨hmarried, hheaders, hsenders⟩ :=
          hens.marry hl hf hbelow hhas hcontexts' ha hten hlength
        simp only [hrun]
        refine ⟨_, _, _, live₂, rfl, hmarried, ?_,
          iff_of_false hzero fun hfails => nomatch ha.symm.trans hfails.2⟩
        obtain ⟨hstored, -⟩ := storeFields_spec
          (contextFields code sp fp mem mem₁ h₂.mem sender) h₂.mem obj
        have hsender := hstored 0 (by omega)
        rw [sendersComplete_cons hf hens hheaders hsenders hsender, hiff]
        -- the old contexts are the same after the allocation
        have htail : TailComplete mem h₁.mem rest ↔ TailComplete mem h.mem (fp :: rest) := by
          unfold TailComplete
          rw [List.dropWhile_cons_of_pos (by rw [hhas]; decide)]
          refine sendersComplete_congr (fun _ _ => ⟨rfl, rfl⟩) fun g hg hhasg => ?_
          obtain ⟨e, he, haddr, hroom⟩ :=
            hcontexts' g ((List.dropWhile_suffix _).subset hg) hhasg
          rw [← haddr]
          exact (hsame₁ e he).field (by unfold contextSender; omega)
        have hroom : roomForContexts code contextClass mem sp (fp :: rest) h
            = roomForContexts code contextClass mem none rest h₁ := by
          rw [roomForContexts, hhas, ha, Bool.false_or]
        rw [htail, hroom]
        exact and_iff_right fun _ => hzero

/-- **The chain of senders.**  On a heap with its page tables in order and a chain of
frames whose contexts are live objects, `ensure_frame_context_with_sp` returns `NULL`
and changes no frame, or returns the context of the first frame with the chain of
senders complete, exactly if there is no room for the first context, or there is room
for the contexts of all frames up to the first that has one and from that one on the
chain was complete before. -/
theorem senders_complete_iff {fuel : Nat} {sp : Option Nat} {fp : Nat} {frames : List Nat}
    (hl : Layout h live) (hchain : FrameChain mem fp frames) (hfuel : frames.length < fuel)
    (hcontexts : ContextsLive mem live frames) :
    FailsOrCompletes frames mem (ensureFrameContextWithSp code contextClass fuel sp fp mem h) ↔
      FailsAtOnce code contextClass mem sp frames h ∨
        (roomForContexts code contextClass mem sp frames h = true ∧
          TailComplete mem h.mem frames) := by
  obtain ⟨context, mem', h', live', hrun, hens, hiff, hfails⟩ :=
    ensureFrameContextWithSp_spec code sp hl hchain hfuel hcontexts
  rw [hrun]
  rcases hens.result with ⟨hzero, hmem⟩ | ⟨hne, f, rest, hframes, -, hcontext⟩
  · refine iff_of_true (.inl ⟨hzero, fun g _ => ?_⟩) (.inl (hfails.mp hzero))
    show frameContext mem' g = _ ∧ frameFlags mem' g = _
    rw [hmem]
    exact ⟨rfl, rfl⟩
  · rw [← hiff]
    have hhead : frames.head?.map (frameContext mem') = some context := by
      rw [hframes, List.head?_cons, Option.map_some, hcontext]
    constructor
    · rintro (⟨hzero, -⟩ | ⟨-, -, hcomplete⟩)
      · exact absurd hzero hne
      · exact .inr ⟨fun _ => hne, hcomplete⟩
    · rintro (hno | ⟨-, hcomplete⟩)
      · exact absurd (hfails.mpr hno) hne
      · exact .inr ⟨hne, hhead, hcomplete⟩

end Induction

/-! ## §6. Two frames. -/

/-- Two frames without contexts: the frame at 10 was called from the one at 20. -/
def twoFrames : Nat → Nat := fun a => if a = 10 then 160 else 0

/-- A method without temporaries. -/
def noTemps : Nat → CompiledMethod := fun _ => ⟨0, 0, 0⟩

/-- A fresh heap of this many words. -/
def freshHeap (words : Nat) : Heap := { om := omInit 65536 (8 * words), mem := fun _ => 0 }

theorem twoFrames_chain : FrameChain twoFrames 10 [10, 20] :=
  ⟨rfl, by decide, ⟨by decide, by decide, rfl, by decide⟩, by decide⟩

theorem twoFrames_unmarried (live : Set Extent) : ContextsLive twoFrames live [10, 20] := by
  intro f hf hhas
  have hnone : ∀ g ∈ [10, 20], frameHasContext twoFrames g = false := by decide
  rw [hnone f hf] at hhas
  cases hhas

theorem twoContexts_aboveFirstPage : pageBytes ≤ 65536 := by decide

theorem twoContexts_aligned : 65536 % 8 = 0 := by decide

theorem twoContexts_inUserSpace : 65536 + 240 ≤ 2 ^ 63 := by decide

/-- A buffer with room for two contexts. -/
def twoContexts : Buffer where
  addr := 65536
  size := 240
  aboveFirstPage := twoContexts_aboveFirstPage
  aligned := twoContexts_aligned
  inUserSpace := twoContexts_inUserSpace

/-- With room for two contexts the chain is complete. -/
theorem twoContexts_complete : FailsOrCompletes [10, 20] twoFrames
    (ensureFrameContextWithSp noTemps 4 3 (some 6) 10 twoFrames (freshHeap 30)) := by
  refine (senders_complete_iff (omInit_layout twoContexts fun _ => 0) twoFrames_chain (by decide)
    (twoFrames_unmarried _)).mpr (.inr ⟨by decide +kernel, ?_⟩)
  have hnone : [10, 20].dropWhile (fun f => !frameHasContext twoFrames f) = [] := by decide
  unfold TailComplete
  rw [hnone]
  trivial

/-- With room for one, the sender of the first frame's context is nil although the frame
has a caller. -/
theorem oneContext_incomplete : ¬ FailsOrCompletes [10, 20] twoFrames
    (ensureFrameContextWithSp noTemps 4 3 (some 6) 10 twoFrames (freshHeap 15)) := by
  rintro (⟨hzero, -⟩ | ⟨-, -, -, -, hhas, -⟩)
  · exact absurd hzero (by decide +kernel)
  · exact absurd hhas (by decide +kernel)

end LivingObjects.SenderChain
