/-
  LivingObjects.Stack.Contexts — contexts and closures for the activations of a stack.

  `ensure_frame_context_with_sp` gives a context to the running activation and to those
  that wait for it, up to the first that has one already; on the stack nothing changes
  but the two words of each frame that say so.  `BC_PUSH_CLOSURE` does this first, and
  what it stores as the home of the new closure is the context of the frame it runs in,
  whether that is the frame of a method or of a block.
-/
import LivingObjects.Stack.Chain

namespace LivingObjects.Stack

open LivingObjects.Lib

/-! ## §1. Activations with contexts. -/

/-- The activations when those in front have been given contexts, from an address up. -/
def materialize : Nat → List Activation → List Activation
  | _, [] => []
  | free, a :: rest =>
    if a.context.isSome then a :: rest
    else { a with context := some free } :: materialize (free + 8) rest

/-- The first address after those contexts. -/
def freeAfter : Nat → List Activation → Nat
  | free, [] => free
  | free, a :: rest => if a.context.isSome then free else freeAfter (free + 8) rest

/-- The home of a closure, as a word. -/
def homeOf (h : Heap) (a : Activation) : Nat :=
  match a.closure with
  | none => taggedNil
  | some b => ((h.block b).map BlockClosure.homeContext).getD taggedNil

/-- A context that the heap has for its activation. -/
def HasContext (h : Heap) (a : Activation) : Prop :=
  ∀ c, a.context = some c → 0 < c ∧ c < h.free ∧
    ∃ ctx, h.context c = some ctx ∧ ctx.closure = a.closure.getD taggedNil ∧ ctx.home = homeOf h a

theorem materialize_some {free : Nat} {a : Activation} {rest : List Activation}
    (h : a.context.isSome = true) : materialize free (a :: rest) = a :: rest := if_pos h

theorem materialize_none {free : Nat} {a : Activation} {rest : List Activation}
    (h : a.context = none) : materialize free (a :: rest)
      = { a with context := some free } :: materialize (free + 8) rest := by
  rw [materialize, h]
  rfl

theorem freeAfter_none {free : Nat} {a : Activation} {rest : List Activation}
    (h : a.context = none) : freeAfter free (a :: rest) = freeAfter (free + 8) rest := by
  rw [freeAfter, h]
  rfl

theorem le_freeAfter (free : Nat) (acts : List Activation) : free ≤ freeAfter free acts := by
  induction acts generalizing free with
  | nil => exact Nat.le_refl free
  | cons a rest ih =>
    rw [freeAfter]
    split
    · exact Nat.le_refl free
    · have hrest := ih (free + 8)
      omega

/-- Contexts change neither the place nor the size of a frame. -/
theorem materialize_layout (free p : Nat) (acts : List Activation) :
    fpOf p (materialize free acts) = fpOf p acts ∧
      chainSize (materialize free acts) = chainSize acts := by
  induction acts generalizing free p with
  | nil => exact ⟨rfl, rfl⟩
  | cons a rest ih =>
    cases hcontext : a.context with
    | some c => rw [materialize_some (hcontext ▸ rfl)]; exact ⟨rfl, rfl⟩
    | none =>
      rw [materialize_none hcontext, chainSize_cons, chainSize_cons, (ih (free + 8) p).2]
      exact ⟨rfl, rfl⟩

/-- A new context lies from the address up. -/
theorem mem_materialize {free : Nat} {acts : List Activation} {b : Activation}
    (hb : b ∈ materialize free acts) : b ∈ acts ∨ ∀ c, b.context = some c → free ≤ c := by
  induction acts generalizing free with
  | nil => exact Or.inl hb
  | cons a rest ih =>
    cases hcontext : a.context with
    | some c =>
      rw [materialize_some (hcontext ▸ rfl)] at hb
      exact Or.inl hb
    | none =>
      rw [materialize_none hcontext] at hb
      rcases List.mem_cons.mp hb with rfl | hb
      · exact Or.inr fun c hc => Nat.le_of_eq (Option.some.inj hc)
      · rcases ih hb with hrest | hnew
        · exact Or.inl (List.mem_cons_of_mem a hrest)
        · refine Or.inr fun c hc => ?_
          have hfree := hnew c hc
          omega

/-- But for its context an activation is as it was. -/
theorem materialize_same {free : Nat} {acts : List Activation} {b : Activation}
    (hb : b ∈ materialize free acts) : ∃ a ∈ acts, b = { a with context := b.context } := by
  induction acts generalizing free with
  | nil => cases hb
  | cons a rest ih =>
    cases hcontext : a.context with
    | some c =>
      rw [materialize_some (hcontext ▸ rfl)] at hb
      exact ⟨b, hb, rfl⟩
    | none =>
      rw [materialize_none hcontext] at hb
      rcases List.mem_cons.mp hb with rfl | hb
      · exact ⟨a, List.mem_cons_self, rfl⟩
      · obtain ⟨x, hx, hsame⟩ := ih hb
        exact ⟨x, List.mem_cons_of_mem a hx, hsame⟩

/-- The closures the frames run are objects of the heap. -/
def ClosuresIn (h : Heap) (acts : List Activation) : Prop :=
  ∀ a ∈ acts, ∀ b, a.closure = some b → 0 < b ∧ b ≠ taggedNil ∧ b < h.free

/-! ## §2. `ensure_frame_context_with_sp`. -/

theorem Held.hasContext {mem : Nat → Nat} {p callerFp : Nat} {a : Activation}
    (h : Held mem p callerFp a) : frameHasContext mem (a.fpAt p) = a.context.isSome := by
  unfold frameHasContext frameFlags
  rw [h.flags, flags_hasContext]

theorem Held.hasBlockClosure {mem : Nat → Nat} {p callerFp : Nat} {a : Activation}
    (h : Held mem p callerFp a) :
    frameHasBlockClosure mem (a.fpAt p) = (a.closure.isSome && a.context.isNone) := by
  unfold frameHasBlockClosure frameFlags
  rw [h.flags, flags_hasBlockClosure]

theorem Held.savedFp {mem : Nat → Nat} {p callerFp : Nat} {a : Activation}
    (h : Held mem p callerFp a) : frameSavedFp mem (a.fpAt p) = callerFp := by
  unfold frameSavedFp
  rw [h.callerFp]
  exact Nat.mul_div_cancel_left callerFp (by omega)

/-- A frame is given a context. -/
theorem Held.giveContext {mem mem' : Nat → Nat} {p callerFp : Nat} {a : Activation}
    (h : Held mem p callerFp a) (context : Nat)
    (hcontext : mem' (a.fpAt p - 3) = context)
    (hflags : mem' (a.fpAt p - 2)
      = (frameFlags mem (a.fpAt p) ^^^ (frameFlags mem (a.fpAt p) &&& 2)) ||| 1)
    (hother : ∀ b, b ≠ a.fpAt p - 3 → b ≠ a.fpAt p - 2 → mem' b = mem b) :
    Held mem' p callerFp { a with context := some context } := by
  refine h.setHeader a.closure (some context) ?_ ?_ hother
  · rw [hcontext]
    rfl
  · rw [hflags, frameFlags, h.flags]
    exact flags_setContext a context

/-- What the routine leaves. -/
structure Ensured (p : Nat) (acts : List Activation) (mem : Nat → Nat) (h : Heap)
    (mem' : Nat → Nat) (h' : Heap) : Prop where
  chain : ChainAt mem' p (materialize h.free acts)
  other : ∀ b, b < p ∨ p + chainSize acts ≤ b → mem' b = mem b
  block : h'.block = h.block
  free : h'.free = freeAfter h.free acts
  old : ∀ c < h.free, h'.context c = h.context c
  contexts : 0 < h.free → (∀ a ∈ acts, HasContext h a) →
    ∀ a ∈ materialize h.free acts, HasContext h' a

theorem HasContext.congr {h h' : Heap} {a : Activation} (hctx : HasContext h a)
    (hblock : h'.block = h.block) (hfree : h.free ≤ h'.free)
    (hold : ∀ c, a.context = some c → h'.context c = h.context c) : HasContext h' a := by
  intro c hc
  obtain ⟨hpos, hlt, ctx, hat, hclosure, hhome⟩ := hctx c hc
  refine ⟨hpos, Nat.lt_of_lt_of_le hlt hfree, ctx, (hold c hc).trans hat, hclosure, ?_⟩
  unfold homeOf
  rw [hblock]
  exact hhome

/-- When there is nothing to do. -/
theorem Ensured.refl {p : Nat} {acts : List Activation} {mem : Nat → Nat} {h : Heap}
    (hheld : ChainAt mem p acts) (hsame : materialize h.free acts = acts)
    (hfree : freeAfter h.free acts = h.free) : Ensured p acts mem h mem h where
  chain := hsame.symm ▸ hheld
  other _ _ := rfl
  block := rfl
  free := hfree.symm
  old _ _ := rfl
  contexts _ hall := hsame.symm ▸ hall

/-- **`ensure_frame_context_with_sp` on a stack.**  The induction is on the frames: the
context of a frame is allocated before those of its callers and stored after them. -/
theorem ensureFrameContext_chain (code : Nat → CompiledMethod) {fuel : Nat} {sp : Option Nat}
    {p : Nat} {acts : List Activation} {mem : Nat → Nat} {h : Heap}
    (hheld : ChainAt mem p acts) (hfuel : acts.length < fuel)
    (hclosures : ∀ a ∈ acts, a.closure ≠ some 0) :
    ∃ context mem' h', ensureFrameContext code fuel sp (fpOf p acts) mem h
        = (context, mem', h') ∧ Ensured p acts mem h mem' h' := by
  induction acts generalizing fuel sp p mem h with
  | nil =>
    obtain ⟨fuel, rfl⟩ : ∃ f, fuel = f + 1 := ⟨fuel - 1, by omega⟩
    exact ⟨0, mem, h, rfl, .refl hheld rfl rfl⟩
  | cons a rest ih =>
    rw [List.length_cons] at hfuel
    obtain ⟨fuel, rfl⟩ : ∃ f, fuel = f + 1 := ⟨fuel - 1, by omega⟩
    have hfp := four_le_fpAt p a
    have hle := le_fpAt p a
    have hlt := fpAt_lt p a
    have hsome := hheld.1.hasContext
    cases hcontext : a.context with
    | some c =>
      have hhas : a.context.isSome = true := hcontext ▸ rfl
      refine ⟨frameContext mem (a.fpAt p), mem, h, ?_,
        .refl hheld (materialize_some hhas) (if_pos hhas)⟩
      rw [fpOf_cons, ensureFrameContext, if_neg (by omega), hsome, hhas, if_pos rfl]
    | none =>
      have hhas : a.context.isSome = false := hcontext ▸ rfl
      obtain ⟨sender, mem₁, h₁, hrun, hens⟩ := @ih fuel none (p + a.size) mem h.alloc hheld.2
        (by omega) fun b hb => hclosures b (List.mem_cons_of_mem a hb)
      have hsame : ∀ b, b < p + a.size → mem₁ b = mem b := fun b hb => hens.other b (Or.inl hb)
      have hheld₁ : Held mem₁ p (fpOf (p + a.size) rest) a :=
        hheld.1.congr fun b _ hb => hsame b hb
      have hflags : frameFlags mem₁ (a.fpAt p) = frameFlags mem (a.fpAt p) :=
        hsame _ (by omega)
      rw [fpOf_cons, ensureFrameContext, if_neg (by omega), hsome, hhas,
        if_neg Bool.false_ne_true, hheld.1.savedFp]
      simp only [hrun]
      refine ⟨_, _, _, rfl, ?_⟩
      have hother : ∀ b, b ≠ a.fpAt p - 3 → b ≠ a.fpAt p - 2 →
          Function.update (Function.update mem₁ (a.fpAt p - 3) h.free) (a.fpAt p - 2)
            ((frameFlags (Function.update mem₁ (a.fpAt p - 3) h.free) (a.fpAt p) ^^^
              (frameFlags (Function.update mem₁ (a.fpAt p - 3) h.free) (a.fpAt p) &&& 2)) ||| 1) b
            = mem₁ b := fun b hthree htwo =>
        (Function.update_of_ne htwo _ _).trans (Function.update_of_ne hthree _ _)
      have hflags' : frameFlags (Function.update mem₁ (a.fpAt p - 3) h.free) (a.fpAt p)
          = frameFlags mem₁ (a.fpAt p) := Function.update_of_ne (by omega) _ _
      have halloc : h.alloc.free = h.free + 8 := rfl
      have hrest := hens.free
      have hlefree := le_freeAfter h.alloc.free rest
      refine {
        chain := ?_
        other := fun b hb => ?_
        block := hens.block
        free := ?_
        old := fun c hc => ?_
        contexts := fun hpos hall b hb => ?_ }
      · rw [materialize_none hcontext]
        refine ⟨?_, ?_⟩
        · have hgiven := hheld₁.giveContext h.free ?_ ?_ hother
          · rw [← (materialize_layout (h.free + 8) (p + a.size) rest).1] at hgiven
            exact hgiven
          · exact (Function.update_of_ne (by omega) _ _).trans (Function.update_self _ _ _)
          · refine (Function.update_self _ _ _).trans ?_
            rw [hflags']
        · refine hens.chain.congr fun b hlo _ => ?_
          have hlo' : p + a.size ≤ b := hlo
          exact hother b (by omega) (by omega)
      · rw [chainSize_cons] at hb
        rw [hother b (by omega) (by omega)]
        exact hens.other b (by omega)
      · rw [freeAfter_none hcontext, ← halloc]
        exact hrest
      · have hne : c ≠ h.free := by omega
        refine (Function.update_of_ne hne _ _).trans ?_
        exact hens.old c (by omega)
      · rw [materialize_none hcontext] at hb
        rcases List.mem_cons.mp hb with rfl | hb
        · -- the new context: its closure is the one the frame had in the place of a context
          intro c hc
          obtain rfl := Option.some.inj hc
          refine ⟨hpos, ?_, _, Function.update_self _ _ _, ?_, ?_⟩
          · show h.free < h₁.free
            omega
          all_goals
            rw [hheld.1.hasBlockClosure, hcontext]
            cases hclosure : a.closure with
            | none => simp [homeOf]
            | some block =>
              have hword : frameContext mem (a.fpAt p) = block := by
                unfold frameContext
                rw [hheld.1.context, Activation.contextWord, hcontext, hclosure]
                rfl
              have hne : block ≠ 0 := fun hzero =>
                hclosures a List.mem_cons_self (by rw [hclosure, hzero])
              simp [homeOf, hword, hne, hens.block, Heap.alloc, Heap.setContext]
        · have hmem : ∀ x ∈ rest, HasContext h.alloc x := fun x hx =>
            (hall x (List.mem_cons_of_mem a hx)).congr rfl (Nat.le_add_right _ _) fun _ _ => rfl
          refine (hens.contexts (Nat.add_pos_left hpos 8) hmem b hb).congr rfl
            (Nat.le_refl _) fun c hc => Function.update_of_ne ?_ _ _
          rcases mem_materialize hb with hold | hnew
          · have hbelow := (hall b (List.mem_cons_of_mem a hold) c hc).2.1
            omega
          · have habove := hnew c hc
            omega

/-- Each activation takes more than one word. -/
theorem length_add_six_le (a : Activation) (rest : List Activation) :
    rest.length + 6 < chainSize (a :: rest) := by
  induction rest generalizing a with
  | nil =>
    have hsize : chainSize [a] = a.size + 0 := chainSize_cons a []
    have hseven : 7 ≤ a.size := Nat.le_add_left 7 _
    rw [List.length_nil]
    omega
  | cons b rest ih =>
    have hrest := ih b
    have hsize := chainSize_cons a (b :: rest)
    have hseven : 7 ≤ a.size := Nat.le_add_left 7 _
    rw [List.length_cons]
    omega

/-- The context of the running frame. -/
theorem Chain.currentContext (code : Nat → CompiledMethod) {s : Vm} {acts : List Activation}
    (h : Chain s acts) (hclosures : ∀ a ∈ acts, a.closure ≠ some 0) :
    ∃ context mem' h', currentContext code s = (context, { s with mem := mem', heap := h' }) ∧
      Ensured s.sp acts s.mem s.heap mem' h' := by
  have hbase := h.base
  unfold Stack.currentContext
  rw [h.fp]
  cases acts with
  | nil =>
    have hnone : s.base - s.sp = 0 := by
      show s.base - s.sp = 0
      rw [hbase]
      exact Nat.sub_self _
    rw [hnone]
    exact ⟨0, s.mem, s.heap, rfl, .refl h.held rfl rfl⟩
  | cons a rest =>
    have hroom := length_add_six_le a rest
    obtain ⟨context, mem', h', hrun, hens⟩ := @ensureFrameContext_chain code _ (some s.sp) _ _ _ _
      h.held (by rw [List.length_cons]; omega : (a :: rest).length < s.base - s.sp) hclosures
    exact ⟨context, mem', h', by rw [hrun], hens⟩

/-- The stack with the contexts. -/
theorem Ensured.toChain {s : Vm} {acts : List Activation} {mem' : Nat → Nat} {h' : Heap}
    (hens : Ensured s.sp acts s.mem s.heap mem' h') (h : Chain s acts) :
    Chain { s with mem := mem', heap := h' } (materialize s.heap.free acts) := by
  obtain ⟨hfp, hsize⟩ := materialize_layout s.heap.free s.sp acts
  refine ⟨h.fp.trans hfp.symm, hens.chain, ?_⟩
  show s.base = s.sp + chainSize (materialize s.heap.free acts)
  rw [hsize]
  exact h.base

/-! ## §3. `BC_PUSH_CLOSURE`. -/

/-- An argument, counted from the first. -/
theorem Held.arg {mem : Nat → Nat} {p callerFp i : Nat} {a : Activation}
    (h : Held mem p callerFp a) (hsmall : a.args.length < 256) (hi : i < a.args.reverse.length) :
    frameArg mem (a.fpAt p) i = a.args.reverse[i] := by
  have hlength : a.args.reverse.length = a.args.length := List.length_reverse
  have hcount : frameNumArgs mem (a.fpAt p) = a.args.length := by
    unfold frameNumArgs frameFlags
    rw [h.flags, flags_numArgs]
    exact Nat.mod_eq_of_lt hsmall
  unfold frameArg
  rw [hcount, List.getElem_reverse]
  exact h.args.get (by omega)

/-- The closure a frame runs, whether its context says so or it itself. -/
theorem Held.blockClosure {mem : Nat → Nat} {h : Heap} {p callerFp : Nat} {a : Activation}
    (hheld : Held mem p callerFp a) (hctx : HasContext h a) :
    blockClosureForFrame mem h (a.fpAt p) = a.closure.getD taggedNil := by
  unfold blockClosureForFrame
  rw [hheld.hasContext, hheld.hasBlockClosure]
  have hword : frameContext mem (a.fpAt p) = a.contextWord := hheld.context
  cases hcontext : a.context with
  | some c =>
    obtain ⟨-, -, ctx, hat, hclosure, -⟩ := hctx c hcontext
    rw [Option.isSome_some, if_pos rfl, hword, Activation.contextWord, hcontext]
    show ((h.context c).map Context.closure).getD taggedNil = _
    rw [hat]
    exact hclosure
  | none =>
    cases hclosure : a.closure with
    | none => rfl
    | some b =>
      rw [if_neg (by simp), if_pos (by simp), hword, Activation.contextWord, hcontext, hclosure]
      rfl

/-- Where `^` looks for its home. -/
theorem Held.homeContext {mem : Nat → Nat} {h : Heap} {p callerFp : Nat} {a : Activation}
    (hheld : Held mem p callerFp a) (hctx : HasContext h a) :
    blockHomeContextForFrame mem h (a.fpAt p) = homeOf h a := by
  unfold blockHomeContextForFrame
  rw [hheld.hasContext, hheld.hasBlockClosure]
  have hword : frameContext mem (a.fpAt p) = a.contextWord := hheld.context
  cases hcontext : a.context with
  | some c =>
    obtain ⟨-, -, ctx, hat, -, hhome⟩ := hctx c hcontext
    rw [Option.isSome_some, if_pos rfl, hword, Activation.contextWord, hcontext]
    show ((h.context c).map Context.home).getD taggedNil = _
    rw [hat]
    exact hhome
  | none =>
    unfold homeOf
    cases hclosure : a.closure with
    | none => rfl
    | some b =>
      rw [if_neg (by simp), if_pos (by simp), hword, Activation.contextWord, hcontext, hclosure]
      rfl

/-- The temporaries a frame was made with. -/
def reservedTemps (code : Nat → CompiledMethod) (h : Heap) (a : Activation) : Nat :=
  (code a.method).numTemps
    + (match a.closure with
      | none => 0
      | some b => ((h.block b).map fun blk => blk.copied.length).getD 0)

/-- What `BC_PUSH_CLOSURE` leaves. -/
structure ClosurePushed (code : Nat → CompiledMethod) (s s' : Vm) (a : Activation)
    (rest : List Activation) (blockMethod c : Nat) (rest' : List Activation) (blk : BlockClosure) :
    Prop where
  acts : materialize s.heap.free (a :: rest) = { a with context := some c } :: rest'
  chain : Chain s'
    ({ a with context := some c, stack := freeAfter s.heap.free (a :: rest) :: a.stack } :: rest')
  free : s'.heap.free = freeAfter s.heap.free (a :: rest) + 8
  block : s'.heap.block
    = Function.update s.heap.block (freeAfter s.heap.free (a :: rest)) (some blk)
  contexts : ∀ b ∈ { a with context := some c } :: rest', HasContext s'.heap b
  home : blk.homeContext = c
  receiver : blk.homeReceiver = a.receiver
  method : blk.method = blockMethod
  copied : a.args.length < 256 → a.temps.length = reservedTemps code s.heap a →
    blk.copied = a.args.reverse ++ a.temps
  vm : s' = { s with mem := s'.mem, sp := s'.sp, heap := s'.heap }

theorem materialize_head (free : Nat) (a : Activation) (rest : List Activation) :
    ∃ c rest', materialize free (a :: rest) = { a with context := some c } :: rest' := by
  cases hcontext : a.context with
  | some c =>
    refine ⟨c, rest, ?_⟩
    rw [materialize_some (hcontext ▸ rfl), ← hcontext]
  | none => exact ⟨free, _, materialize_none hcontext⟩

/-- **`BC_PUSH_CLOSURE` makes the running frame the home of the closure.** -/
theorem Chain.pushClosure {code : Nat → CompiledMethod} {s : Vm} {a : Activation}
    {rest : List Activation} (h : Chain s (a :: rest)) (hsp : 0 < s.sp) (hfree : 0 < s.heap.free)
    (hcontexts : ∀ b ∈ a :: rest, HasContext s.heap b)
    (hclosures : ClosuresIn s.heap (a :: rest)) (blockMethod : Nat) :
    ∃ c rest' blk,
      ClosurePushed code s (pushClosure code blockMethod s) a rest blockMethod c rest' blk := by
  obtain ⟨context, mem', h', hrun, hens⟩ := h.currentContext code fun b hb hzero =>
    absurd (hclosures b hb 0 hzero).1 (Nat.lt_irrefl 0)
  obtain ⟨c, rest', hacts⟩ := materialize_head s.heap.free a rest
  have hchain := hens.toChain h
  rw [hacts] at hchain
  obtain ⟨hheld, hrest⟩ := hchain.held
  have hfp : s.fp = a.fpAt s.sp := h.fp
  have hall := hens.contexts hfree hcontexts
  rw [hacts] at hall
  have hpos : 0 < c := (hall _ List.mem_cons_self c rfl).1
  have hhas : frameHasContext mem' s.fp = true := by
    rw [hfp]
    exact hheld.hasContext
  have hword : frameContext mem' s.fp = c := by
    rw [hfp]
    exact hheld.context
  have hpushed := hchain.push (show 0 < s.sp from hsp) h'.free
  have hblock : h'.free = freeAfter s.heap.free (a :: rest) := hens.free
  have hcurrent : blockClosureForFrame s.mem s.heap s.fp = a.closure.getD taggedNil := by
    rw [hfp]
    exact h.held.1.blockClosure (hcontexts a List.mem_cons_self)
  -- the number of temporaries it copies, as it was before the contexts were made
  have htemps : (code (frameMethod s.mem s.fp)).numTemps
      + (if a.closure.getD taggedNil = taggedNil then 0
          else ((s.heap.block (a.closure.getD taggedNil)).map fun blk => blk.copied.length).getD 0)
      = reservedTemps code s.heap a := by
    have hmethod : frameMethod s.mem s.fp = a.method := by
      rw [hfp]
      exact h.held.1.method
    unfold reservedTemps
    rw [hmethod]
    cases hclosure : a.closure with
    | none => rfl
    | some b =>
      have hne := (hclosures a List.mem_cons_self b hclosure).2.1
      rw [Option.getD_some, if_neg hne]
  have hargs : frameNumArgs s.mem s.fp = a.args.length % 256 := by
    rw [hfp, frameNumArgs, frameFlags, h.held.1.flags, flags_numArgs]
  generalize hblk : ({
    homeContext := c
    homeReceiver := frameReceiver mem' s.fp
    method := blockMethod
    copied := (List.range (a.args.length % 256)).map (frameArg mem' s.fp)
      ++ (List.range (reservedTemps code s.heap a)).map (frameTemp mem' s.fp) } : BlockClosure) = blk
  have hclosed : Stack.pushClosure code blockMethod s
      = ({ s with mem := mem', heap := h'.alloc.setBlock h'.free blk } : Vm).push h'.free := by
    unfold Stack.pushClosure
    simp only [hcurrent, htemps, hargs, hrun, hhas, hword, if_true, if_neg (Nat.ne_of_gt hpos),
      hblk]
  have hpushed := hchain.push (show 0 < s.sp from hsp) h'.free
  rw [hclosed, hblock]
  rw [hblock] at hpushed
  refine ⟨c, rest', blk, hacts, ⟨hpushed.fp, hpushed.held, hpushed.base⟩, ?_, ?_, fun b hb => ?_,
    hblk ▸ rfl, ?_, hblk ▸ rfl, fun hsmall hlength => ?_, rfl⟩
  · show h'.free + 8 = _
    rw [hblock]
  · show Function.update h'.block _ _ = _
    rw [hens.block]
  · -- the new closure lies at an address that no frame has for its closure yet
    refine fun x hx => ?_
    obtain ⟨hxpos, hxlt, ctx, hat, hclosure, hhome⟩ := hall b hb x hx
    refine ⟨hxpos, Nat.lt_add_right 8 hxlt, ctx, hat, hclosure, hhome.trans ?_⟩
    obtain ⟨y, hy, hsame⟩ := materialize_same (hacts.symm ▸ hb)
    unfold homeOf
    cases hof : b.closure with
    | none => rfl
    | some z =>
      have hz := (hclosures y hy z (by rw [hsame] at hof; exact hof)).2.2
      have hlefree := le_freeAfter s.heap.free (a :: rest)
      have hne : z ≠ freeAfter s.heap.free (a :: rest) := by omega
      show _ = ((Function.update h'.block (freeAfter s.heap.free (a :: rest)) (some blk) z).map
        BlockClosure.homeContext).getD taggedNil
      rw [Function.update_of_ne hne]
  · rw [← hblk]
    show frameReceiver mem' s.fp = a.receiver
    rw [hfp]
    exact hheld.receiver
  · have hmod : a.args.length % 256 = a.args.length := Nat.mod_eq_of_lt hsmall
    rw [← hblk, hmod, ← hlength]
    refine congrArg₂ (· ++ ·) ?_ ?_
    · refine List.ext_getElem (by simp) fun i hi _ => ?_
      rw [List.length_map, List.length_range] at hi
      rw [List.getElem_map, List.getElem_range, hfp]
      exact hheld.arg hsmall _
    · refine List.ext_getElem (by simp) fun i hi _ => ?_
      rw [List.length_map, List.length_range] at hi
      rw [List.getElem_map, List.getElem_range, hfp]
      exact hheld.temp hi

end LivingObjects.Stack
