/-
  LivingObjects.Stack.RoundTrip — a context and the frame it is made from.

  `ensure_frame_context_with_sp` copies a frame into a context, `activate_context` lays a
  frame out from one.  The copied values of a block lie among the temporaries of its frame
  but are copied with the operands, and the arguments are stored in the other order than
  they are pushed; laid out again all of them are found under the same indices
  (`context_round_trip`).  A frame that has a context keeps it: the context is not brought
  up to date, and `stale_context` is a frame that does not come back as it is.
-/
import LivingObjects.Stack.Contexts

namespace LivingObjects.Stack

open LivingObjects.Lib

/-! ## §1. What a frame shows. -/

/-- `frame_is_block`. -/
def frameIsBlock (mem : Nat → Nat) (fp : Nat) : Nat := (frameFlags mem fp >>> 16) &&& 0xFF

/-- Two frames, with their stack pointers, show the same: the temporaries by their indices,
down to the stack pointer, and the words from the stack pointer up to the header. -/
structure SameFrame (mem : Nat → Nat) (sp fp : Nat) (mem' : Nat → Nat) (sp' fp' : Nat) :
    Prop where
  receiver : frameReceiver mem' fp' = frameReceiver mem fp
  method : frameMethod mem' fp' = frameMethod mem fp
  isBlock : frameIsBlock mem' fp' = frameIsBlock mem fp
  numArgs : frameNumArgs mem' fp' = frameNumArgs mem fp
  args : ∀ i < frameNumArgs mem fp, frameArg mem' fp' i = frameArg mem fp i
  depth : fp' + sp = fp + sp'
  temps : ∀ i, sp + 5 + i ≤ fp → frameTemp mem' fp' i = frameTemp mem fp i
  stack : ∀ i, sp + 5 + i ≤ fp → mem' (sp' + i) = mem (sp + i)

/-- The context holds the frame; `k` temporaries are its method's own. -/
structure Records (mem : Nat → Nat) (sp fp k : Nat) (ctx : Context) : Prop where
  method : ctx.method = frameMethod mem fp
  receiver : ctx.receiver = frameReceiver mem fp
  flags : ctx.flags = taggedSmallint (frameFlags mem fp)
  numArgs : ctx.numArgs = taggedSmallint (frameNumArgs mem fp)
  numTemps : ctx.numTemps = taggedSmallint k
  stackSize : ctx.stackSize = taggedSmallint (fp - (4 + k) - sp)
  vars : ctx.vars = (List.range (frameNumArgs mem fp)).map (frameArg mem fp)
    ++ (List.range k).map (frameTemp mem fp)
    ++ (List.range (fp - (4 + k) - sp)).map (fun i => mem (sp + i))

theorem decode_tagged (n : Nat) : decodeSmallintField (taggedSmallint n) = n := by
  unfold decodeSmallintField taggedSmallint
  rw [if_pos (by omega)]
  omega

/-! ## §2. Into the context. -/

theorem frameNumArgs_congr {mem mem' : Nat → Nat} {fp : Nat} (h : mem' (fp - 2) = mem (fp - 2)) :
    frameNumArgs mem' fp = frameNumArgs mem fp := by
  unfold frameNumArgs frameFlags
  rw [h]

/-- The argument count of a frame is at most the number of its arguments. -/
theorem Held.numArgs_le {mem : Nat → Nat} {p callerFp : Nat} {a : Activation}
    (h : Held mem p callerFp a) : frameNumArgs mem (a.fpAt p) ≤ a.args.length := by
  unfold frameNumArgs frameFlags
  rw [h.flags, flags_numArgs]
  exact Nat.mod_le _ _

/-- **A running frame is copied** into its new context: whatever contexts its callers get
first, its own words stay as they are. -/
theorem ensureFrameContext_records (code : Nat → CompiledMethod) {fuel p : Nat} {a : Activation}
    {rest : List Activation} {mem : Nat → Nat} {h : Heap} (hheld : ChainAt mem p (a :: rest))
    (hfuel : rest.length < fuel) (hclosures : ∀ b ∈ rest, b.closure ≠ some 0)
    (hcontext : a.context = none) (htemps : (code a.method).numTemps ≤ a.temps.length) :
    ∃ mem' h' ctx, ensureFrameContext code (fuel + 1) (some p) (a.fpAt p) mem h
        = (h.free, mem', h') ∧ h'.context h.free = some ctx ∧
      Records mem p (a.fpAt p) (code a.method).numTemps ctx := by
  have hfp := four_le_fpAt p a
  have hlt := fpAt_lt p a
  have hat : a.fpAt p = p + (a.stack.length + a.temps.length + 4) := rfl
  have hhas : frameHasContext mem (a.fpAt p) = false := by
    rw [hheld.1.hasContext, hcontext]
    rfl
  have hmethod : frameMethod mem (a.fpAt p) = a.method := hheld.1.method
  obtain ⟨sender, mem₁, h₁, hrun, hens⟩ := @ensureFrameContext_chain code fuel none (p + a.size)
    rest mem h.alloc hheld.2 hfuel hclosures
  have hsame : ∀ b, b < p + a.size → mem₁ b = mem b := fun b hb => hens.other b (Or.inl hb)
  have hargs := hheld.1.numArgs_le
  have hnum : frameNumArgs mem₁ (a.fpAt p) = frameNumArgs mem (a.fpAt p) :=
    frameNumArgs_congr (hsame _ (by omega))
  rw [ensureFrameContext, if_neg (by omega), hhas, if_neg Bool.false_ne_true, hheld.1.savedFp]
  simp only [hrun, hmethod]
  -- the temporaries lie above the stack pointer
  have hbase : (if (code a.method).numTemps = 0 then a.fpAt p - 4
      else a.fpAt p - (5 + ((code a.method).numTemps - 1)))
        = a.fpAt p - (4 + (code a.method).numTemps) := by
    split <;> omega
  have hspFree : ¬ a.fpAt p - (4 + (code a.method).numTemps) < p := by omega
  rw [hbase, if_neg hspFree]
  refine ⟨_, _, _, rfl, Function.update_self _ _ _, ?_⟩
  constructor
  · exact hsame _ (by omega)
  · exact hsame _ (by omega)
  · show taggedSmallint (mem₁ (a.fpAt p - 2)) = _
    rw [hsame _ (by omega)]
    rfl
  · rfl
  · rfl
  · rfl
  · show _ ++ _ ++ _ = _
    congr 1
    · congr 1
      · refine List.map_congr_left fun i hi => ?_
        rw [List.mem_range] at hi
        unfold frameArg
        rw [hnum]
        exact hsame _ (by omega)
      · refine List.map_congr_left fun i hi => ?_
        rw [List.mem_range] at hi
        exact hsame _ (by omega)
    · refine List.map_congr_left fun i hi => ?_
      rw [List.mem_range] at hi
      exact hsame _ (by omega)

/-! ## §3. Out of the context. -/

theorem activateMethod_of_room {s : Vm} {savedIp method numArgs numTemps : Nat}
    (h : s.limitLow + (numTemps + 6) ≤ s.sp) :
    activateMethod savedIp method numArgs numTemps s
      = some { pushAll ([savedIp, 8 * s.fp, method, numArgs <<< 8, 0, s.mem (s.sp + numArgs)]
        ++ List.replicate numTemps 0) s with fp := s.sp - 2 } := by
  unfold activateMethod
  rw [if_neg (by omega), pushAll_append]
  rfl

theorem storeTemps_out {mem : Nat → Nat} {fp b index : Nat} {vs : List Nat}
    (h : ∀ i < vs.length, b ≠ fp - (5 + (index + i))) : storeTemps fp index vs mem b = mem b := by
  induction vs generalizing mem index with
  | nil => rfl
  | cons v vs ih =>
    have hfirst : b ≠ fp - (5 + index) := h 0 (Nat.succ_pos _)
    refine (ih fun i hi => ?_).trans (Function.update_of_ne hfirst v mem)
    rw [Nat.add_assoc index 1 i, Nat.add_comm 1 i]
    exact h (i + 1) (Nat.succ_lt_succ hi)

theorem storeTemps_get {mem : Nat → Nat} {fp index i : Nat} {vs : List Nat} (hi : i < vs.length)
    (hroom : 5 + (index + vs.length) ≤ fp + 1) :
    storeTemps fp index vs mem (fp - (5 + (index + i))) = vs[i] := by
  induction vs generalizing mem index i with
  | nil => exact absurd hi (Nat.not_lt_zero i)
  | cons v vs ih =>
    rw [List.length_cons] at hi hroom
    cases i with
    | zero =>
      show storeTemps fp (index + 1) vs _ (fp - (5 + index)) = v
      rw [storeTemps_out fun j hj => ?_, Function.update_self]
      omega
    | succ i =>
      have hin : i < vs.length := Nat.lt_of_succ_lt_succ hi
      have hrest : storeTemps fp (index + 1) vs (Function.update mem (fp - (5 + index)) v)
          (fp - (5 + (index + 1 + i))) = vs[i] := ih hin (by omega)
      rw [Nat.add_assoc index 1 i, Nat.add_comm 1 i] at hrest
      exact hrest

/-- The flags of a frame that is laid out from a context. -/
def activatedFlags (n flags : Nat) : Nat :=
  let flags' := n <<< 8 ||| (1 ||| (flags &&& (0xFF <<< 16)))
  flags' ^^^ (flags' &&& 2)

/-- Above its lowest byte they are the argument count and the block byte. -/
theorem activatedFlags_testBit (n flags : Nat) {i : Nat} (hi : 8 ≤ i) :
    (activatedFlags n flags).testBit i
      = (n.testBit (i - 8) || (flags.testBit i && (decide (16 ≤ i) && decide (i - 16 < 8)))) := by
  have hone : Nat.testBit 1 i = false := Nat.testBit_lt_two_pow (by
    calc 1 < 2 ^ 8 := by decide
      _ ≤ 2 ^ i := Nat.pow_le_pow_right (by decide) hi)
  have htwo : Nat.testBit 2 i = false := Nat.testBit_lt_two_pow (by
    calc 2 < 2 ^ 8 := by decide
      _ ≤ 2 ^ i := Nat.pow_le_pow_right (by decide) hi)
  have hmask : Nat.testBit 0xFF (i - 16) = decide (i - 16 < 8) := Nat.testBit_two_pow_sub_one 8 _
  unfold activatedFlags
  simp only [Nat.testBit_xor, Nat.testBit_or, Nat.testBit_and, Nat.testBit_shiftLeft, hone, htwo,
    hmask, hi, decide_true, Bool.true_and, Bool.false_or, Bool.and_false, Bool.xor_false,
    ge_iff_le]

theorem activatedFlags_spec (n flags : Nat) (hn : n < 256) :
    (activatedFlags n flags >>> 8) &&& 0xFF = n ∧
      (activatedFlags n flags >>> 16) &&& 0xFF = (flags >>> 16) &&& 0xFF := by
  have hmask : ∀ i, Nat.testBit 0xFF i = decide (i < 8) := Nat.testBit_two_pow_sub_one 8
  have hhigh : ∀ i, 8 ≤ i → n.testBit i = false := fun i hi => Nat.testBit_lt_two_pow (by
    calc n < 2 ^ 8 := hn
      _ ≤ 2 ^ i := Nat.pow_le_pow_right (by decide) hi)
  constructor
  · refine Nat.eq_of_testBit_eq fun i => ?_
    rw [Nat.testBit_and, hmask, Nat.testBit_shiftRight,
      activatedFlags_testBit n flags (Nat.le_add_right 8 i), Nat.add_sub_cancel_left]
    by_cases hi : i < 8
    · rw [decide_eq_true hi, decide_eq_false (by omega : ¬ 16 ≤ 8 + i)]
      simp
    · rw [decide_eq_false hi, hhigh i (by omega), Bool.and_false]
  · refine Nat.eq_of_testBit_eq fun i => ?_
    rw [Nat.testBit_and, Nat.testBit_and, hmask, Nat.testBit_shiftRight, Nat.testBit_shiftRight,
      activatedFlags_testBit n flags (by omega), hhigh _ (by omega), Nat.add_sub_cancel_left,
      decide_eq_true (Nat.le_add_right 16 i)]
    cases decide (i < 8) <;> simp

theorem frameNumArgs_lt (mem : Nat → Nat) (fp : Nat) : frameNumArgs mem fp < 256 :=
  Nat.lt_of_le_of_lt Nat.and_le_right (by decide)

/-- The words a context takes on the stack, with the receiver and the arguments under its
frame. -/
def rehydratedWords (mem : Nat → Nat) (sp fp : Nat) : Nat := frameNumArgs mem fp + 3 + (fp - sp)

/-- The frame of a context before its operands are pushed. -/
def fillFrame (fp context numArgs flags : Nat) (temps : List Nat) (mem : Nat → Nat) : Nat → Nat :=
  storeTemps fp 0 temps
    (Function.update (Function.update mem (fp - 2) (activatedFlags numArgs flags)) (fp - 3) context)

/-- The header of that frame, and what lies above it. -/
theorem fillFrame_above {fp context numArgs flags b : Nat} {temps : List Nat} {mem : Nat → Nat}
    (hfp : 5 + temps.length ≤ fp + 1) (hb : fp ≤ b + 4) :
    fillFrame fp context numArgs flags temps mem b
      = if b + 3 = fp then context
        else if b + 2 = fp then activatedFlags numArgs flags
        else mem b := by
  unfold fillFrame
  rw [storeTemps_out fun i hi => by omega]
  by_cases hthree : b = fp - 3
  · rw [hthree, Function.update_self, if_pos (by omega)]
  · rw [Function.update_of_ne hthree, if_neg (by omega)]
    by_cases htwo : b = fp - 2
    · rw [htwo, Function.update_self, if_pos (by omega)]
    · rw [Function.update_of_ne htwo, if_neg (by omega)]

/-- **The words of the new frame**: header, arguments, temporaries and operands. -/
theorem fillFrame_sameFrame {s : Vm} {mem : Nat → Nat} {sp fp k c savedIp callerFp : Nat}
    {ctx : Context} {args temps operands : List Nat}
    (hargs : (List.range (frameNumArgs mem fp)).map (frameArg mem fp) = args)
    (htemps : (List.range k).map (frameTemp mem fp) = temps)
    (hoperands : (List.range (fp - (4 + k) - sp)).map (fun i => mem (sp + i)) = operands)
    (hmethod : ctx.method = frameMethod mem fp) (hreceiver : ctx.receiver = frameReceiver mem fp)
    (hheld : Held s.mem s.sp callerFp
      (.fresh savedIp ctx.method ctx.receiver args.reverse k))
    (hfp : s.fp = s.sp + (k + 4)) (hframe : sp + (4 + k) ≤ fp) (hroom : operands.length ≤ s.sp) :
    SameFrame mem sp fp
      (pushAll operands.reverse { s with
        mem := fillFrame s.fp c (frameNumArgs mem fp) (frameFlags mem fp) temps s.mem }).mem
      (pushAll operands.reverse { s with
        mem := fillFrame s.fp c (frameNumArgs mem fp) (frameFlags mem fp) temps s.mem }).sp
      s.fp := by
  have hargsLength : args.length = frameNumArgs mem fp := by rw [← hargs]; simp
  have htempsLength : temps.length = k := by rw [← htemps]; simp
  have hoperandsLength : operands.length = fp - (4 + k) - sp := by rw [← hoperands]; simp
  have hat : (Activation.fresh savedIp ctx.method ctx.receiver args.reverse k).fpAt s.sp = s.fp := by
    rw [hfp]
    simp [Activation.fpAt, Activation.fresh]
  generalize hs' : ({ s with
    mem := fillFrame s.fp c (frameNumArgs mem fp) (frameFlags mem fp) temps s.mem } : Vm) = s'
  have hsp' : s'.sp = s.sp := by rw [← hs']
  have hmem' : s'.mem = fillFrame s.fp c (frameNumArgs mem fp) (frameFlags mem fp) temps s.mem := by
    rw [← hs']
  have hsp : (pushAll operands.reverse s').sp + operands.length = s.sp := by
    rw [pushAll_sp, List.length_reverse]
    omega
  -- above the operands the words are those of the frame
  have habove : ∀ b, s.sp ≤ b → (pushAll operands.reverse s').mem b = s'.mem b := fun b hb =>
    pushAll_mem (by omega) (by rw [List.length_reverse]; omega)
  have hheader : ∀ b, s.fp ≤ b + 4 → b + 3 ≠ s.fp → b + 2 ≠ s.fp →
      (pushAll operands.reverse s').mem b = s.mem b := by
    intro b hb hthree htwo
    rw [habove b (by omega), hmem', fillFrame_above (by omega) hb, if_neg hthree, if_neg htwo]
  have hflags : frameFlags (pushAll operands.reverse s').mem s.fp
      = activatedFlags (frameNumArgs mem fp) (frameFlags mem fp) := by
    unfold frameFlags
    rw [habove _ (by omega), hmem', fillFrame_above (by omega) (by omega), if_neg (by omega),
      if_pos (by omega)]
    rfl
  obtain ⟨hcount, hblock⟩ :=
    activatedFlags_spec (frameNumArgs mem fp) (frameFlags mem fp) (frameNumArgs_lt mem fp)
  have hnum : frameNumArgs (pushAll operands.reverse s').mem s.fp = frameNumArgs mem fp := by
    show (frameFlags (pushAll operands.reverse s').mem s.fp >>> 8) &&& 0xFF = frameNumArgs mem fp
    rw [hflags]
    exact hcount
  -- a temporary of the method, or a word that was copied with the operands
  have hbelow : ∀ i, sp + 5 + i ≤ fp →
      frameTemp (pushAll operands.reverse s').mem s.fp i = frameTemp mem fp i := by
    intro i hi
    unfold frameTemp
    by_cases hown : i < k
    · rw [habove _ (by omega), hmem']
      have hin : i < temps.length := by omega
      have hstored : fillFrame s.fp c (frameNumArgs mem fp) (frameFlags mem fp) temps s.mem
          (s.fp - (5 + (0 + i))) = temps[i] := storeTemps_get hin (by omega)
      rw [Nat.zero_add] at hstored
      refine hstored.trans ?_
      simp only [← htemps, List.getElem_map, List.getElem_range]
      rfl
    · have hholds : Holds (pushAll operands.reverse s').mem (pushAll operands.reverse s').sp
          (operands.reverse.reverse ++ []) :=
        pushAll_holds trivial (by rw [List.length_reverse]; omega)
      rw [List.reverse_reverse, List.append_nil] at hholds
      have hword := hholds.get (i := fp - (5 + i) - sp) (by omega)
      have haddress : s.fp - (5 + i) = (pushAll operands.reverse s').sp + (fp - (5 + i) - sp) := by
        omega
      rw [haddress, hword]
      simp only [← hoperands, List.getElem_map, List.getElem_range]
      exact congrArg mem (by omega)
  constructor
  · refine (hheader _ (by omega) (by omega) (by omega)).trans ?_
    rw [← hat, ← hreceiver]
    exact hheld.receiver
  · refine (hheader _ (by omega) (by omega) (by omega)).trans ?_
    rw [← hat, ← hmethod]
    exact hheld.method
  · unfold frameIsBlock
    rw [hflags, hblock]
  · exact hnum
  · intro i hi
    unfold frameArg
    rw [hnum]
    refine (hheader _ (by omega) (by omega) (by omega)).trans ?_
    have hword := hheld.args.get (i := frameNumArgs mem fp - 1 - i) (by
      show _ < args.reverse.length
      rw [List.length_reverse]
      omega)
    rw [hat] at hword
    refine hword.trans ?_
    simp only [Activation.fresh, List.getElem_reverse, ← hargs, List.getElem_map,
      List.getElem_range, List.length_map, List.length_range]
    unfold frameArg
    exact congrArg mem (by omega)
  · omega
  · exact hbelow
  · intro i hi
    -- the same words, counted from the stack pointer
    have hword := hbelow (fp - sp - 5 - i) (by omega)
    unfold frameTemp at hword
    rw [show s.fp - (5 + (fp - sp - 5 - i)) = (pushAll operands.reverse s').sp + i by omega,
      show fp - (5 + (fp - sp - 5 - i)) = sp + i by omega] at hword
    exact hword

/-- **A frame is laid out** from the context it has been copied into, on any stack with
room for it. -/
theorem activateContext_sameFrame {t : Vm} {mem : Nat → Nat} {sp fp k c : Nat} {ctx : Context}
    (hctx : t.heap.context c = some ctx) (hrec : Records mem sp fp k ctx)
    (hframe : sp + (4 + k) ≤ fp) (hroom : t.limitLow + rehydratedWords mem sp fp ≤ t.sp)
    (savedIp : Nat) :
    ∃ t', activateContext savedIp c t = some t' ∧ SameFrame mem sp fp t'.mem t'.sp t'.fp := by
  obtain ⟨hmethod, hreceiver, hflags, hnumArgs, hnumTemps, hstackSize, hvars⟩ := hrec
  unfold rehydratedWords at hroom
  have hdepth : fp - sp = 4 + k + (fp - (4 + k) - sp) := by omega
  rw [hdepth] at hroom
  generalize hargs : (List.range (frameNumArgs mem fp)).map (frameArg mem fp) = args at hvars
  generalize htemps : (List.range k).map (frameTemp mem fp) = temps at hvars
  generalize hoperands : (List.range (fp - (4 + k) - sp)).map (fun i => mem (sp + i)) = operands
    at hvars
  have hargsLength : args.length = frameNumArgs mem fp := by rw [← hargs]; simp
  have htempsLength : temps.length = k := by rw [← htemps]; simp
  have hoperandsLength : operands.length = fp - (4 + k) - sp := by rw [← hoperands]; simp
  -- the three parts of the variables
  have hfirst : ctx.vars.take (frameNumArgs mem fp) = args := by
    rw [hvars, List.append_assoc, ← hargsLength, List.take_left]
  have hsecond : (ctx.vars.drop (frameNumArgs mem fp)).take k = temps := by
    rw [hvars, List.append_assoc, ← hargsLength, List.drop_left, ← htempsLength, List.take_left]
  have hthird : (ctx.vars.drop (frameNumArgs mem fp + k)).take (fp - (4 + k) - sp)
      = operands := by
    rw [hvars, ← hargsLength, ← htempsLength, ← List.length_append, List.drop_left,
      htempsLength, ← hoperandsLength, List.take_length]
  -- the receiver and the arguments
  have hwords : Holds (pushAll args (t.push ctx.receiver)).mem
      (pushAll args (t.push ctx.receiver)).sp (args.reverse ++ [ctx.receiver]) := by
    refine pushAll_holds ⟨Function.update_self _ _ _, trivial⟩ ?_
    show args.length ≤ t.sp - 1
    omega
  have hsp₁ : (pushAll args (t.push ctx.receiver)).sp = t.sp - 1 - args.length := pushAll_sp _ _
  have hlimit₁ : (pushAll args (t.push ctx.receiver)).limitLow = t.limitLow := by
    rw [pushAll_rest]
    rfl
  -- the header
  obtain ⟨s, hact⟩ : ∃ s, activateMethod savedIp ctx.method args.reverse.length k
      (pushAll args (t.push ctx.receiver)) = some s :=
    ⟨_, activateMethod_of_room (by omega)⟩
  obtain ⟨hheld, hsp₂, hfp, -, hrest⟩ := activateMethod_held hwords hact
  have hlimit : s.limitLow = t.limitLow := by rw [hrest, hlimit₁]
  have hpushed : frameFlags s.mem s.fp = frameNumArgs mem fp <<< 8 := by
    have hat : (Activation.fresh savedIp ctx.method ctx.receiver args.reverse k).fpAt s.sp
        = s.fp := by
      rw [hfp]
      simp [Activation.fpAt, Activation.fresh]
    have hword := hheld.flags
    rw [fresh_flags, List.length_reverse, hargsLength, hat] at hword
    exact hword
  rw [List.length_reverse, hargsLength] at hact
  refine ⟨pushAll operands.reverse { s with
    mem := fillFrame s.fp c (frameNumArgs mem fp) (frameFlags mem fp) temps s.mem }, ?_, ?_⟩
  · unfold activateContext
    simp only [hctx, hnumArgs, hnumTemps, hstackSize, hflags, decode_tagged, hfirst, hsecond, hthird,
      hact, hpushed, Option.bind_eq_bind, Option.bind_some, Option.pure_def]
    rw [if_neg (by omega), if_neg (by rw [hlimit]; omega)]
    rfl
  · have hsame := fillFrame_sameFrame (c := c) hargs htemps hoperands hmethod hreceiver hheld hfp
      hframe (by omega)
    rw [pushAll_rest]
    exact hsame

/-! ## §4. There and back. -/

/-- The running frame comes back from its context as it is, on every stack with room. -/
def RoundTrips (code : Nat → CompiledMethod) (s : Vm) : Prop :=
  ∃ c s', currentContext code s = (c, s') ∧
    ∀ (t : Vm) (savedIp : Nat), t.heap.context c = s'.heap.context c →
      t.limitLow + rehydratedWords s.mem s.sp s.fp ≤ t.sp →
      ∃ t', activateContext savedIp c t = some t' ∧ SameFrame s.mem s.sp s.fp t'.mem t'.sp t'.fp

/-- **Contexts stand for their frames.**  A running frame of a method or of a block that has
no context yet gets one from which it is laid out again as it is, on any stack with room;
a frame that has a context keeps it, with what was copied into it then. -/
theorem context_round_trip (code : Nat → CompiledMethod) {s : Vm} {a : Activation}
    {rest : List Activation} (h : Chain s (a :: rest))
    (hclosures : ∀ b ∈ a :: rest, b.closure ≠ some 0)
    (htemps : (code a.method).numTemps ≤ a.temps.length) :
    (a.context = none → RoundTrips code s) ∧
      (∀ c, a.context = some c → currentContext code s = (c, s)) := by
  have hroom := length_add_six_le a rest
  have hbase := h.base
  have hfp : s.fp = a.fpAt s.sp := h.fp
  have hat : a.fpAt s.sp = s.sp + (a.stack.length + a.temps.length + 4) := rfl
  obtain ⟨fuel, hfuel⟩ : ∃ fuel, s.base - s.sp = fuel + 1 := ⟨s.base - s.sp - 1, by omega⟩
  constructor
  · intro hnone
    obtain ⟨mem', h', ctx, hrun, hctx, hrec⟩ := ensureFrameContext_records code h.held
      (by omega : rest.length < fuel) (fun b hb => hclosures b (List.mem_cons_of_mem a hb)) hnone
      htemps
    refine ⟨s.heap.free, { s with mem := mem', heap := h' }, ?_, ?_⟩
    · unfold currentContext
      rw [hfuel, hfp, hrun]
    · intro t savedIp hsame hwords
      rw [hfp] at hwords ⊢
      exact activateContext_sameFrame (hsame.trans hctx) hrec (by omega) hwords savedIp
  · intro c hsome
    have hhas : frameHasContext s.mem (a.fpAt s.sp) = true := by
      rw [h.held.1.hasContext, hsome]
      rfl
    have hword : frameContext s.mem (a.fpAt s.sp) = c := by
      unfold frameContext
      rw [h.held.1.context, Activation.contextWord, hsome]
      rfl
    unfold currentContext
    rw [hfuel, hfp, ensureFrameContext, if_neg (by omega), hhas, if_pos rfl, hword, ← hfp]

/-- Every method has one temporary. -/
def oneTempCode (_ : Nat) : CompiledMethod := { numTemps := 1, bytecodes := 0, bytecodeSize := 0 }

/-- A stack with one receiver on it. -/
def oneReceiver : Vm :=
  { mem := fun a => if a = 99 then 21 else 0
    sp := 99
    fp := 0
    ip := 0
    heap := { free := 8, block := fun _ => none, context := fun _ => none }
    entryFp := 0
    limitLow := 0
    base := 100 }

/-- The method at 8 has been sent to it. -/
def oneFrame : Vm := (activateMethod 0 8 0 1 oneReceiver).getD oneReceiver

theorem oneFrame_chain : Chain oneFrame [.fresh 0 8 21 [] 1] :=
  ⟨by decide +kernel, ⟨by constructor <;> decide +kernel, trivial⟩, by decide +kernel⟩

theorem oneFrame_round_trip : RoundTrips oneTempCode oneFrame :=
  (context_round_trip oneTempCode oneFrame_chain
    (fun b hb => by
      obtain rfl := List.mem_singleton.mp hb
      decide)
    (by decide)).1 rfl

/-- Its frame has got a context, and then its temporary has been stored into. -/
def storedFrame : Vm :=
  let s := (currentContext oneTempCode oneFrame).2
  { s with mem := frameStoreTemp s.fp 0 21 s.mem }

/-- What comes back is the temporary of before the store. -/
theorem stale_context :
    (∃ a, Chain storedFrame [a] ∧ a.closure = none ∧ (oneTempCode a.method).numTemps ≤ a.temps.length)
      ∧ ¬ RoundTrips oneTempCode storedFrame := by
  constructor
  · refine ⟨{ Activation.fresh 0 8 21 [] 1 with temps := [21], context := some 8 }, ?_, rfl,
      by decide⟩
    exact ⟨by decide +kernel, ⟨by constructor <;> decide +kernel, trivial⟩, by decide +kernel⟩
  · rintro ⟨c, s', hrun, hall⟩
    have hc : c = 8 := by
      have hfirst : (currentContext oneTempCode storedFrame).1 = 8 := by decide +kernel
      rw [hrun] at hfirst
      exact hfirst
    have hs' : s' = (currentContext oneTempCode storedFrame).2 := by rw [hrun]
    obtain ⟨t', hact, hsame⟩ := hall { storedFrame with heap := s'.heap } 0 rfl (by
      show storedFrame.limitLow + rehydratedWords storedFrame.mem storedFrame.sp storedFrame.fp
        ≤ storedFrame.sp
      decide +kernel)
    have htemp := hsame.temps 0 (by decide +kernel)
    have hback : (activateContext 0 8
        { storedFrame with heap := (currentContext oneTempCode storedFrame).2.heap }).map
          (fun t => frameTemp t.mem t.fp 0) = some 0 := by decide +kernel
    rw [hc, hs'] at hact
    rw [hact] at hback
    have hzero : frameTemp t'.mem t'.fp 0 = 0 := Option.some.inj hback
    rw [hzero] at htemp
    revert htemp
    decide +kernel

end LivingObjects.Stack
