/-
  LivingObjects.Stack.Homes — where `^` in a block returns to.

  The frames of a run carry two marks that the VM does not have: a number of their own,
  and the number of the method activation in whose text their code is written, its home.
  A closure is marked with the home and with the activation that has created it.  The
  invariant says that the context stored in a closure is the one of its creator, and so
  `^` leaves the creator's frame, which is the home when the block is not nested in
  another.
-/
import Mathlib
import LivingObjects.Stack.Contexts

namespace LivingObjects.Stack

open LivingObjects.Lib

/-! ## §1. The walk for the home frame. -/

/-- The walk finds the innermost frame with the context. -/
theorem findHome_found {mem : Nat → Nat} {c p fuel : Nat} {pre rest : List Activation}
    {a : Activation} (hheld : ChainAt mem p (pre ++ a :: rest)) (hfuel : pre.length < fuel)
    (hpre : ∀ b ∈ pre, b.context ≠ some c) (ha : a.context = some c) :
    findHome mem c fuel (fpOf p (pre ++ a :: rest)) = some (a.fpAt (p + chainSize pre)) := by
  induction pre generalizing p fuel with
  | nil =>
    obtain ⟨fuel, rfl⟩ : ∃ f, fuel = f + 1 := ⟨fuel - 1, by omega⟩
    have hfp := four_le_fpAt p a
    have hword : frameContext mem (a.fpAt p) = c := by
      unfold frameContext
      rw [hheld.1.context, Activation.contextWord, ha]
      rfl
    rw [List.nil_append, fpOf_cons, findHome, if_neg (by omega), hheld.1.hasContext, ha,
      if_pos ⟨rfl, hword⟩]
    rfl
  | cons b pre ih =>
    rw [List.length_cons] at hfuel
    obtain ⟨fuel, rfl⟩ : ∃ f, fuel = f + 1 := ⟨fuel - 1, by omega⟩
    have hfp := four_le_fpAt p b
    have hheld' : Held mem p (fpOf (p + b.size) (pre ++ a :: rest)) b := hheld.1
    have hnot : ¬(frameHasContext mem (b.fpAt p) = true ∧ frameContext mem (b.fpAt p) = c) := by
      rintro ⟨hhas, hword⟩
      rw [hheld'.hasContext, Option.isSome_iff_exists] at hhas
      obtain ⟨x, hx⟩ := hhas
      refine hpre b List.mem_cons_self ?_
      unfold frameContext at hword
      rw [hheld'.context, Activation.contextWord, hx] at hword
      rw [hx]
      exact congrArg some hword
    rw [List.cons_append, fpOf_cons, findHome, if_neg (by omega), if_neg hnot, hheld'.savedFp,
      ih hheld.2 (by omega) fun x hx => hpre x (List.mem_cons_of_mem b hx), chainSize_cons,
      Nat.add_assoc]

theorem findHome_none {mem : Nat → Nat} {c p : Nat} {acts : List Activation} (fuel : Nat)
    (hheld : ChainAt mem p acts) (hnone : ∀ b ∈ acts, b.context ≠ some c) :
    findHome mem c fuel (fpOf p acts) = none := by
  induction acts generalizing p fuel with
  | nil => cases fuel <;> rfl
  | cons b rest ih =>
    cases fuel with
    | zero => rfl
    | succ fuel =>
      have hfp := four_le_fpAt p b
      have hnot : ¬(frameHasContext mem (b.fpAt p) = true ∧ frameContext mem (b.fpAt p) = c) := by
        rintro ⟨hhas, hword⟩
        rw [hheld.1.hasContext, Option.isSome_iff_exists] at hhas
        obtain ⟨x, hx⟩ := hhas
        refine hnone b List.mem_cons_self ?_
        unfold frameContext at hword
        rw [hheld.1.context, Activation.contextWord, hx] at hword
        rw [hx]
        exact congrArg some hword
      rw [fpOf_cons, findHome, if_neg (by omega), if_neg hnot, hheld.1.savedFp]
      exact ih fuel hheld.2 fun x hx => hnone x (List.mem_cons_of_mem b hx)

/-- The frame pointer of what waits below some frames lies above them, if anything does. -/
theorem fpOf_above (p : Nat) (a : Activation) (pre rest : List Activation) :
    fpOf (p + chainSize (a :: pre)) rest = 0 ∨ a.fpAt p < fpOf (p + chainSize (a :: pre)) rest := by
  cases rest with
  | nil => exact Or.inl rfl
  | cons b rest =>
    have hlt := fpAt_lt p a
    have hle := le_fpAt (p + chainSize (a :: pre)) b
    rw [fpOf_cons]
    rw [chainSize_cons] at hle ⊢
    omega

/-! ## §2. The outcome of `^`. -/

/-- The frame the VM goes on with. -/
def Outcome.fp? : Outcome → Option Nat
  | .resumed s => some s.fp
  | .returned _ s => some s.fp
  | _ => none

/-- The VM after a return from the activation that `pre` has been called from: the value lies
in the receiver slot of the send, on top of what the caller had there. -/
def leaveFrame (s : Vm) (pre : List Activation) (a : Activation) (rest : List Activation)
    (value : Nat) : Vm :=
  let p := s.sp + chainSize pre
  let slot := a.fpAt p + 2 + a.args.length
  { s with
    mem := Function.update s.mem slot value
    sp := slot
    fp := fpOf (p + a.size) rest
    ip := a.savedIp }

/-- `^` returns the value to the caller of the activation, which goes on after its send; when
the loop has been entered with the activation, the loop returns. -/
def ReturnsFrom (s : Vm) (pre : List Activation) (a : Activation) (rest : List Activation)
    (value : Nat) : Prop :=
  if a.fpAt (s.sp + chainSize pre) = s.entryFp then
    returnNonLocal s = .returned value { leaveFrame s pre a rest value with ip := s.ip }
  else returnNonLocal s = .resumed (leaveFrame s pre a rest value)

/-- The caller has its stack as it was below the send, and the value on it. -/
theorem leaveFrame_chain {s : Vm} {pre : List Activation} {a caller : Activation}
    {rest : List Activation} (h : Chain s (pre ++ a :: caller :: rest)) (value : Nat) :
    Chain (leaveFrame s pre a (caller :: rest) value)
      ({ caller with stack := value :: caller.stack } :: rest) := by
  have hheld := h.held.drop
  have hbase := h.base
  have hlt := fpAt_lt (s.sp + chainSize pre) a
  rw [chainSize_append, chainSize_cons, ← Nat.add_assoc, ← Nat.add_assoc] at hbase
  have hcaller : Chain { s with
      sp := s.sp + chainSize pre + a.size
      fp := fpOf (s.sp + chainSize pre + a.size) (caller :: rest) } (caller :: rest) :=
    ⟨rfl, hheld.2, hbase⟩
  have hpushed := hcaller.push (by show 0 < s.sp + chainSize pre + a.size; omega) value
  have hslot : s.sp + chainSize pre + a.size - 1
      = a.fpAt (s.sp + chainSize pre) + 2 + a.args.length := by omega
  obtain ⟨hfp, hwords, hends⟩ := hpushed
  simp only [Vm.push, hslot] at hfp hwords hends
  exact ⟨hfp, hwords, hends⟩

/-- A context is resumed on the free part of the stack. -/
theorem activateContext_fp {savedIp context : Nat} {s s' : Vm}
    (h : activateContext savedIp context s = some s') : 0 < s'.fp ∧ s'.fp < s.sp := by
  simp only [activateContext, Option.bind_eq_bind, Option.bind_eq_some_iff] at h
  obtain ⟨ctx, -, h⟩ := h
  split at h
  · cases h
  · obtain ⟨s₁, hact, h⟩ := Option.bind_eq_some_iff.mp h
    obtain ⟨hlow, hs₁⟩ := activateMethod_some hact
    have hsp := pushAll_sp (ctx.vars.take (decodeSmallintField ctx.numArgs)) (s.push ctx.receiver)
    rw [push_sp] at hsp
    have hfp : s₁.fp = (pushAll (ctx.vars.take (decodeSmallintField ctx.numArgs))
        (s.push ctx.receiver)).sp - 2 := by rw [hs₁]
    split at h
    · cases h
    · have hs' : s'.fp = s₁.fp := by
        rw [← Option.some.inj h, pushAll_rest]
      omega

theorem resumeSenderContext_fp {value sender : Nat} {s s' : Vm}
    (h : resumeSenderContext value sender s = some s') : 0 < s'.fp ∧ s'.fp < s.sp := by
  simp only [resumeSenderContext, Option.bind_eq_bind] at h
  split at h
  · cases h
  · obtain ⟨ctx, -, h⟩ := Option.bind_eq_some_iff.mp h
    obtain ⟨s₁, hact, h⟩ := Option.bind_eq_some_iff.mp h
    have hs' : s'.fp = s₁.fp := by
      rw [← Option.some.inj h]
      rfl
    have hfp := activateContext_fp hact
    rw [hs']
    exact hfp

section NonLocal

variable {s : Vm} {pre : List Activation} {x : Activation} {rest : List Activation}
variable {c value : Nat}

/-- What `^` does when the home context belongs to a frame of the stack. -/
theorem returnNonLocal_found (h : Chain s (pre ++ x :: rest))
    (hhome : blockHomeContextForFrame s.mem s.heap s.fp = c) (hvalue : s.mem s.sp = value)
    (hpre : ∀ b ∈ pre, b.context ≠ some c) (hx : x.context = some c) :
    let p := s.sp + chainSize pre
    let slot := x.fpAt p + 2 + x.args.length % 256
    let s' : Vm := { s with
      mem := Function.update s.mem slot value
      sp := slot
      fp := fpOf (p + x.size) rest }
    returnNonLocal s = if x.fpAt p = s.entryFp then .returned value s'
      else .resumed { s' with ip := x.savedIp } := by
  have hbase := h.base
  have hlength : pre.length < s.base - s.sp := by
    have hsize := length_add_six_le x rest
    have hpreSize : pre.length ≤ chainSize pre := by
      cases pre with
      | nil => exact Nat.le_refl 0
      | cons b pre =>
        have hlt := length_add_six_le b pre
        rw [List.length_cons]
        omega
    rw [chainSize_append] at hbase
    omega
  have hfound := findHome_found h.held hlength hpre hx
  have hheld : Held s.mem (s.sp + chainSize pre) _ x := h.held.drop.1
  have hargs : frameNumArgs s.mem (x.fpAt (s.sp + chainSize pre)) = x.args.length % 256 := by
    rw [frameNumArgs, frameFlags, hheld.flags, flags_numArgs]
  have hip : frameSavedIp s.mem (x.fpAt (s.sp + chainSize pre)) = x.savedIp := hheld.savedIp
  rw [← h.fp] at hfound
  unfold returnNonLocal
  rw [hhome]
  simp only [hfound, hvalue, hargs, hip, hheld.savedFp]

/-- When it belongs to none, the VM goes on with no frame of the stack below the first. -/
theorem returnNonLocal_lost {acts : List Activation} (h : Chain s acts) (hfp : s.sp < s.fp)
    (hhome : blockHomeContextForFrame s.mem s.heap s.fp = c)
    (hnone : ∀ b ∈ acts, b.context ≠ some c) {f : Nat} (hf : (returnNonLocal s).fp? = some f) :
    0 < f ∧ f ≤ s.fp := by
  have hlost := findHome_none (s.base - s.sp) h.held hnone
  rw [← h.fp] at hlost
  unfold returnNonLocal at hf
  rw [hhome] at hf
  simp only [hlost] at hf
  unfold returnToSender at hf
  dsimp only at hf
  split at hf
  · obtain rfl := Option.some.inj hf
    omega
  · split at hf
    · rename_i s' hresumed
      obtain rfl := Option.some.inj hf
      split at hresumed
      · have hresume := resumeSenderContext_fp hresumed
        omega
      · cases hresumed
    · split at hf <;> cases hf

end NonLocal

/-! ## §3. Marked frames. -/

/-- A frame, its number and that of its home. -/
structure Frame where
  act : Activation
  id : Nat
  home : Nat

/-- Where a closure comes from. -/
structure Origin where
  creator : Nat
  home : Nat

/-- The VM with the marks. -/
structure State where
  vm : Vm
  frames : List Frame
  closures : Nat → Option Origin
  /-- The next number. -/
  next : Nat

def Frame.withAct (f : Frame) (a : Activation) : Frame := { f with act := a }

def Frame.withStack (f : Frame) (stack : List Nat) : Frame :=
  f.withAct { f.act with stack := stack }

/-- `materialize` on frames. -/
def giveContexts : Nat → List Frame → List Frame
  | _, [] => []
  | free, f :: rest =>
    if f.act.context.isSome then f :: rest
    else f.withAct { f.act with context := some free } :: giveContexts (free + 8) rest

/-- The frame that runs has another stack. -/
def setStack (stack : List Nat → List Nat) : List Frame → List Frame
  | [] => []
  | f :: rest => f.withStack (stack f.act.stack) :: rest

def State.acts (st : State) : List Activation := st.frames.map Frame.act

/-- A context belongs to one frame. -/
def ContextsApart (fs : List Frame) : Prop :=
  ∀ f ∈ fs, ∀ g ∈ fs, ∀ c, f.act.context = some c → g.act.context = some c → f.id = g.id

/-- A method is its own home, and a block has that of its closure. -/
def Frame.At (f : Frame) (h : Heap) (closures : Nat → Option Origin) : Prop :=
  match f.act.closure with
  | none => f.home = f.id
  | some b => (∃ blk, h.block b = some blk) ∧ ∀ o, closures b = some o → f.home = o.home

/-- **What holds in every state.** -/
structure Marked (st : State) : Prop where
  chain : Chain st.vm st.acts
  aligned : st.vm.heap.free % 8 = 0
  free : 0 < st.vm.heap.free
  contexts : ∀ a ∈ st.acts, HasContext st.vm.heap a
  apart : ContextsApart st.frames
  ids : (st.frames.map Frame.id).Nodup
  fresh : ∀ f ∈ st.frames, f.id < st.next
  blocks : ∀ b blk, st.vm.heap.block b = some blk → 0 < b ∧ b % 8 = 0 ∧ b < st.vm.heap.free
  homes : ∀ f ∈ st.frames, f.At st.vm.heap st.closures
  /-- A closure holds the context of its creator. -/
  closures : ∀ b o, st.closures b = some o → o.creator < st.next ∧
    ∃ blk, st.vm.heap.block b = some blk ∧ blk.homeContext < st.vm.heap.free ∧
      ∀ f ∈ st.frames, f.act.context = some blk.homeContext ↔ f.id = o.creator

/-! ## §4. Steps of a loop. -/

/-- A step within one interpreter loop: bytecodes that move the ip or work on the operands,
sends and block calls that make a frame, and returns to a frame of the stack. -/
inductive Step (code : Nat → CompiledMethod) : State → State → Prop
  | advance {st : State} (ip : Nat) : Step code st { st with vm := { st.vm with ip := ip } }
  | push {st : State} {f : Frame} {rest : List Frame} (v : Nat)
      (hframes : st.frames = f :: rest) (hroom : st.vm.limitLow < st.vm.sp) :
      Step code st { st with
        vm := st.vm.push v
        frames := f.withStack (v :: f.act.stack) :: rest }
  | pop {st : State} {f : Frame} {rest : List Frame} {vs below : List Nat}
      (hframes : st.frames = f :: rest) (hstack : f.act.stack = vs ++ below) :
      Step code st { st with
        vm := { st.vm with sp := st.vm.sp + vs.length }
        frames := f.withStack below :: rest }
  | storeTemp {st : State} {f : Frame} {rest : List Frame} {i : Nat} (v : Nat)
      (hframes : st.frames = f :: rest) (hi : i < f.act.temps.length) :
      Step code st { st with
        vm := { st.vm with mem := frameStoreTemp st.vm.fp i v st.vm.mem }
        frames := f.withAct { f.act with temps := f.act.temps.set i v } :: rest }
  | send {st : State} {f : Frame} {rest : List Frame} {method receiver : Nat}
      {args below : List Nat} {vm : Vm} (hframes : st.frames = f :: rest)
      (hstack : f.act.stack = args ++ receiver :: below)
      (hsend : sendMethod code method args.length st.vm = some vm) :
      Step code st { st with
        vm := vm
        frames := ⟨.fresh st.vm.ip method receiver args (code method).numTemps, st.next, st.next⟩
          :: f.withStack below :: rest
        next := st.next + 1 }
  | call {st : State} {f : Frame} {rest : List Frame} {block : Nat} {blk : BlockClosure}
      {home : Nat} {args below : List Nat} {vm : Vm} (hframes : st.frames = f :: rest)
      (hstack : f.act.stack = args ++ block :: below)
      (hhome : ∀ o, st.closures block = some o → home = o.home)
      (hblk : st.vm.heap.block block = some blk)
      (hcall : activateBlockCall code args.length st.vm = some vm) :
      Step code st { st with
        vm := vm
        frames := ⟨.freshBlock st.vm.ip block blk args (code blk.method).numTemps, st.next, home⟩
          :: f.withStack below :: rest
        next := st.next + 1 }
  | closure {st : State} {f : Frame} {rest : List Frame} (blockMethod : Nat)
      (hframes : st.frames = f :: rest) (hroom : st.vm.limitLow < st.vm.sp) :
      Step code st { st with
        vm := pushClosure code blockMethod st.vm
        frames := setStack (freeAfter st.vm.heap.free st.acts :: ·)
          (giveContexts st.vm.heap.free st.frames)
        closures := Function.update st.closures (freeAfter st.vm.heap.free st.acts)
          (some ⟨f.id, f.home⟩) }
  | thisContext {st : State} {f : Frame} {rest : List Frame}
      (hframes : st.frames = f :: rest) (hroom : st.vm.limitLow < st.vm.sp) :
      Step code st { st with
        vm := pushThisContext code st.vm
        frames := setStack ((currentContext code st.vm).1 :: ·)
          (giveContexts st.vm.heap.free st.frames) }
  | returnTop {st : State} {f caller : Frame} {rest : List Frame} {value : Nat} {below : List Nat}
      {vm : Vm} (hframes : st.frames = f :: caller :: rest)
      (hstack : f.act.stack = value :: below) (hargs : f.act.args.length < 256)
      (hreturn : returnStackTop st.vm = .resumed vm) :
      Step code st { st with
        vm := vm
        frames := caller.withStack (value :: caller.act.stack) :: rest }
  | returnNonLocal {st : State} {x caller : Frame} {pre rest : List Frame} {value : Nat} {vm : Vm}
      (hframes : st.frames = pre ++ x :: caller :: rest) (hvalue : st.vm.mem st.vm.sp = value)
      (hpre : ∀ f ∈ pre, f.act.context
        ≠ some (blockHomeContextForFrame st.vm.mem st.vm.heap st.vm.fp))
      (hx : x.act.context = some (blockHomeContextForFrame st.vm.mem st.vm.heap st.vm.fp))
      (hargs : x.act.args.length < 256) (hreturn : returnNonLocal st.vm = .resumed vm) :
      Step code st { st with
        vm := vm
        frames := caller.withStack (value :: caller.act.stack) :: rest }

/-! ## §5. The invariant. -/

/-- What the invariant reads of a frame. -/
def Frame.key (f : Frame) : Nat × Nat × Option Nat × Option Nat :=
  (f.id, f.home, f.act.closure, f.act.context)

theorem hasContext_congr {h : Heap} {a b : Activation} (hctx : HasContext h a)
    (hclosure : b.closure = a.closure) (hcontext : b.context = a.context) : HasContext h b := by
  intro c hc
  obtain ⟨hpos, hlt, ctx, hat, hcl, hhome⟩ := hctx c (hcontext ▸ hc)
  refine ⟨hpos, hlt, ctx, hat, by rw [hclosure]; exact hcl, ?_⟩
  unfold homeOf
  rw [hclosure]
  exact hhome

theorem Frame.At.congr {f f' : Frame} {h : Heap} {closures : Nat → Option Origin}
    (hat : f.At h closures) (hid : f'.id = f.id) (hhome : f'.home = f.home)
    (hclosure : f'.act.closure = f.act.closure) : f'.At h closures := by
  unfold Frame.At at hat ⊢
  rw [hid, hhome, hclosure]
  exact hat

/-- Frames may go, and change where the invariant does not look. -/
theorem Marked.shrink {st st' : State} (h : Marked st) (hchain : Chain st'.vm st'.acts)
    (hheap : st'.vm.heap = st.vm.heap) (hclosures : st'.closures = st.closures)
    (hnext : st'.next = st.next)
    (hkeys : (st'.frames.map Frame.key).Sublist (st.frames.map Frame.key)) : Marked st' := by
  have hold : ∀ f' ∈ st'.frames, ∃ f ∈ st.frames, f.id = f'.id ∧ f.home = f'.home ∧
      f.act.closure = f'.act.closure ∧ f.act.context = f'.act.context := by
    intro f' hf'
    obtain ⟨f, hf, hkey⟩ := List.mem_map.mp (hkeys.subset (List.mem_map_of_mem hf'))
    simp only [Frame.key, Prod.mk.injEq] at hkey
    exact ⟨f, hf, hkey⟩
  refine {
    chain := hchain
    aligned := hheap ▸ h.aligned
    free := hheap ▸ h.free
    contexts := fun a ha => ?_
    apart := fun f' hf' g' hg' c hc hc' => ?_
    ids := ?_
    fresh := fun f' hf' => ?_
    blocks := hheap ▸ h.blocks
    homes := fun f' hf' => ?_
    closures := fun b o ho => ?_ }
  · obtain ⟨f', hf', rfl⟩ := List.mem_map.mp ha
    obtain ⟨f, hf, -, -, hclosure, hcontext⟩ := hold f' hf'
    rw [hheap]
    exact hasContext_congr (h.contexts _ (List.mem_map_of_mem hf)) hclosure.symm hcontext.symm
  · obtain ⟨f, hf, hid, -, -, hcontext⟩ := hold f' hf'
    obtain ⟨g, hg, hid', -, -, hcontext'⟩ := hold g' hg'
    rw [← hid, ← hid']
    exact h.apart f hf g hg c (hcontext.trans hc) (hcontext'.trans hc')
  · have hsub := hkeys.map Prod.fst
    rw [List.map_map, List.map_map] at hsub
    exact h.ids.sublist hsub
  · obtain ⟨f, hf, hid, -⟩ := hold f' hf'
    rw [← hid, hnext]
    exact h.fresh f hf
  · obtain ⟨f, hf, hid, hhome, hclosure, -⟩ := hold f' hf'
    have hmark := h.homes f hf
    rw [hheap, hclosures]
    exact hmark.congr hid.symm hhome.symm hclosure.symm
  · rw [hclosures] at ho
    obtain ⟨hcreator, blk, hblk, hhome, hiff⟩ := h.closures b o ho
    rw [hheap, hnext]
    refine ⟨hcreator, blk, hblk, hhome, fun f' hf' => ?_⟩
    obtain ⟨f, hf, hid, -, -, hcontext⟩ := hold f' hf'
    rw [← hid, ← hcontext]
    exact hiff f hf

/-- A frame is entered, with a new number and no context. -/
theorem Marked.enter {st st' : State} (h : Marked st) {f : Frame} {rest : List Frame}
    (hchain : Chain st'.vm st'.acts) (hheap : st'.vm.heap = st.vm.heap)
    (hclosures : st'.closures = st.closures) (hnext : st'.next = st.next + 1)
    (hframes : st'.frames = f :: rest)
    (hkeys : rest.map Frame.key = st.frames.map Frame.key) (hid : f.id = st.next)
    (hcontext : f.act.context = none) (hhome : f.At st.vm.heap st.closures) : Marked st' := by
  have hold : ∀ f' ∈ rest, ∃ f ∈ st.frames, f.id = f'.id ∧ f.home = f'.home ∧
      f.act.closure = f'.act.closure ∧ f.act.context = f'.act.context := by
    intro f' hf'
    obtain ⟨f, hf, hkey⟩ := List.mem_map.mp (hkeys ▸ List.mem_map_of_mem hf')
    simp only [Frame.key, Prod.mk.injEq] at hkey
    exact ⟨f, hf, hkey⟩
  refine {
    chain := hchain
    aligned := hheap ▸ h.aligned
    free := hheap ▸ h.free
    contexts := fun a ha => ?_
    apart := fun f' hf' g' hg' c hc hc' => ?_
    ids := ?_
    fresh := fun f' hf' => ?_
    blocks := hheap ▸ h.blocks
    homes := fun f' hf' => ?_
    closures := fun b o ho => ?_ }
  · obtain ⟨f', hf', rfl⟩ := List.mem_map.mp ha
    rw [hframes] at hf'
    rcases List.mem_cons.mp hf' with rfl | hf'
    · intro c hc
      rw [hcontext] at hc
      cases hc
    · obtain ⟨x, hx, -, -, hclosure, hctx⟩ := hold f' hf'
      rw [hheap]
      exact hasContext_congr (h.contexts _ (List.mem_map_of_mem hx)) hclosure.symm hctx.symm
  · rw [hframes] at hf' hg'
    rcases List.mem_cons.mp hf' with rfl | hf'
    · rw [hcontext] at hc
      cases hc
    rcases List.mem_cons.mp hg' with rfl | hg'
    · rw [hcontext] at hc'
      cases hc'
    obtain ⟨x, hx, hsame, -, -, hctx⟩ := hold f' hf'
    obtain ⟨y, hy, hsame', -, -, hctx'⟩ := hold g' hg'
    rw [← hsame, ← hsame']
    exact h.apart x hx y hy c (hctx.trans hc) (hctx'.trans hc')
  · have hids : rest.map Frame.id = st.frames.map Frame.id := by
      have hfst := congrArg (List.map Prod.fst) hkeys
      rw [List.map_map, List.map_map] at hfst
      exact hfst
    rw [hframes, List.map_cons, hids, hid]
    refine List.nodup_cons.mpr ⟨fun hmem => ?_, h.ids⟩
    obtain ⟨x, hx, hsame⟩ := List.mem_map.mp hmem
    exact Nat.lt_irrefl _ (hsame ▸ h.fresh x hx)
  · rw [hframes] at hf'
    rw [hnext]
    rcases List.mem_cons.mp hf' with rfl | hf'
    · rw [hid]
      exact Nat.lt_succ_self _
    · obtain ⟨x, hx, hsame, -⟩ := hold f' hf'
      exact Nat.lt_succ_of_lt (hsame ▸ h.fresh x hx)
  · rw [hframes] at hf'
    rw [hheap, hclosures]
    rcases List.mem_cons.mp hf' with rfl | hf'
    · exact hhome
    · obtain ⟨x, hx, hsame, hhomes, hclosure, -⟩ := hold f' hf'
      exact (h.homes x hx).congr hsame.symm hhomes.symm hclosure.symm
  · rw [hclosures] at ho
    obtain ⟨hcreator, blk, hblk, hctx, hiff⟩ := h.closures b o ho
    rw [hheap, hnext]
    refine ⟨Nat.lt_succ_of_lt hcreator, blk, hblk, hctx, fun f' hf' => ?_⟩
    rw [hframes] at hf'
    rcases List.mem_cons.mp hf' with rfl | hf'
    · -- the creator is an older activation
      rw [hcontext, hid]
      exact iff_of_false (fun hno => by cases hno) (Nat.ne_of_gt hcreator)
    · obtain ⟨x, hx, hsame, -, -, hcontexts⟩ := hold f' hf'
      rw [← hsame, ← hcontexts]
      exact hiff x hx

/-! ## §6. Contexts for the frames. -/

theorem giveContexts_act (free : Nat) (fs : List Frame) :
    (giveContexts free fs).map Frame.act = materialize free (fs.map Frame.act) := by
  induction fs generalizing free with
  | nil => rfl
  | cons f rest ih =>
    rw [giveContexts, List.map_cons, materialize]
    split
    · rfl
    · rw [List.map_cons, ih]
      rfl

theorem giveContexts_cons (free : Nat) (f : Frame) (rest : List Frame) :
    ∃ c rest', giveContexts free (f :: rest)
      = f.withAct { f.act with context := some c } :: rest' := by
  rw [giveContexts]
  cases hcontext : f.act.context with
  | none => exact ⟨free, _, if_neg (by simp)⟩
  | some c =>
    refine ⟨c, rest, (if_pos rfl).trans ?_⟩
    rw [← hcontext]
    rfl

theorem giveContexts_id (free : Nat) (fs : List Frame) :
    (giveContexts free fs).map Frame.id = fs.map Frame.id := by
  induction fs generalizing free with
  | nil => rfl
  | cons f rest ih =>
    rw [giveContexts]
    split
    · rfl
    · rw [List.map_cons, ih]
      rfl

/-- A frame keeps the context it has, or is given a new one. -/
theorem mem_giveContexts {free : Nat} {fs : List Frame} {f' : Frame}
    (h : f' ∈ giveContexts free fs) : ∃ f ∈ fs, f'.id = f.id ∧ f'.home = f.home ∧
      f'.act.closure = f.act.closure ∧ (f'.act.context = f.act.context ∨
        f.act.context = none ∧ ∃ c, f'.act.context = some c ∧ free ≤ c) := by
  induction fs generalizing free with
  | nil => cases h
  | cons f rest ih =>
    rw [giveContexts] at h
    split at h
    · exact ⟨f', h, rfl, rfl, rfl, Or.inl rfl⟩
    · rename_i hnone
      rcases List.mem_cons.mp h with rfl | h
      · exact ⟨f, List.mem_cons_self, rfl, rfl, rfl,
          Or.inr ⟨Option.not_isSome_iff_eq_none.mp hnone, free, rfl, Nat.le_refl free⟩⟩
      · obtain ⟨x, hx, hid, hhome, hclosure, hcontext⟩ := ih h
        refine ⟨x, List.mem_cons_of_mem f hx, hid, hhome, hclosure, hcontext.imp_right ?_⟩
        rintro ⟨hold, c, hc, hle⟩
        exact ⟨hold, c, hc, by omega⟩

theorem ContextsApart.giveContexts {free : Nat} {fs : List Frame} (h : ContextsApart fs)
    (hbelow : ∀ f ∈ fs, ∀ c, f.act.context = some c → c < free) :
    ContextsApart (giveContexts free fs) := by
  induction fs generalizing free with
  | nil => exact h
  | cons f rest ih =>
    rw [Stack.giveContexts]
    split
    · exact h
    · have hrest : ContextsApart (Stack.giveContexts (free + 8) rest) :=
        ih (fun x hx y hy => h x (List.mem_cons_of_mem f hx) y (List.mem_cons_of_mem f hy))
          fun x hx c hc => Nat.lt_add_right 8 (hbelow x (List.mem_cons_of_mem f hx) c hc)
      -- no other frame has the new context: the old ones are below, the other new ones above
      have hnew : ∀ g ∈ Stack.giveContexts (free + 8) rest, g.act.context ≠ some free := by
        intro g hg hfree
        obtain ⟨x, hx, -, -, -, hsame | ⟨-, c, hc, hle⟩⟩ := mem_giveContexts hg
        · have hlt := hbelow x (List.mem_cons_of_mem f hx) free (hsame ▸ hfree)
          omega
        · rw [hfree] at hc
          obtain rfl := Option.some.inj hc
          omega
      intro x hx y hy c hc hc'
      rcases List.mem_cons.mp hx with rfl | hx <;> rcases List.mem_cons.mp hy with rfl | hy
      · rfl
      · obtain rfl := Option.some.inj hc
        exact absurd hc' (hnew y hy)
      · obtain rfl := Option.some.inj hc'
        exact absurd hc (hnew x hx)
      · exact hrest x hx y hy c hc hc'

theorem freeAfter_aligned {free : Nat} (acts : List Activation) (h : free % 8 = 0) :
    freeAfter free acts % 8 = 0 := by
  induction acts generalizing free with
  | nil => exact h
  | cons a rest ih =>
    rw [freeAfter]
    split
    · exact h
    · exact ih (by omega)

theorem Marked.closuresIn {st : State} (h : Marked st) : ClosuresIn st.vm.heap st.acts := by
  intro a ha b hb
  obtain ⟨f, hf, rfl⟩ := List.mem_map.mp ha
  have hhome := h.homes f hf
  unfold Frame.At at hhome
  rw [hb] at hhome
  obtain ⟨⟨blk, hblk⟩, -⟩ := hhome
  obtain ⟨hpos, haligned, hlt⟩ := h.blocks b blk hblk
  refine ⟨hpos, fun hnil => ?_, hlt⟩
  rw [hnil] at haligned
  exact absurd haligned (by decide)

/-- The frames are given contexts. -/
theorem Marked.ensure {st : State} (h : Marked st) {mem' : Nat → Nat} {h' : Heap}
    (hens : Ensured st.vm.sp st.acts st.vm.mem st.vm.heap mem' h') :
    Marked { st with
      vm := { st.vm with mem := mem', heap := h' }
      frames := giveContexts st.vm.heap.free st.frames } := by
  have hacts : ({ st with
      vm := { st.vm with mem := mem', heap := h' }
      frames := giveContexts st.vm.heap.free st.frames } : State).acts
      = materialize st.vm.heap.free st.acts := giveContexts_act _ _
  have hlefree : st.vm.heap.free ≤ h'.free := by
    rw [hens.free]
    exact le_freeAfter _ _
  have hbelow : ∀ f ∈ st.frames, ∀ c, f.act.context = some c → c < st.vm.heap.free :=
    fun f hf c hc => (h.contexts _ (List.mem_map_of_mem hf) c hc).2.1
  refine {
    chain := ?_
    aligned := ?_
    free := Nat.lt_of_lt_of_le h.free hlefree
    contexts := ?_
    apart := h.apart.giveContexts hbelow
    ids := ?_
    fresh := fun f' hf' => ?_
    blocks := fun b blk hblk => ?_
    homes := fun f' hf' => ?_
    closures := fun b o ho => ?_ }
  · rw [hacts]
    exact hens.toChain h.chain
  · show h'.free % 8 = 0
    rw [hens.free]
    exact freeAfter_aligned _ h.aligned
  · rw [hacts]
    exact hens.contexts h.free h.contexts
  · rw [giveContexts_id]
    exact h.ids
  · obtain ⟨f, hf, hid, -⟩ := mem_giveContexts hf'
    rw [hid]
    exact h.fresh f hf
  · obtain ⟨hpos, haligned, hlt⟩ := h.blocks b blk (hens.block ▸ hblk)
    exact ⟨hpos, haligned, Nat.lt_of_lt_of_le hlt hlefree⟩
  · obtain ⟨f, hf, hid, hhome, hclosure, -⟩ := mem_giveContexts hf'
    have hmark := (h.homes f hf).congr hid hhome hclosure
    unfold Frame.At at hmark ⊢
    show match f'.act.closure with
      | none => _
      | some b => (∃ blk, h'.block b = some blk) ∧ _
    rw [hens.block]
    exact hmark
  · obtain ⟨hcreator, blk, hblk, hctx, hiff⟩ := h.closures b o ho
    refine ⟨hcreator, blk, ?_, Nat.lt_of_lt_of_le hctx hlefree, fun f' hf' => ?_⟩
    · show h'.block b = some blk
      rw [hens.block]
      exact hblk
    · obtain ⟨f, hf, hid, -, -, hsame | ⟨hnone, c, hc, hle⟩⟩ := mem_giveContexts hf'
      · rw [hsame, hid]
        exact hiff f hf
      · rw [hid, ← hiff f hf, hc, hnone]
        refine iff_of_false (fun heq => ?_) (fun hno => by cases hno)
        have hsame := Option.some.inj heq
        omega

theorem setStack_act {f : Frame} {rest : List Frame} {fs : List Frame} (hfs : fs = f :: rest)
    (stack : List Nat → List Nat) : (setStack stack fs).map Frame.act
      = { f.act with stack := stack f.act.stack } :: rest.map Frame.act := by
  rw [hfs]
  rfl

theorem setStack_key (stack : List Nat → List Nat) (fs : List Frame) :
    (setStack stack fs).map Frame.key = fs.map Frame.key := by
  cases fs <;> rfl

/-- Frames with other keys the same are the same for the invariant. -/
theorem mem_of_keys {fs fs' : List Frame} (hkeys : fs'.map Frame.key = fs.map Frame.key)
    {f' : Frame} (hf' : f' ∈ fs') : ∃ f ∈ fs, f.id = f'.id ∧ f.home = f'.home ∧
      f.act.closure = f'.act.closure ∧ f.act.context = f'.act.context := by
  obtain ⟨f, hf, hkey⟩ := List.mem_map.mp (hkeys ▸ List.mem_map_of_mem hf')
  simp only [Frame.key, Prod.mk.injEq] at hkey
  exact ⟨f, hf, hkey⟩

/-- A closure is made in the frame that runs, whose context it holds. -/
theorem Marked.addClosure {st st' : State} (h : Marked st) {f : Frame} {rest : List Frame}
    (hframes : st.frames = f :: rest) {c : Nat} (hc : f.act.context = some c)
    {blk : BlockClosure} (hblk : blk.homeContext = c) (hchain : Chain st'.vm st'.acts)
    (hkeys : st'.frames.map Frame.key = st.frames.map Frame.key)
    (hfree : st'.vm.heap.free = st.vm.heap.free + 8)
    (hblock : st'.vm.heap.block = Function.update st.vm.heap.block st.vm.heap.free (some blk))
    (hcontexts : ∀ a ∈ st'.acts, HasContext st'.vm.heap a) (hnext : st'.next = st.next)
    (hclosures : st'.closures
      = Function.update st.closures st.vm.heap.free (some ⟨f.id, f.home⟩)) : Marked st' := by
  have haligned := h.aligned
  have htop : f ∈ st.frames := hframes ▸ List.mem_cons_self
  -- no closure had the address yet
  have hother : ∀ b blk, st.vm.heap.block b = some blk → b ≠ st.vm.heap.free := by
    intro b blk hblk
    have hlt := (h.blocks b blk hblk).2.2
    omega
  refine {
    chain := hchain
    aligned := by rw [hfree]; omega
    free := by rw [hfree]; omega
    contexts := hcontexts
    apart := fun x' hx' y' hy' d hd hd' => ?_
    ids := ?_
    fresh := fun x' hx' => ?_
    blocks := fun b blk' hblk' => ?_
    homes := fun x' hx' => ?_
    closures := fun b o ho => ?_ }
  · obtain ⟨x, hx, hid, -, -, hcontext⟩ := mem_of_keys hkeys hx'
    obtain ⟨y, hy, hid', -, -, hcontext'⟩ := mem_of_keys hkeys hy'
    rw [← hid, ← hid']
    exact h.apart x hx y hy d (hcontext.trans hd) (hcontext'.trans hd')
  · have hfst := congrArg (List.map Prod.fst) hkeys
    rw [List.map_map, List.map_map] at hfst
    exact (show st'.frames.map Frame.id = st.frames.map Frame.id from hfst) ▸ h.ids
  · obtain ⟨x, hx, hid, -⟩ := mem_of_keys hkeys hx'
    rw [← hid, hnext]
    exact h.fresh x hx
  · rw [hblock] at hblk'
    rw [hfree]
    by_cases hnew : b = st.vm.heap.free
    · subst hnew
      exact ⟨h.free, haligned, by omega⟩
    · rw [Function.update_of_ne hnew] at hblk'
      obtain ⟨hpos, hmod, hlt⟩ := h.blocks b blk' hblk'
      exact ⟨hpos, hmod, by omega⟩
  · obtain ⟨x, hx, hid, hhome, hclosure, -⟩ := mem_of_keys hkeys hx'
    refine Frame.At.congr ?_ hid.symm hhome.symm hclosure.symm
    have hmark := h.homes x hx
    unfold Frame.At at hmark ⊢
    cases hof : x.act.closure with
    | none =>
      rw [hof] at hmark
      exact hmark
    | some b =>
      rw [hof] at hmark
      obtain ⟨⟨blk', hblk'⟩, hsame⟩ := hmark
      have hne := hother b blk' hblk'
      rw [hclosures, hblock]
      refine ⟨⟨blk', (Function.update_of_ne hne _ _).trans hblk'⟩, fun o ho => hsame o ?_⟩
      rw [Function.update_of_ne hne] at ho
      exact ho
  · rw [hclosures] at ho
    rw [hfree, hblock, hnext]
    by_cases hnew : b = st.vm.heap.free
    · subst hnew
      rw [Function.update_self] at ho
      obtain rfl := Option.some.inj ho
      have hlt := (h.contexts _ (List.mem_map_of_mem htop) c hc).2.1
      refine ⟨h.fresh f htop, blk, Function.update_self _ _ _, by omega, fun x' hx' => ?_⟩
      obtain ⟨x, hx, hid, -, -, hcontext⟩ := mem_of_keys hkeys hx'
      rw [← hid, ← hcontext, hblk]
      constructor
      · exact fun hsame => h.apart x hx f htop c hsame hc
      · intro hsame
        rw [List.inj_on_of_nodup_map h.ids hx htop hsame]
        exact hc
    · rw [Function.update_of_ne hnew] at ho
      obtain ⟨hcreator, blk', hblk', hctx, hiff⟩ := h.closures b o ho
      refine ⟨hcreator, blk', ?_, by omega, fun x' hx' => ?_⟩
      · rw [Function.update_of_ne hnew]
        exact hblk'
      · obtain ⟨x, hx, hid, -, -, hcontext⟩ := mem_of_keys hkeys hx'
        rw [← hid, ← hcontext]
        exact hiff x hx

/-! ## §7. Every step keeps the invariant. -/

/-- `BC_RETURN_STACK_TOP` to a caller on the stack. -/
theorem returnStackTop_chain {s : Vm} {a caller : Activation} {rest : List Activation} {value : Nat}
    {below : List Nat} (h : Chain s (a :: caller :: rest)) (hstack : a.stack = value :: below)
    (hargs : a.args.length < 256) :
    returnStackTop s = if s.fp = s.entryFp then .returned value (leaveFrame s [] a (caller :: rest) value)
      else .resumed (leaveFrame s [] a (caller :: rest) value) := by
  have hheld : Held s.mem s.sp (fpOf (s.sp + a.size) (caller :: rest)) a := h.held.1
  have hfp : s.fp = a.fpAt s.sp := h.fp
  have hvalue : s.mem s.sp = value := by
    have hword := hheld.stack
    rw [hstack, holds_cons] at hword
    exact hword.1
  have hcount : frameNumArgs s.mem s.fp = a.args.length := by
    rw [hfp, frameNumArgs, frameFlags, hheld.flags, flags_numArgs]
    exact Nat.mod_eq_of_lt hargs
  have hcaller : frameSavedFp s.mem s.fp = fpOf (s.sp + a.size) (caller :: rest) := by
    rw [hfp]
    exact hheld.savedFp
  have hip : frameSavedIp s.mem s.fp = a.savedIp := by
    rw [hfp]
    exact hheld.savedIp
  have hpos : fpOf (s.sp + a.size) (caller :: rest) ≠ 0 := by
    have hfour := four_le_fpAt (s.sp + a.size) caller
    rw [fpOf_cons]
    omega
  unfold returnStackTop leaveFrame
  have hsame : a.fpAt (s.sp + chainSize []) = s.fp := hfp.symm
  simp only [hvalue, hcount, hcaller, hip, if_pos hpos, hsame]
  rfl

theorem Marked.chain_cons {st : State} (h : Marked st) {f : Frame} {rest : List Frame}
    (hframes : st.frames = f :: rest) : Chain st.vm (f.act :: rest.map Frame.act) := by
  have hchain := h.chain
  unfold State.acts at hchain
  rw [hframes] at hchain
  exact hchain

/-- **Every step keeps the invariant.** -/
theorem Marked.step {code : Nat → CompiledMethod} {st st' : State} (h : Marked st)
    (hstep : Step code st st') : Marked st' := by
  cases hstep with
  | advance ip =>
    exact h.shrink ⟨h.chain.fp, h.chain.held, h.chain.base⟩ rfl rfl rfl (List.Sublist.refl _)
  | push v hframes hroom =>
    have hpushed := (h.chain_cons hframes).push (by omega) v
    refine h.shrink hpushed rfl rfl rfl ?_
    rw [hframes]
    exact List.Sublist.refl _
  | pop hframes hstack =>
    refine h.shrink ((h.chain_cons hframes).pop hstack) rfl rfl rfl ?_
    rw [hframes]
    exact List.Sublist.refl _
  | storeTemp v hframes hi =>
    refine h.shrink ((h.chain_cons hframes).storeTemp v hi) rfl rfl rfl ?_
    rw [hframes]
    exact List.Sublist.refl _
  | send hframes hstack hsend =>
    have hpending := (h.chain_cons hframes).pending hstack
    simp only [sendMethod, Option.bind_eq_bind, Option.bind_eq_some_iff] at hsend
    obtain ⟨vm₁, hact, hvm⟩ := hsend
    obtain rfl := Option.some.inj hvm
    obtain ⟨hchain, hrest⟩ := hpending.activateMethod hact
    refine h.enter ⟨hchain.fp, hchain.held, hchain.base⟩ ?_ rfl rfl rfl ?_ rfl rfl rfl
    · show vm₁.heap = _
      rw [hrest]
    · rw [hframes]
      rfl
  | call hframes hstack hhome hblk hcall =>
    obtain ⟨hchain, hrest⟩ := (h.chain_cons hframes).activateBlockCall hstack hblk hcall
    refine h.enter hchain ?_ rfl rfl rfl ?_ rfl rfl ⟨⟨_, hblk⟩, hhome⟩
    · show Vm.heap _ = _
      rw [hrest]
    · rw [hframes]
      rfl
  | @closure f rest blockMethod hframes hroom =>
    have hclosures := h.closuresIn
    obtain ⟨context, mem', h', -, hens⟩ := h.chain.currentContext code fun b hb hzero =>
      absurd (hclosures b hb 0 hzero).1 (Nat.lt_irrefl 0)
    have hchain := h.chain_cons hframes
    have hacts : st.acts = f.act :: rest.map Frame.act := by
      unfold State.acts
      rw [hframes]
      rfl
    have hcontexts := h.contexts
    rw [hacts] at hclosures hcontexts
    obtain ⟨c, rest', blk, hpushed⟩ :=
      @Chain.pushClosure code _ _ _ hchain (by omega) h.free hcontexts hclosures blockMethod
    obtain ⟨d, frames', hgiven⟩ := giveContexts_cons st.vm.heap.free f rest
    have hmap := giveContexts_act st.vm.heap.free (f :: rest)
    rw [hgiven, List.map_cons, List.map_cons, hpushed.acts] at hmap
    injection hmap with hhead htail
    obtain rfl : d = c := Option.some.inj (congrArg Activation.context hhead)
    rw [← hframes] at hgiven
    have hpushedChain := hpushed.chain
    have hpushedFree := hpushed.free
    have hpushedBlock := hpushed.block
    have hpushedContexts := hpushed.contexts
    have hfree : h'.free = freeAfter st.vm.heap.free st.acts := hens.free
    rw [← hacts, ← htail] at hpushedChain
    rw [← hacts] at hpushedFree hpushedBlock
    rw [← htail] at hpushedContexts
    have hactive : (setStack (freeAfter st.vm.heap.free st.acts :: ·)
        (giveContexts st.vm.heap.free st.frames)).map Frame.act
        = { f.act with
            context := some d
            stack := freeAfter st.vm.heap.free st.acts :: f.act.stack } :: frames'.map Frame.act :=
      setStack_act hgiven _
    refine (h.ensure hens).addClosure hgiven rfl hpushed.home ?_ (setStack_key _ _) ?_ ?_ ?_ rfl ?_
    · show Chain (pushClosure code blockMethod st.vm) ((setStack _ _).map Frame.act)
      rw [hactive]
      exact hpushedChain
    · show _ = h'.free + 8
      rw [hfree]
      exact hpushedFree
    · show _ = Function.update h'.block h'.free (some blk)
      rw [hfree, hens.block]
      exact hpushedBlock
    · show ∀ x ∈ (setStack _ _).map Frame.act, _
      rw [hactive]
      intro x hx
      rcases List.mem_cons.mp hx with rfl | hx
      · exact hasContext_congr (hpushedContexts _ List.mem_cons_self) rfl rfl
      · exact hpushedContexts x (List.mem_cons_of_mem _ hx)
    · show _ = Function.update st.closures h'.free _
      rw [hfree]
      rfl
  | @thisContext f rest hframes hroom =>
    have hclosures := h.closuresIn
    obtain ⟨context, mem', h', hrun, hens⟩ := h.chain.currentContext code fun b hb hzero =>
      absurd (hclosures b hb 0 hzero).1 (Nat.lt_irrefl 0)
    have hensured := h.ensure hens
    obtain ⟨c, frames', hgiven⟩ := giveContexts_cons st.vm.heap.free f rest
    rw [← hframes] at hgiven
    have hpushed := (hensured.chain_cons hgiven).push (show 0 < st.vm.sp by omega) context
    have hvm : pushThisContext code st.vm
        = ({ st.vm with mem := mem', heap := h' } : Vm).push context := by
      unfold pushThisContext
      rw [hrun]
    refine hensured.shrink ?_ ?_ rfl rfl ?_
    · show Chain (pushThisContext code st.vm) ((setStack _ _).map Frame.act)
      rw [hvm, hrun, setStack_act hgiven]
      exact hpushed
    · show (pushThisContext code st.vm).heap = h'
      rw [hvm]
      rfl
    · show ((setStack _ _).map Frame.key).Sublist ((giveContexts _ _).map Frame.key)
      rw [setStack_key]
  | returnTop hframes hstack hargs hreturn =>
    have hchain := h.chain_cons hframes
    rw [List.map_cons] at hchain
    rw [returnStackTop_chain hchain hstack hargs] at hreturn
    split at hreturn
    · cases hreturn
    · injection hreturn with hvm
      subst hvm
      refine h.shrink (@leaveFrame_chain _ [] _ _ _ hchain _) rfl rfl rfl ?_
      rw [hframes]
      exact List.sublist_cons_self _ _
  | @returnNonLocal x caller pre rest value vm hframes hvalue hpre hx hargs hreturn =>
    have hchain := h.chain
    unfold State.acts at hchain
    rw [hframes, List.map_append, List.map_cons, List.map_cons] at hchain
    have hpre' : ∀ b ∈ pre.map Frame.act, b.context
        ≠ some (blockHomeContextForFrame st.vm.mem st.vm.heap st.vm.fp) := by
      intro b hb
      obtain ⟨f, hf, rfl⟩ := List.mem_map.mp hb
      exact hpre f hf
    have hfound := returnNonLocal_found hchain rfl hvalue hpre' hx
    simp only [hreturn, Nat.mod_eq_of_lt hargs] at hfound
    split at hfound
    · cases hfound
    · injection hfound with hvm
      subst hvm
      refine h.shrink (leaveFrame_chain hchain value) rfl rfl rfl ?_
      have hkept : (caller :: rest).Sublist (pre ++ x :: caller :: rest) :=
        (List.sublist_cons_self _ _).trans (List.sublist_append_right _ _)
      rw [hframes]
      exact hkept.map Frame.key

/-! ## §8. Runs. -/

/-- A loop goes on with a stack.  Its frames may run closures and have contexts already;
no closure has been made in the run. -/
structure Started (st : State) : Prop where
  chain : Chain st.vm st.acts
  aligned : st.vm.heap.free % 8 = 0
  free : 0 < st.vm.heap.free
  contexts : ∀ a ∈ st.acts, HasContext st.vm.heap a
  apart : ContextsApart st.frames
  ids : (st.frames.map Frame.id).Nodup
  fresh : ∀ f ∈ st.frames, f.id < st.next
  blocks : ∀ b blk, st.vm.heap.block b = some blk → 0 < b ∧ b % 8 = 0 ∧ b < st.vm.heap.free
  homes : ∀ f ∈ st.frames, f.At st.vm.heap st.closures
  unmarked : ∀ b, st.closures b = none

/-- The states of the runs. -/
inductive Reached (code : Nat → CompiledMethod) : State → Prop
  | start {st : State} (h : Started st) : Reached code st
  | step {st st' : State} (h : Reached code st) (hstep : Step code st st') : Reached code st'

/-- **The invariant over a run.** -/
theorem Reached.marked {code : Nat → CompiledMethod} {st : State} (h : Reached code st) :
    Marked st := by
  induction h with
  | start h =>
    refine ⟨h.chain, h.aligned, h.free, h.contexts, h.apart, h.ids, h.fresh, h.blocks, h.homes, ?_⟩
    intro b o ho
    rw [h.unmarked b] at ho
    cases ho
  | step _ hstep ih => exact ih.step hstep

/-! ## §9. Where `^` goes. -/

/-- **The value reaches the caller of the activation**, which has its stack below the send
as it was. -/
def ReturnsToCaller (s : Vm) (pre : List Activation) (a : Activation) (rest : List Activation)
    (value : Nat) : Prop :=
  ReturnsFrom s pre a rest value ∧ ∀ caller rest', rest = caller :: rest' →
    Chain (leaveFrame s pre a rest value) ({ caller with stack := value :: caller.stack } :: rest')

/-- The outcome has the frame pointer of the caller. -/
theorem ReturnsFrom.fp {s : Vm} {pre rest : List Activation} {a : Activation} {value : Nat}
    (h : ReturnsFrom s pre a rest value) :
    (returnNonLocal s).fp? = some (fpOf (s.sp + chainSize pre + a.size) rest) := by
  unfold ReturnsFrom at h
  split at h
  · rw [h]
    rfl
  · rw [h]
    rfl

/-- Different frames of a stack have different callers. -/
theorem fpOf_ne {p : Nat} {pre mid rest : List Activation} {a b : Activation} :
    fpOf (p + chainSize pre + a.size) (mid ++ b :: rest)
      ≠ fpOf (p + chainSize (pre ++ a :: mid) + b.size) rest := by
  have hsplit : p + chainSize (pre ++ a :: mid) + b.size
      = p + chainSize pre + a.size + chainSize (mid ++ [b]) := by
    rw [chainSize_append, chainSize_append, chainSize_cons, chainSize_cons]
    have hnil : chainSize [] = 0 := rfl
    omega
  rw [hsplit]
  -- what comes first after `a` lies below what waits for `b`
  cases mid with
  | nil =>
    have habove := fpOf_above (p + chainSize pre + a.size) b [] rest
    have hpos := four_le_fpAt (p + chainSize pre + a.size) b
    rw [List.nil_append, fpOf_cons]
    intro hsame
    have hsame' : b.fpAt (p + chainSize pre + a.size)
      = fpOf (p + chainSize pre + a.size + chainSize [b]) rest := hsame
    omega
  | cons x mid =>
    have habove := fpOf_above (p + chainSize pre + a.size) x (mid ++ [b]) rest
    have hpos := four_le_fpAt (p + chainSize pre + a.size) x
    rw [List.cons_append, fpOf_cons]
    intro hsame
    have hsame' : x.fpAt (p + chainSize pre + a.size)
      = fpOf (p + chainSize pre + a.size + chainSize (x :: (mid ++ [b]))) rest := hsame
    omega

/-- The home context of the frame that runs, which its closure holds. -/
theorem Chain.blockHome {s : Vm} {a : Activation} {rest : List Activation} {b : Nat}
    {blk : BlockClosure} (h : Chain s (a :: rest)) (hctx : HasContext s.heap a)
    (hclosure : a.closure = some b) (hblk : s.heap.block b = some blk) :
    blockHomeContextForFrame s.mem s.heap s.fp = blk.homeContext := by
  have hhome := h.held.1.homeContext hctx
  have hfp : s.fp = a.fpAt s.sp := h.fp
  rw [hfp, hhome]
  simp [homeOf, hclosure, hblk]

section Homes

variable {code : Nat → CompiledMethod} {st : State} {f hf : Frame} {pre rest below : List Frame}
variable {b value : Nat} {blk : BlockClosure} {o : Origin} {operands : List Nat}

/-- `^` when the creator of the closure is on the stack. -/
theorem Marked.returns_creator (h : Marked st) (hframes : st.frames = pre ++ hf :: rest)
    (hhome : blockHomeContextForFrame st.vm.mem st.vm.heap st.vm.fp = blk.homeContext)
    (hiff : ∀ g ∈ st.frames, g.act.context = some blk.homeContext ↔ g.id = o.creator)
    (hvalue : st.vm.mem st.vm.sp = value) (hcreator : hf.id = o.creator) :
    let p := st.vm.sp + chainSize (pre.map Frame.act)
    let slot := hf.act.fpAt p + 2 + hf.act.args.length % 256
    let s' : Vm := { st.vm with
      mem := Function.update st.vm.mem slot value
      sp := slot
      fp := fpOf (p + hf.act.size) (rest.map Frame.act) }
    returnNonLocal st.vm = if hf.act.fpAt p = st.vm.entryFp then .returned value s'
      else .resumed { s' with ip := hf.act.savedIp } := by
  have hchain := h.chain
  unfold State.acts at hchain
  rw [hframes, List.map_append, List.map_cons] at hchain
  refine returnNonLocal_found hchain hhome hvalue ?_ ?_
  · intro a ha
    obtain ⟨g, hg, rfl⟩ := List.mem_map.mp ha
    have hmem : g ∈ st.frames := hframes ▸ List.mem_append_left _ hg
    rw [Ne, hiff g hmem]
    intro hsame
    -- the numbers of the frames are distinct
    have hids := h.ids
    rw [hframes, List.map_append, List.map_cons, List.nodup_append] at hids
    exact hids.2.2 g.id (List.mem_map_of_mem hg) hf.id List.mem_cons_self
      (hsame.trans hcreator.symm)
  · exact (hiff hf (hframes ▸ List.mem_append_right pre List.mem_cons_self)).mpr hcreator

/-- **Where `^` in a block returns to.**  In every state of a run in which a block of a
home on the stack is about to leave a value, the value goes to the home's caller when the
block has been made in the home's own activation, and not in that of another block. -/
theorem returnNonLocal_home_iff (hrun : Reached code st) (htop : st.frames = f :: below)
    (hclosure : f.act.closure = some b) (horigin : st.closures b = some o)
    (hstack : f.act.stack = value :: operands)
    (hframes : st.frames = pre ++ hf :: rest) (hhome : hf.id = f.home) :
    ReturnsToCaller st.vm (pre.map Frame.act) hf.act (rest.map Frame.act) value
      ↔ o.creator = f.home ∧ hf.act.args.length < 256 := by
  have hmarked := hrun.marked
  obtain ⟨-, blk, hblk, -, hiff⟩ := hmarked.closures b o horigin
  have hchain := hmarked.chain_cons htop
  have hheld : Held st.vm.mem st.vm.sp _ f.act := hchain.held.1
  have hvalue : st.vm.mem st.vm.sp = value := by
    have hwords := hheld.stack
    rw [hstack, holds_cons] at hwords
    exact hwords.1
  have hctx : HasContext st.vm.heap f.act := by
    refine hmarked.contexts _ (List.mem_map_of_mem ?_)
    rw [htop]
    exact List.mem_cons_self
  have hword := hchain.blockHome hctx hclosure hblk
  constructor
  · rintro ⟨hreturns, -⟩
    have hfp := hreturns.fp
    by_cases hcreator : o.creator = f.home
    · refine ⟨hcreator, ?_⟩
      have hfound := hmarked.returns_creator hframes hword hiff hvalue (hhome.trans hcreator.symm)
      -- the slot that the 8 bits give is that of the receiver
      unfold ReturnsFrom at hreturns
      rw [hfound] at hreturns
      have hsp : hf.act.args.length % 256 = hf.act.args.length := by
        split at hreturns
        · injection hreturns with _ hvm
          have hslot := congrArg Vm.sp hvm
          simp only [leaveFrame] at hslot
          omega
        · injection hreturns with hvm
          have hslot := congrArg Vm.sp hvm
          simp only [leaveFrame] at hslot
          omega
      omega
    · exfalso
      by_cases hon : ∃ g ∈ st.frames, g.id = o.creator
      · -- it returns from the creator, which has another caller
        obtain ⟨g, hg, hid⟩ := hon
        obtain ⟨pre', rest', hsplit⟩ := List.append_of_mem hg
        have hfound := hmarked.returns_creator hsplit hword hiff hvalue hid
        have hfp' : (returnNonLocal st.vm).fp? = some (fpOf
            (st.vm.sp + chainSize (pre'.map Frame.act) + g.act.size) (rest'.map Frame.act)) := by
          rw [hfound]
          split <;> rfl
        have hsame := Option.some.inj (hfp'.symm.trans hfp)
        have hne : g ≠ hf := fun heq => hcreator (hid.symm.trans (heq ▸ hhome))
        have hsplits : pre' ++ g :: rest' = pre ++ hf :: rest := hsplit.symm.trans hframes
        rcases List.append_eq_append_iff.mp hsplits with ⟨mid, hpre, hmid⟩ | ⟨mid, hpre, hmid⟩
        · cases mid with
          | nil => exact hne (List.cons.inj hmid).1
          | cons x mid =>
            have hmid' : g :: rest' = x :: (mid ++ hf :: rest) := hmid
            obtain ⟨rfl, hrest⟩ := List.cons.inj hmid'
            rw [hpre, hrest] at hsame
            simp only [List.map_append, List.map_cons] at hsame
            exact fpOf_ne hsame
        · cases mid with
          | nil => exact hne (List.cons.inj hmid).1.symm
          | cons x mid =>
            have hmid' : hf :: rest = x :: (mid ++ g :: rest') := hmid
            obtain ⟨rfl, hrest⟩ := List.cons.inj hmid'
            rw [hpre, hrest] at hsame
            simp only [List.map_append, List.map_cons] at hsame
            exact fpOf_ne hsame.symm
      · -- it goes on below the stack
        have hnone : ∀ a ∈ st.acts, a.context ≠ some blk.homeContext := by
          intro a ha
          obtain ⟨g, hg, rfl⟩ := List.mem_map.mp ha
          rw [Ne, hiff g hg]
          exact fun hid => hon ⟨g, hg, hid⟩
        have hfirst : st.vm.fp = f.act.fpAt st.vm.sp := hchain.fp
        have hle := le_fpAt st.vm.sp f.act
        have hlost := returnNonLocal_lost hmarked.chain (by omega) hword hnone hfp
        have habove : ∃ mid, pre.map Frame.act ++ [hf.act] = f.act :: mid := by
          rw [htop] at hframes
          cases pre with
          | nil => exact ⟨[], by rw [(List.cons.inj hframes).1]; rfl⟩
          | cons x pre =>
            exact ⟨pre.map Frame.act ++ [hf.act], by rw [(List.cons.inj hframes).1]; rfl⟩
        obtain ⟨mid, hmid⟩ := habove
        have hsize : st.vm.sp + chainSize (pre.map Frame.act) + hf.act.size
            = st.vm.sp + chainSize (f.act :: mid) := by
          have hnil : chainSize [] = 0 := rfl
          rw [← hmid, chainSize_append, chainSize_cons]
          omega
        have hcaller := fpOf_above st.vm.sp f.act mid (rest.map Frame.act)
        rw [hsize] at hlost
        omega
  · rintro ⟨hcreator, hargs⟩
    have hfound := hmarked.returns_creator hframes hword hiff hvalue (hhome.trans hcreator.symm)
    refine ⟨?_, fun caller rest' hrest => ?_⟩
    · unfold ReturnsFrom leaveFrame
      simp only [Nat.mod_eq_of_lt hargs] at hfound
      rw [hfound]
      split <;> rfl
    · have hall := hmarked.chain
      unfold State.acts at hall
      rw [hframes, List.map_append, List.map_cons, hrest] at hall
      rw [hrest]
      exact leaveFrame_chain hall value

end Homes

/-! ## §10. Two runs. -/

/-- Methods and blocks without temporaries. -/
def plainCode : Nat → CompiledMethod := fun _ => ⟨0, 0, 10⟩

/-- A stack with one frame, which is about to send to nil. -/
def mainState : State where
  vm := {
    mem := fun i => if i = 100 ∨ i = 101 ∨ i = 107 then taggedNil else 0
    sp := 100
    fp := 105
    ip := 0
    heap := ⟨8, fun _ => none, fun _ => none⟩
    entryFp := 105
    limitLow := 0
    base := 108 }
  frames := [⟨{ Activation.fresh 0 0 taggedNil [] 0 with stack := [taggedNil] }, 0, 0⟩]
  closures := fun _ => none
  next := 1

/-- The method has been sent for. -/
def homeState : State where
  vm := (sendMethod plainCode 1 0 mainState.vm).getD mainState.vm
  frames := [⟨.fresh 0 1 taggedNil [] 0, 1, 1⟩, ⟨.fresh 0 0 taggedNil [] 0, 0, 0⟩]
  closures := mainState.closures
  next := 2

/-- It has made a block. -/
def madeState : State where
  vm := pushClosure plainCode 2 homeState.vm
  frames := [⟨{ Activation.fresh 0 1 taggedNil [] 0 with stack := [24], context := some 8 }, 1, 1⟩,
    ⟨{ Activation.fresh 0 0 taggedNil [] 0 with context := some 16 }, 0, 0⟩]
  closures := Function.update homeState.closures 24 (some ⟨1, 1⟩)
  next := 2

/-- The method's frames, while the blocks run. -/
def homeFrames : List Frame :=
  [⟨{ Activation.fresh 0 1 taggedNil [] 0 with context := some 8 }, 1, 1⟩,
    ⟨{ Activation.fresh 0 0 taggedNil [] 0 with context := some 16 }, 0, 0⟩]

/-- The block runs. -/
def blockState : State where
  vm := (activateBlockCall plainCode 0 madeState.vm).getD madeState.vm
  frames := ⟨.freshBlock 0 24 ⟨8, taggedNil, 2, []⟩ [] 0, 2, 1⟩ :: homeFrames
  closures := madeState.closures
  next := 3

/-- The block has made another one. -/
def innerMadeState : State where
  vm := pushClosure plainCode 3 blockState.vm
  frames := ⟨{ Activation.freshBlock 0 24 ⟨8, taggedNil, 2, []⟩ [] 0 with
    stack := [40], context := some 32 }, 2, 1⟩ :: homeFrames
  closures := Function.update blockState.closures 40 (some ⟨2, 1⟩)
  next := 3

/-- The inner block runs. -/
def innerState : State where
  vm := (activateBlockCall plainCode 0 innerMadeState.vm).getD innerMadeState.vm
  frames := ⟨.freshBlock 0 40 ⟨32, taggedNil, 3, []⟩ [] 0, 3, 1⟩
    :: ⟨{ Activation.freshBlock 0 24 ⟨8, taggedNil, 2, []⟩ [] 0 with
      context := some 32 }, 2, 1⟩ :: homeFrames
  closures := innerMadeState.closures
  next := 4

theorem mainState_started : Started mainState := by
  refine ⟨⟨rfl, ⟨?_, trivial⟩, rfl⟩, by decide, by decide, ?_, ?_, by decide, by decide, ?_, ?_, ?_⟩
  · exact ⟨⟨rfl, trivial⟩, trivial, rfl, rfl, rfl, rfl, rfl, rfl, trivial, rfl⟩
  · intro a ha c hc
    obtain rfl := List.mem_singleton.mp ha
    cases hc
  · intro f hf g hg c hc
    obtain rfl := List.mem_singleton.mp hf
    cases hc
  · intro b blk hblk
    cases hblk
  · intro f hf
    obtain rfl := List.mem_singleton.mp hf
    rfl
  · exact fun b => rfl

theorem blockState_reached : Reached plainCode blockState := by
  have hsent : Reached plainCode homeState := (Reached.start mainState_started).step
    (@Step.send plainCode mainState _ _ 1 taggedNil [] [] homeState.vm rfl rfl rfl)
  have hmade : Reached plainCode madeState :=
    hsent.step (@Step.closure plainCode homeState _ _ 2 rfl (by decide +kernel))
  have horigin : ∀ o, madeState.closures 24 = some o → 1 = o.home := fun o ho => by
    obtain rfl := Option.some.inj ho
    rfl
  exact hmade.step (@Step.call plainCode madeState _ _ 24 ⟨8, taggedNil, 2, []⟩ 1 [] []
    blockState.vm rfl rfl horigin rfl rfl)

theorem innerState_reached : Reached plainCode innerState := by
  have hmade : Reached plainCode innerMadeState :=
    blockState_reached.step (@Step.closure plainCode blockState _ _ 3 rfl (by decide +kernel))
  have horigin : ∀ o, innerMadeState.closures 40 = some o → 1 = o.home := fun o ho => by
    obtain rfl := Option.some.inj ho
    rfl
  exact hmade.step (@Step.call plainCode innerMadeState _ _ 40 ⟨32, taggedNil, 3, []⟩ 1 [] []
    innerState.vm rfl rfl horigin rfl rfl)

/-- A block of the method itself. -/
theorem block_returns_home :
    ∃ st f hf rest, Reached plainCode st ∧ st.frames = [f] ++ hf :: rest ∧
      f.act.closure = some 24 ∧ f.home = hf.id ∧
      ReturnsToCaller st.vm [f.act] hf.act (rest.map Frame.act) 5 := by
  have hpushed := blockState_reached.step
    (@Step.push plainCode blockState _ _ 5 rfl (by decide +kernel))
  refine ⟨_, _, _, _, hpushed, rfl, rfl, rfl, ?_⟩
  exact (@returnNonLocal_home_iff plainCode _ _ _ [_] _ _ 24 5 ⟨1, 1⟩ [] hpushed rfl rfl rfl rfl
    rfl rfl).mpr ⟨rfl, (by decide : 0 < 256)⟩

/-- A block in the block, whose `^` returns from the first block, to the method. -/
theorem innerBlock_returns_block :
    ∃ st f g hf rest, Reached plainCode st ∧ st.frames = [f, g] ++ hf :: rest ∧
      f.act.closure = some 40 ∧ f.act.stack = [5] ∧ f.home = hf.id ∧
      ¬ ReturnsToCaller st.vm [f.act, g.act] hf.act (rest.map Frame.act) 5 := by
  have hpushed := innerState_reached.step
    (@Step.push plainCode innerState _ _ 5 rfl (by decide +kernel))
  refine ⟨_, _, _, _, _, hpushed, rfl, rfl, rfl, rfl, ?_⟩
  intro hreturns
  have hfp := hreturns.1.fp
  revert hfp
  decide +kernel

end LivingObjects.Stack
