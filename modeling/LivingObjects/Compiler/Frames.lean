/-
  LivingObjects.Compiler.Frames — the frames that the compiled scopes run in.

  A closure copies the arguments and then the temporaries of the frame it is made in, and
  a block's frame begins with what has been copied.  So the words of a frame come from
  the arguments of the activations around it and from what these have stored; where each
  comes from depends on the scopes alone.
-/
import LivingObjects.Compiler.Emission
import LivingObjects.Stack.Contexts

namespace LivingObjects.Compiler

open LivingObjects.Stack

/-! ## §1. Where a word comes from. -/

/-- What gives a variable a value, seen from a frame: its activation or one of those around
it has got an argument, or has stored into a temporary, as its first, second or later
store, before or after it made the closure further in. -/
inductive Event where
  | arg (depth index : Nat)
  | early (depth count : Nat)
  | late (depth count : Nat)
deriving DecidableEq, Repr

def Event.depth : Event → Nat
  | .arg depth _ | .early depth _ | .late depth _ => depth

/-- The event, seen from a frame further in. -/
def Event.inward : Event → Event
  | .arg depth index => .arg (depth + 1) index
  | .early depth count => .early (depth + 1) count
  | .late depth count => .late (depth + 1) count

/-- The words after stores into the slots, in order; the first one has the number. -/
def storeAll {α : Type} (f : Nat → α) : Nat → List Nat → List α → List α
  | _, [], ws => ws
  | count, slot :: slots, ws => storeAll f (count + 1) slots (ws.set slot (f count))

/-- Where the words of a frame come from, if not from its creation.  For each scope there are
the slots stored into before the closure further in was made. -/
def origins : List Scope → List (List Nat) → List (Option Event)
  | [], _ => []
  | own :: outer, stores =>
    let copied := match outer with
      | [] => []
      | maker :: _ => (List.range maker.args.length).map (fun i => some (.arg 1 i))
          ++ (origins outer stores.tail).map (Option.map Event.inward)
    storeAll (fun count => some (.early 0 count)) 0 (stores.headD [])
      (copied ++ List.replicate own.temps.length none)

/-! ## §2. Frames. -/

/-- The arguments of an activation, the first one first. -/
def argsOf (s : Scope) (vals : Event → Nat) : List Nat :=
  (List.range s.args.length).map fun i => vals (.arg 0 i)

/-- A frame of the innermost scope, on the way of its run: activations get the arguments
that their scopes declare, and a block's closure has been made in a frame of the scope
around it.  A store outside the frame goes to the operand stack. -/
inductive FrameRun (code : Nat → CompiledMethod) :
    List Scope → List (List Nat) → (Event → Nat) → Activation → Prop
  | method {s : Scope} {vals : Event → Nat} {method : Nat} (savedIp receiver : Nat)
      (htemps : (code method).numTemps = s.temps.length) :
      FrameRun code [s] [[]] vals
        (.fresh savedIp method receiver (argsOf s vals).reverse (code method).numTemps)
  | block {own : Scope} {outer : List Scope} {stores : List (List Nat)} {vals : Event → Nat}
      {maker : Activation} {blk : BlockClosure} (savedIp block : Nat)
      (hmaker : FrameRun code outer stores (fun e => vals e.inward) maker)
      (hcopied : blk.copied = maker.args.reverse ++ maker.temps)
      (htemps : (code blk.method).numTemps = own.temps.length) :
      FrameRun code (own :: outer) ([] :: stores) vals
        (.freshBlock savedIp block blk (argsOf own vals).reverse (code blk.method).numTemps)
  | store {scopes : List Scope} {slots : List Nat} {stores : List (List Nat)} {vals : Event → Nat}
      {a : Activation} (h : FrameRun code scopes (slots :: stores) vals a) (slot : Nat)
      (stack : List Nat) :
      FrameRun code scopes ((slots ++ [slot]) :: stores) vals
        { a with temps := a.temps.set slot (vals (.early 0 slots.length)), stack := stack }
  | operands {scopes : List Scope} {stores : List (List Nat)} {vals : Event → Nat}
      {a : Activation} (h : FrameRun code scopes stores vals a) (stack : List Nat)
      (context : Option Nat) :
      FrameRun code scopes stores vals { a with stack := stack, context := context }

/-- The word that comes from an event; new temporaries are 0. -/
def wordOf (vals : Event → Nat) (o : Option Event) : Nat := (o.map vals).getD 0

theorem storeAll_append {α : Type} (f : Nat → α) (count : Nat) (slots : List Nat) (slot : Nat)
    (ws : List α) : storeAll f count (slots ++ [slot]) ws
      = (storeAll f count slots ws).set slot (f (count + slots.length)) := by
  induction slots generalizing count ws with
  | nil => rfl
  | cons s slots ih =>
    rw [List.cons_append, storeAll, ih, storeAll, List.length_cons]
    rw [show count + 1 + slots.length = count + (slots.length + 1) by omega]

theorem storeAll_map {α β : Type} (g : α → β) (f : Nat → α) (count : Nat) (slots : List Nat)
    (ws : List α) :
    (storeAll f count slots ws).map g = storeAll (fun c => g (f c)) count slots (ws.map g) := by
  induction slots generalizing count ws with
  | nil => rfl
  | cons s slots ih => rw [storeAll, ih, storeAll, List.map_set]

theorem storeAll_length {α : Type} (f : Nat → α) (count : Nat) (slots : List Nat) (ws : List α) :
    (storeAll f count slots ws).length = ws.length := by
  induction slots generalizing count ws with
  | nil => rfl
  | cons s slots ih => rw [storeAll, ih, List.length_set]

theorem wordOf_inward (vals : Event → Nat) (o : Option Event) :
    wordOf vals (o.map Event.inward) = wordOf (fun e => vals e.inward) o := by
  cases o <;> rfl

theorem wordOf_replicate (vals : Event → Nat) (n : Nat) :
    (List.replicate n none).map (wordOf vals) = List.replicate n 0 := by
  rw [List.map_replicate]
  rfl

/-- **The words of a frame come from where `origins` says.** -/
theorem FrameRun.words {code : Nat → CompiledMethod} {scopes : List Scope}
    {stores : List (List Nat)} {vals : Event → Nat} {a : Activation}
    (h : FrameRun code scopes stores vals a) :
    a.temps = (origins scopes stores).map (wordOf vals) ∧
      ∃ own outer, scopes = own :: outer ∧ a.args.reverse = argsOf own vals := by
  induction h with
  | @method s vals m savedIp receiver htemps =>
    refine ⟨?_, s, [], rfl, List.reverse_reverse _⟩
    show List.replicate (code m).numTemps 0 = (List.replicate s.temps.length none).map _
    rw [htemps, wordOf_replicate]
  | @block own outer stores vals maker blk savedIp block hmaker hcopied htemps ih =>
    obtain ⟨hwords, o, rest, rfl, hargs⟩ := ih
    refine ⟨?_, own, o :: rest, rfl, List.reverse_reverse _⟩
    show blk.copied ++ List.replicate (code blk.method).numTemps 0
      = ((List.range o.args.length).map (fun i => some (Event.arg 1 i))
        ++ (origins (o :: rest) stores).map (Option.map Event.inward)
        ++ List.replicate own.temps.length none).map (wordOf vals)
    rw [List.map_append, List.map_append, List.map_map, List.map_map, wordOf_replicate, htemps,
      hcopied, hargs, hwords]
    refine congrArg₂ (· ++ ·) (congrArg₂ (· ++ ·) rfl ?_) rfl
    exact List.map_congr_left fun x _ => (wordOf_inward vals x).symm
  | @store scopes slots stores vals a hrun slot stack ih =>
    obtain ⟨hwords, own, outer, rfl, hargs⟩ := ih
    refine ⟨?_, own, outer, rfl, hargs⟩
    show a.temps.set slot _ = (storeAll _ 0 (slots ++ [slot]) _).map (wordOf vals)
    rw [storeAll_append, List.map_set, hwords, Nat.zero_add]
    rfl
  | operands hrun stack context ih => exact ih

/-- What a frame reserves. -/
theorem origins_length (own : Scope) (outer : List Scope) (stores : List (List Nat)) :
    (origins (own :: outer) stores).length = slotsOf outer + own.temps.length := by
  induction outer generalizing own stores with
  | nil => simp [origins, storeAll_length, slotsOf]
  | cons o rest ih =>
    have hsum : slotsOf (o :: rest) = o.args.length + o.temps.length + slotsOf rest := List.sum_cons
    have hrest := ih o stores.tail
    rw [origins, storeAll_length]
    simp only [List.length_append, List.length_map, List.length_range, List.length_replicate, hrest]
    omega

/-- **A frame has room for what its scopes declare, but for its own arguments.** -/
theorem FrameRun.temps_length {code : Nat → CompiledMethod} {own : Scope} {outer : List Scope}
    {stores : List (List Nat)} {vals : Event → Nat} {a : Activation}
    (h : FrameRun code (own :: outer) stores vals a) (hnested : Nested (own :: outer)) :
    a.temps.length = own.closureOffset + own.temps.length := by
  rw [h.words.1, List.length_map, origins_length, hnested.offset]

/-! ## §3. Frames in the VM. -/

/-- The closure that `BC_PUSH_CLOSURE` makes in a frame, and a frame of its block. -/
theorem FrameRun.push_call {code : Nat → CompiledMethod} {s s' s'' : Vm} {a : Activation}
    {rest rest' : List Activation} {outer : List Scope} {own : Scope} {stores : List (List Nat)}
    {vals : Event → Nat} {block c : Nat} {blk : BlockClosure} {below : List Nat}
    {caller : Activation} {others : List Activation}
    (h : FrameRun code outer stores (fun e => vals e.inward) a) (hsmall : a.args.length < 256)
    (hreserved : a.temps.length = reservedTemps code s.heap a) {blockMethod : Nat}
    (hpushed : ClosurePushed code s s' a rest blockMethod c rest' blk)
    (htemps : (code blockMethod).numTemps = own.temps.length)
    (hchain : Chain s'' (caller :: others))
    (hstack : caller.stack = (argsOf own vals).reverse ++ block :: below)
    (hblk : s''.heap.block block = some blk) {vm : Vm}
    (hcall : activateBlockCall code (argsOf own vals).reverse.length s'' = some vm) :
    ∃ callee, Chain vm (callee :: { caller with stack := below } :: others) ∧
      FrameRun code (own :: outer) ([] :: stores) vals callee := by
  obtain ⟨hframe, -⟩ := hchain.activateBlockCall hstack hblk hcall
  refine ⟨_, hframe, .block s''.ip block h (hpushed.copied hsmall hreserved) ?_⟩
  rw [hpushed.method]
  exact htemps

/-- The frame of a method that is sent for. -/
theorem FrameRun.sent {code : Nat → CompiledMethod} {s vm : Vm} {own : Scope} {vals : Event → Nat}
    {caller : Activation} {others : List Activation} {method receiver : Nat} {below : List Nat}
    (htemps : (code method).numTemps = own.temps.length) (hchain : Chain s (caller :: others))
    (hstack : caller.stack = (argsOf own vals).reverse ++ receiver :: below)
    (hsend : activateMethod s.ip method (argsOf own vals).reverse.length (code method).numTemps s
      = some vm) :
    ∃ callee, Chain vm (callee :: { caller with stack := below } :: others) ∧
      FrameRun code [own] [[]] vals callee :=
  ⟨_, ((hchain.pending hstack).activateMethod hsend).1, .method s.ip receiver htemps⟩

/-- `BC_PUSH_TEMP` reads the word of the frame. -/
theorem FrameRun.read {code : Nat → CompiledMethod} {scopes : List Scope}
    {stores : List (List Nat)} {vals : Event → Nat} {s : Vm} {a : Activation}
    {rest : List Activation} (h : FrameRun code scopes stores vals a) (hchain : Chain s (a :: rest))
    {n : Nat} {o : Option Event} (ho : (origins scopes stores)[n]? = some o) :
    frameTemp s.mem s.fp n = wordOf vals o := by
  have hheld : Stack.Held s.mem s.sp _ a := hchain.held.1
  have hfp : s.fp = a.fpAt s.sp := hchain.fp
  have hword : a.temps[n]? = some (wordOf vals o) := by
    rw [h.words.1, List.getElem?_map, ho]
    rfl
  obtain ⟨hlt, hat⟩ := List.getElem?_eq_some_iff.mp hword
  rw [hfp, hheld.temp hlt]
  exact hat

end LivingObjects.Compiler
