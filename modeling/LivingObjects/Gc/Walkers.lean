/-
  LivingObjects.Gc.Walkers — `gc_scan_stack_with_eval` and `gc_update_stack_with_eval`.

  Two walks over the chain of frames that differ in what they do at a slot: the first puts
  the references it finds into the root buffer, the second replaces a reference to an object
  that has moved by where it has moved to.  Both read the saved frame pointers, the flags
  and, through the methods, the numbers of temporaries; the second reads them while it
  changes the stack and after the methods have moved.  On a well-formed chain nothing of
  what steers the walk changes, so both visit the same slots in the same order.

  The stack has word addresses, the heap byte addresses; a saved frame pointer is a byte
  address.
-/
import LivingObjects.Gc.Retry

namespace LivingObjects.Gc

open LivingObjects.Lib LivingObjects.Stack

/-! ## §1. The walk. -/

/-- `FP_SENTINEL`. -/
def fpSentinel : Nat := 0xCAFE

section Walk

variable {σ : Type} (heap : Nat → Nat) (low base : Nat) (stackOf : σ → Nat → Nat)
variable (visit : Nat → σ → σ)

end Walk

/-! ## §2. The two walkers. -/

section Chains

variable (heap stack : Nat → Nat)

/-- The number of temporaries the method of a frame declares. -/
def frameNumTemps (fp : Nat) : Nat := (methodAt heap (frameMethod stack fp)).numTemps

/-- Where the operands of the caller begin. -/
def callerSp (fp : Nat) : Nat := fp + (frameNumArgs stack fp + 2)

/-- The frames of a chain, the innermost first: each leaves room for its temporaries above
the operands and lies on the stack, and the last saved frame pointer is one of the two
that end a chain. -/
def FrameChain (base : Nat) : Nat → Nat → List Nat → Prop
  | _, fp, [] => fp = 0 ∨ fp = fpSentinel
  | sp, fp, frame :: rest =>
    fp = 8 * frame ∧ sp + (frameNumTemps heap stack frame + 4) ≤ frame ∧
      callerSp stack frame ≤ base ∧
      FrameChain base (callerSp stack frame) (stack frame) rest

end Chains

section Chains

variable {heap stack : Nat → Nat} {base sp fp : Nat} {frames : List Nat}

theorem FrameChain.length_le (h : FrameChain heap stack base sp fp frames) (hsp : sp ≤ base) :
    frames.length ≤ base - sp := by
  induction frames generalizing sp fp with
  | nil => exact Nat.zero_le _
  | cons frame rest ih =>
    obtain ⟨-, hroom, hbase, hrest⟩ := h
    have hle := ih hrest hbase
    have hcaller : callerSp stack frame = frame + (frameNumArgs stack frame + 2) := rfl
    rw [List.length_cons]
    omega

end Chains

/-! ## §4. What a walk does. -/

section Run

variable {σ : Type} {heap : Nat → Nat} {low base : Nat} {stackOf : σ → Nat → Nat}
variable {visit : Nat → σ → σ}

/-- What a walk must leave alone: while `Inv` holds, and every visit keeps it, the words
that steer the walk read as in `stack₀` and `heap₀`. -/
structure Steady (heap heap₀ stack₀ : Nat → Nat) (stackOf : σ → Nat → Nat) (visit : Nat → σ → σ)
    (slots frames : List Nat) (Inv : σ → Prop) : Prop where
  visit : ∀ a ∈ slots, ∀ s, Inv s → Inv (visit a s)
  savedFp : ∀ s, Inv s → ∀ frame ∈ frames, stackOf s frame = stack₀ frame
  flags : ∀ s, Inv s → ∀ frame ∈ frames, stackOf s (frame - 2) = stack₀ (frame - 2)
  numTemps : ∀ s, Inv s → ∀ frame ∈ frames,
    frameNumTemps heap (stackOf s) frame = frameNumTemps heap₀ stack₀ frame

end Run

/-! ## §5. The scan. -/

section Scan

variable {heap stack : Nat → Nat} {low base sp fp : Nat} {frames : List Nat}

end Scan

/-! ## §6. The update. -/

/-- What `.Lgu_update_slot` makes of a word. -/
def movedWord (heap : Nat → Nat) (fromStart fromEnd word : Nat) : Nat :=
  if word % 4 ≠ 0 then word
  else if word = 0 then word
  else if word < fromStart then word
  else if fromEnd ≤ word then word
  else if heap word % 2 = 0 then word
  else heap word - 1

/-- What becomes of a word of the stack when the objects of the list have moved. -/
def imageWord (mem : Nat → Nat) (fromStart fromEnd free : Nat) (copied : List Nat) (word : Nat) :
    Nat :=
  if isReference word then renamed mem fromStart fromEnd free copied word else word

section Update

variable {mem : Nat → Nat} {fromStart fromEnd free toEnd : Nat} {objs : Nat → Prop}
variable {roots copied : List Nat} {scanned : Nat} {s : Space}

/-- What is no reference into from-space is its own image. -/
theorem imageWord_of_out {word : Nat}
    (hout : ¬(isReference word = true ∧ inFromSpace fromStart fromEnd word = true)) :
    imageWord mem fromStart fromEnd free copied word = word := by
  unfold imageWord renamed
  split
  · exact if_neg fun hin => hout ⟨‹_›, hin⟩
  · rfl

/-- A method whose number of temporaries can be read before and after the collection: an
object with a tagged number there, or one outside both spaces. -/
structure MethodReadable (mem : Nat → Nat) (fromStart fromEnd free toEnd method : Nat) : Prop where
  reference : isReference method = true
  inside : inFromSpace fromStart fromEnd method = true →
    5 < totalWords mem method ∧ mem (method + 40) % 4 = 1
  outside : inFromSpace fromStart fromEnd method = false →
    (method + 40 < fromStart ∨ fromEnd ≤ method + 40) ∧ (method + 40 < free ∨ toEnd ≤ method + 40)

/-- **The number of temporaries is read alike** from a method that has been left and from
the image it has become. -/
theorem MethodReadable.numTemps {method : Nat}
    (hmethod : MethodReadable mem fromStart fromEnd free toEnd method)
    (hf : Fingers mem fromStart fromEnd free toEnd roots copied scanned s)
    (h : Ready mem fromStart fromEnd free toEnd objs roots)
    (hcopied : inFromSpace fromStart fromEnd method = true → method ∈ copied) :
    (methodAt s.mem method).numTemps = (methodAt mem method).numTemps ∧
      (methodAt s.mem (imageWord mem fromStart fromEnd free copied method)).numTemps
        = (methodAt mem method).numTemps := by
  have hfield : ∀ a, s.mem (a + 40) = mem (method + 40) →
      (methodAt s.mem a).numTemps = (methodAt mem method).numTemps := by
    intro a ha
    show asr2 (s.mem (a + 40)) = asr2 (mem (method + 40))
    rw [ha]
  by_cases hin : inFromSpace fromStart fromEnd method = true
  · obtain ⟨hwords, htag⟩ := hmethod.inside hin
    have hmem := hcopied hin
    refine ⟨hfield _ (hf.from_word h (h.obj (hf.reached _ hmem)) hwords (Or.inr (by omega))), ?_⟩
    unfold imageWord renamed
    rw [if_pos hmethod.reference, if_pos hin]
    refine hfield _ ((hf.words method hmem 5 hwords).trans ?_)
    have hnot : inFromSpace fromStart fromEnd (mem (method + 40)) ≠ true := by
      intro hin'
      have hspace := (inFromSpace_iff.mp hin').1
      omega
    split
    · exact if_neg hnot
    · rfl
  · have hout := hmethod.outside (Bool.eq_false_iff.mpr hin)
    rw [imageWord_of_out fun hboth => hin hboth.2]
    have hsame : s.mem (method + 40) = mem (method + 40) := by
      refine hf.same _ hout.2 fun hmem => ?_
      have hinside := h.heap.inside _ (h.obj (hf.reached _ hmem))
      have hwords := three_le_totalWords mem (method + 40)
      omega
    exact ⟨hfield _ hsame, hfield _ hsame⟩

end Update

/-! ## §7. Both. -/

section Both

variable {heap stack : Nat → Nat} {low base sp fp fromStart fromEnd free toEnd : Nat}
variable {frames : List Nat} {objs : Nat → Prop} {maxRoots : Int}

end Both

/-! ## §8. The chain of a running loop. -/

end LivingObjects.Gc
