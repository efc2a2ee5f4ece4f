/-
  LivingObjects.Lib.FramedLog — append-only logs of self-delimiting frames.

  A log file is the concatenation of encoded frames, possibly cut at any
  position.  A reader takes one frame at a time off the front; a replay hands
  each frame it reads to a state transformer and goes on.  The one law a codec
  has to satisfy is `FrameCodec`; from it, replaying a cut log is applying
  exactly the frames that lie wholly before the cut (`replayFrames_take`).
-/
import Mathlib

namespace LivingObjects.Lib

/-! ## §1. Readers, replays and whole frames. -/

/-- What a reader makes of the front of a byte string. -/
inductive FrameRead (α β : Type) where
  /-- Nothing left. -/
  | ended
  /-- A frame that is not all there, or whose contents do not check. -/
  | torn
  /-- Not the start of a frame. -/
  | corrupt
  /-- A whole frame and what follows it. -/
  | frame (a : α) (rest : List β)
  deriving DecidableEq

variable {α β γ σ : Type}

/-- Read a frame, apply it, go on; stop at the end, at a torn frame, at
corruption or when a frame does not apply. -/
def replayFrames (read : List β → FrameRead γ β) (apply : γ → σ → Bool × σ) :
    Nat → List β → σ → Bool × σ
  | 0, _, s => (false, s)
  | fuel + 1, bs, s =>
    match read bs with
    | .ended => (true, s)
    | .torn => (true, s)
    | .corrupt => (false, s)
    | .frame a rest =>
      match apply a s with
      | (true, s') => replayFrames read apply fuel rest s'
      | (false, s') => (false, s')

/-- Apply frames in order, stopping at the first that does not apply. -/
def applyFrames (apply : α → σ → Bool × σ) : List α → σ → Bool × σ
  | [], s => (true, s)
  | a :: as, s =>
    match apply a s with
    | (true, s') => applyFrames apply as s'
    | (false, s') => (false, s')

/-- The frames that lie wholly inside the first `n` units of the log. -/
def wholeFrames (encode : α → List β) : Nat → List α → List α
  | _, [] => []
  | n, a :: as =>
    if (encode a).length ≤ n then a :: wholeFrames encode (n - (encode a).length) as else []

/-- The law of a self-delimiting frame format: `view` is what the reader hands
on of a frame. -/
structure FrameCodec (read : List β → FrameRead γ β) (encode : α → List β) (view : α → γ) :
    Prop where
  read_nil : read [] = .ended
  read_encode_append : ∀ a rest, read (encode a ++ rest) = .frame (view a) rest
  read_cut : ∀ a n, n < (encode a).length →
    read ((encode a).take n) = .ended ∨ read ((encode a).take n) = .torn

/-- A reader that always consumes something makes the fuel irrelevant. -/
theorem replayFrames_fuel {read : List β → FrameRead γ β} (apply : γ → σ → Bool × σ)
    (consumes : ∀ bs a rest, read bs = .frame a rest → rest.length < bs.length) :
    ∀ (fuel fuel' : Nat) (bs : List β) (s : σ), bs.length < fuel → bs.length < fuel' →
      replayFrames read apply fuel bs s = replayFrames read apply fuel' bs s := by
  intro fuel
  induction fuel with
  | zero => intro fuel' bs s h h'; omega
  | succ fuel ih =>
    intro fuel' bs s h h'
    obtain ⟨fuel', rfl⟩ : ∃ k, fuel' = k + 1 := ⟨fuel' - 1, by omega⟩
    rw [replayFrames, replayFrames]
    rcases hread : read bs with _ | _ | _ | ⟨a, rest⟩
    · rfl
    · rfl
    · rfl
    · have hlt := consumes bs a rest hread
      rcases happ : apply a s with ⟨ok, s'⟩
      cases ok with
      | true => simp only [happ]; exact ih fuel' rest s' (by omega) (by omega)
      | false => simp only [happ]

/-! ## §2. Replaying a cut log. -/

theorem wholeFrames_cons_of_le (encode : α → List β) {n : Nat} {a : α} (as : List α)
    (h : (encode a).length ≤ n) :
    wholeFrames encode n (a :: as) = a :: wholeFrames encode (n - (encode a).length) as := by
  rw [wholeFrames, if_pos h]

theorem wholeFrames_cons_of_lt (encode : α → List β) {n : Nat} {a : α} (as : List α)
    (h : n < (encode a).length) : wholeFrames encode n (a :: as) = [] := by
  rw [wholeFrames, if_neg (by omega)]

/-- Every whole frame of the log is one of its frames, in order. -/
theorem wholeFrames_prefix (encode : α → List β) (n : Nat) (as : List α) :
    wholeFrames encode n as <+: as := by
  induction as generalizing n with
  | nil => exact List.prefix_refl []
  | cons a as ih =>
    by_cases h : (encode a).length ≤ n
    · rw [wholeFrames_cons_of_le encode as h]
      exact (List.prefix_cons_inj a).mpr (ih _)
    · rw [wholeFrames_cons_of_lt encode as (by omega)]
      exact List.nil_prefix

/-- A cut at or after the end of the log keeps every frame. -/
theorem wholeFrames_of_length_le (encode : α → List β) {n : Nat} (as : List α)
    (h : (as.flatMap encode).length ≤ n) : wholeFrames encode n as = as := by
  induction as generalizing n with
  | nil => rfl
  | cons a as ih =>
    rw [List.flatMap_cons, List.length_append] at h
    rw [wholeFrames_cons_of_le encode as (by omega), ih (by omega)]

/-- A cut strictly inside the last frame keeps exactly the frames before it. -/
theorem wholeFrames_append_cut (encode : α → List β) (as : List α) (a : α) {p : Nat}
    (hp : p < (encode a).length) :
    wholeFrames encode ((as.flatMap encode).length + p) (as ++ [a]) = as := by
  induction as with
  | nil =>
    rw [List.nil_append, List.flatMap_nil, List.length_nil, Nat.zero_add]
    exact wholeFrames_cons_of_lt encode [] hp
  | cons b bs ih =>
    have hn : (encode b).length + (bs.flatMap encode).length + p - (encode b).length
        = (bs.flatMap encode).length + p := by omega
    rw [List.flatMap_cons, List.length_append, List.cons_append,
        wholeFrames_cons_of_le encode _ (by omega), hn, ih]

/-- **Replaying a cut log applies exactly its whole frames.** -/
theorem replayFrames_take {read : List β → FrameRead γ β} {encode : α → List β} {view : α → γ}
    (codec : FrameCodec read encode view) (apply : γ → σ → Bool × σ) (frames : List α) :
    ∀ (n fuel : Nat) (s : σ), frames.length < fuel →
      replayFrames read apply fuel ((frames.flatMap encode).take n) s
        = applyFrames (fun a => apply (view a)) (wholeFrames encode n frames) s := by
  induction frames with
  | nil =>
    intro n fuel s hfuel
    obtain ⟨fuel, rfl⟩ : ∃ k, fuel = k + 1 := ⟨fuel - 1, by omega⟩
    rw [List.flatMap_nil, List.take_nil, replayFrames, codec.read_nil]
    rfl
  | cons a as ih =>
    intro n fuel s hfuel
    obtain ⟨fuel, rfl⟩ : ∃ k, fuel = k + 1 := ⟨fuel - 1, by omega⟩
    rw [List.flatMap_cons]
    by_cases h : (encode a).length ≤ n
    · -- the first frame is whole: it is read, applied, and the cut moves on
      have hsplit : (encode a ++ as.flatMap encode).take n
          = encode a ++ (as.flatMap encode).take (n - (encode a).length) := by
        rw [List.take_append, List.take_of_length_le h]
      rw [hsplit, replayFrames, codec.read_encode_append, wholeFrames_cons_of_le encode as h,
          applyFrames]
      simp only
      rcases happ : apply (view a) s with ⟨ok, s'⟩
      cases ok with
      | false => rfl
      | true =>
        exact ih (n - (encode a).length) fuel s' (by rw [List.length_cons] at hfuel; omega)
    · -- the cut falls inside the first frame: nothing of it is applied
      have hcut : (encode a ++ as.flatMap encode).take n = (encode a).take n :=
        List.take_append_of_le_length (by omega)
      rw [hcut, wholeFrames_cons_of_lt encode as (by omega), replayFrames]
      rcases codec.read_cut a n (by omega) with hr | hr <;> rw [hr] <;> rfl

/-! ## §3. Frames that are events. -/

/-- When every frame comes down to a verdict and to events that do not depend on the state,
so does a replay. -/
theorem replayFrames_events {ε : Type} {read : List β → FrameRead γ β} {apply : γ → σ → Bool × σ}
    {event : σ → ε → σ}
    (happly : ∀ a, ∃ (ok : Bool) (events : List ε), ∀ s, apply a s = (ok, events.foldl event s))
    (fuel : Nat) (bs : List β) :
    ∃ (ok : Bool) (events : List ε), ∀ s,
      replayFrames read apply fuel bs s = (ok, events.foldl event s) := by
  induction fuel generalizing bs with
  | zero => exact ⟨false, [], fun s => rfl⟩
  | succ fuel ih =>
    simp only [replayFrames]
    rcases read bs with _ | _ | _ | ⟨a, rest⟩
    · exact ⟨true, [], fun s => rfl⟩
    · exact ⟨true, [], fun s => rfl⟩
    · exact ⟨false, [], fun s => rfl⟩
    · obtain ⟨ok, events, hframe⟩ := happly a
      cases ok with
      | false => exact ⟨false, events, fun s => by simp only [hframe]⟩
      | true =>
        obtain ⟨ok', events', hrest⟩ := ih rest
        refine ⟨ok', events ++ events', fun s => ?_⟩
        simp only [hframe, hrest, List.foldl_append]

/-- Events that may change places, and that made twice are made once, make a run of which
this holds too. -/
theorem foldl_twice {ε : Type} {event : σ → ε → σ} (htwice : ∀ s e, event (event s e) e = event s e)
    (hcomm : ∀ s e e', event (event s e) e' = event (event s e') e) (events : List ε) (s : σ) :
    events.foldl event (events.foldl event s) = events.foldl event s := by
  have hinward : ∀ (es : List ε) (e : ε) (s : σ),
      event (es.foldl event s) e = es.foldl event (event s e) := by
    intro es e
    induction es with
    | nil => exact fun s => rfl
    | cons e' es ih =>
      intro s
      rw [List.foldl_cons, ih, hcomm, List.foldl_cons]
  induction events generalizing s with
  | nil => rfl
  | cons e es ih =>
    rw [List.foldl_cons, List.foldl_cons, hinward, htwice, ih]

end LivingObjects.Lib
