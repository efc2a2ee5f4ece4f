/-
  LivingObjects.Lib.MemProgram — programs that read a memory, and updates of it.

  A `Reading` is a program that loads words and bytes, each address depending on what
  it has loaded before.  Its footprint in a memory is the list of the addresses it
  loads from there; two memories that agree on the footprint give the same result.

  A `Bytewise` update leaves at every address something that depends only on what was
  at that address.  Bytewise updates of different places commute.
-/
import LivingObjects.Lib.ByteMem

namespace LivingObjects.Lib

/-! ## §1. Readings. -/

/-- A program that reads a memory. -/
inductive Reading (α : Type) where
  | done (a : α)
  | word (address : Nat) (next : UInt64 → Reading α)
  | byte (address : Nat) (next : UInt8 → Reading α)

namespace Reading

variable {α β : Type}

/-- One program after the other. -/
def bind : Reading α → (α → Reading β) → Reading β
  | done a, f => f a
  | word address next, f => word address (fun v => (next v).bind f)
  | byte address next, f => byte address (fun v => (next v).bind f)

instance : Monad Reading where
  pure := done
  bind := bind

/-- Load a word. -/
def load (address : Nat) : Reading UInt64 := word address done

/-- Load a byte. -/
def loadByte (address : Nat) : Reading UInt8 := byte address done

/-- The result over a memory. -/
def run : Reading α → Mem → α
  | done a, _ => a
  | word address next, m => (next (load64 m address)).run m
  | byte address next, m => (next (m address)).run m

/-- The addresses of the bytes it loads. -/
def footprint : Reading α → Mem → List Nat
  | done _, _ => []
  | word address next, m =>
    (List.range 8).map (address + ·) ++ (next (load64 m address)).footprint m
  | byte address next, m => address :: (next (m address)).footprint m

@[simp] theorem run_pure (a : α) (m : Mem) : (pure a : Reading α).run m = a := rfl

@[simp] theorem run_load (address : Nat) (m : Mem) : (load address).run m = load64 m address := rfl

@[simp] theorem run_loadByte (address : Nat) (m : Mem) : (loadByte address).run m = m address := rfl

@[simp] theorem run_bind (r : Reading α) (f : α → Reading β) (m : Mem) :
    (r >>= f).run m = (f (r.run m)).run m := by
  show (r.bind f).run m = (f (r.run m)).run m
  induction r with
  | done a => rfl
  | word address next ih => exact ih _
  | byte address next ih => exact ih _

@[simp] theorem run_ite (c : Prop) [Decidable c] (r r' : Reading α) (m : Mem) :
    (if c then r else r').run m = if c then r.run m else r'.run m := by
  split <;> rfl

/-- **A reading depends on its footprint only.** -/
theorem run_congr (r : Reading α) {m m' : Mem} (h : ∀ a ∈ r.footprint m, m' a = m a) :
    r.run m' = r.run m := by
  induction r with
  | done a => rfl
  | word address next ih =>
    rw [footprint] at h
    have hword : load64 m' address = load64 m address := by
      apply load64_congr
      intro i hi
      apply h
      exact List.mem_append_left _ (List.mem_map_of_mem (List.mem_range.mpr hi))
    rw [run, run, hword]
    exact ih _ (fun a ha => h a (List.mem_append_right _ ha))
  | byte address next ih =>
    rw [footprint] at h
    have hbyte : m' address = m address := h address List.mem_cons_self
    rw [run, run, hbyte]
    exact ih _ (fun a ha => h a (List.mem_cons_of_mem _ ha))

end Reading

/-! ## §2. Updates. -/

/-- What the update leaves at an address depends on what was at that address. -/
def Bytewise (f : Mem → Mem) : Prop := ∀ ⦃m m' : Mem⦄ ⦃b : Nat⦄, m b = m' b → f m b = f m' b

/-- The update leaves the address alone. -/
def Leaves (f : Mem → Mem) (b : Nat) : Prop := ∀ m : Mem, f m b = m b

theorem bytewise_id : Bytewise (fun m => m) := fun _ _ _ h => h

theorem Bytewise.comp {f g : Mem → Mem} (hf : Bytewise f) (hg : Bytewise g) :
    Bytewise (fun m => f (g m)) := fun _ _ _ h => hf (hg h)

theorem bytewise_store64 (a : Nat) (w : UInt64) : Bytewise (store64 · a w) := by
  intro m m' b h
  show (if _ then _ else m b) = (if _ then _ else m' b)
  rw [h]

theorem bytewise_store8 (a : Nat) (v : UInt8) : Bytewise (store8 · a v) := by
  intro m m' b h
  show (if _ then _ else m b) = (if _ then _ else m' b)
  rw [h]

theorem bytewise_zeroFill (a n : Nat) : Bytewise (zeroFill · a n) := by
  intro m m' b h
  show (if _ then _ else m b) = (if _ then _ else m' b)
  rw [h]

/-- A sequence of bytewise updates is one. -/
theorem bytewise_foldl {ε : Type} {f : Mem → ε → Mem} (hf : ∀ e, Bytewise (f · e))
    (es : List ε) : Bytewise (fun m => es.foldl f m) := by
  induction es with
  | nil => exact bytewise_id
  | cons e es ih => exact Bytewise.comp ih (hf e)

theorem leaves_foldl {ε : Type} {f : Mem → ε → Mem} {es : List ε} {b : Nat}
    (h : ∀ e ∈ es, Leaves (f · e) b) : Leaves (fun m => es.foldl f m) b := by
  induction es with
  | nil => exact fun _ => rfl
  | cons e es ih =>
    intro m
    have hrest : es.foldl f (f m e) b = f m e b :=
      ih (fun e' he' => h e' (List.mem_cons_of_mem e he')) (f m e)
    exact hrest.trans (h e List.mem_cons_self m)

/-- **Bytewise updates that write at different places commute.** -/
theorem Bytewise.commute {f g : Mem → Mem} (hf : Bytewise f) (hg : Bytewise g)
    (h : ∀ b, Leaves f b ∨ Leaves g b) (m : Mem) : f (g m) = g (f m) := by
  funext b
  rcases h b with hleft | hright
  · rw [hleft (g m)]
    exact hg (hleft m).symm
  · rw [hright (f m)]
    exact hf (hright m)

/-- At every address the update leaves what was there or puts a byte of its own. -/
def Settles (f : Mem → Mem) : Prop := ∀ b, Leaves f b ∨ ∃ v, ∀ m, f m b = v

theorem settles_id : Settles (fun m => m) := fun _ => .inl fun _ => rfl

theorem Settles.comp {f g : Mem → Mem} (hf : Settles f) (hg : Settles g) :
    Settles (fun m => f (g m)) := by
  intro b
  rcases hf b with hleaves | ⟨v, hv⟩
  · rcases hg b with hleaves' | ⟨v, hv⟩
    · exact .inl fun m => (hleaves (g m)).trans (hleaves' m)
    · exact .inr ⟨v, fun m => (hleaves (g m)).trans (hv m)⟩
  · exact .inr ⟨v, fun m => hv (g m)⟩

theorem settles_store64 (a : Nat) (w : UInt64) : Settles (store64 · a w) := by
  intro b
  by_cases hb : a ≤ b ∧ b < a + 8
  · exact .inr ⟨byteAt w (b - a), fun m => if_pos hb⟩
  · exact .inl fun m => if_neg hb

theorem settles_store8 (a : Nat) (v : UInt8) : Settles (store8 · a v) := by
  intro b
  by_cases hb : b = a
  · exact .inr ⟨v, fun m => if_pos hb⟩
  · exact .inl fun m => if_neg hb

/-- A sequence of settling updates is one: the last to write decides. -/
theorem settles_foldl {ε : Type} {f : Mem → ε → Mem} (hf : ∀ e, Settles (f · e)) (es : List ε) :
    Settles (fun m => es.foldl f m) := by
  induction es with
  | nil => exact settles_id
  | cons e es ih => exact Settles.comp ih (hf e)

/-- **A settling update made twice is made once.** -/
theorem Settles.twice {f : Mem → Mem} (hf : Settles f) (m : Mem) : f (f m) = f m := by
  funext b
  rcases hf b with hleaves | ⟨v, hv⟩
  · exact hleaves (f m)
  · rw [hv, hv]

end LivingObjects.Lib
