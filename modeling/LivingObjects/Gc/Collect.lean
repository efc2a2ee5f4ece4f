/-
  LivingObjects.Gc.Collect — `gc_copy_object` and `gc_collect`.

  The routines of `gc.s` on a memory of words, which is indexed by byte addresses: an
  object at `obj` has its class at `obj`, its format at `obj + 8`, its size at `obj + 16`
  and its fields from `obj + 24` on.  The root array lies outside both spaces and is a list;
  of the to-space record there are the free pointer, in the state, and the end.
-/
import Mathlib

namespace LivingObjects.Gc

/-! ## §1. Copying. -/

/-- `FORMAT_BYTES`. -/
def formatBytes : Nat := 2

/-- The memory and the free pointer of to-space. -/
structure Space where
  mem : Nat → Nat
  free : Nat

/-- The words of an object, its header included. -/
def totalWords (mem : Nat → Nat) (obj : Nat) : Nat :=
  if mem (obj + 8) = formatBytes then (mem (obj + 16) + 7) / 8 + 3 else mem (obj + 16) + 3

/-- `.Lgc_copy_loop`, with the number of words left. -/
def copyLoop : Nat → Nat → Nat → (Nat → Nat) → Nat → Nat
  | 0, _, _, mem => mem
  | n + 1, src, dst, mem => copyLoop n (src + 8) (dst + 8) (Function.update mem dst (mem src))

section Collect

variable (fromStart fromEnd toEnd : Nat)

/-- `gc_copy_object`; `none` is the trap on overflow of to-space. -/
def gcCopyObject (obj : Nat) (s : Space) : Option (Nat × Space) :=
  let word := s.mem obj
  if word % 2 = 1 then some (word - 1, s)
  else
    let words := totalWords s.mem obj
    if toEnd < s.free + 8 * words then none
    else
      let mem := copyLoop words obj s.free s.mem
      some (s.free, { mem := Function.update mem obj (s.free ||| 1), free := s.free + 8 * words })

/-- The tests before a word is taken for an object to copy. -/
def inFromSpace (word : Nat) : Bool := word % 4 == 0 && fromStart ≤ word && word < fromEnd

/-! ## §2. The collection. -/

/-- One root. -/
def copyRoot (root : Nat) (s : Space) : Option (Nat × Space) :=
  if inFromSpace fromStart fromEnd root then gcCopyObject toEnd root s else some (root, s)

/-- `.Lgc_roots_loop`. -/
def rootsLoop : List Nat → Space → Option (List Nat × Space)
  | [], s => some ([], s)
  | root :: roots, s => do
    let (root, s) ← copyRoot fromStart fromEnd toEnd root s
    let (roots, s) ← rootsLoop roots s
    return (root :: roots, s)

/-- The class word or a field of an object in to-space. -/
def scanWord (address : Nat) (s : Space) : Option Space :=
  if inFromSpace fromStart fromEnd (s.mem address) then do
    let (copy, s) ← gcCopyObject toEnd (s.mem address) s
    return { s with mem := Function.update s.mem address copy }
  else some s

/-- `.Lgc_scan_fields` from a field on, with the number of fields left. -/
def scanFields (obj : Nat) : Nat → Nat → Space → Option Space
  | 0, _, s => some s
  | n + 1, index, s => do
    let s ← scanWord fromStart fromEnd toEnd (obj + 8 * (index + 3)) s
    scanFields obj n (index + 1) s

/-- One round of `.Lgc_scan_loop`. -/
def scanObject (obj : Nat) (s : Space) : Option Space := do
  let size := s.mem (obj + 16)
  let s ← scanWord fromStart fromEnd toEnd obj s
  if s.mem (obj + 8) = formatBytes then some s
  else scanFields fromStart fromEnd toEnd obj size 0 s

/-- `.Lgc_scan_loop`; `fuel` bounds the number of objects. -/
def scanLoop : Nat → Nat → Space → Option Space
  | 0, _, _ => none
  | fuel + 1, scan, s =>
    if s.free ≤ scan then some s
    else do
      let size := s.mem (scan + 16)
      let s ← scanObject fromStart fromEnd toEnd scan s
      let words := if s.mem (scan + 8) = formatBytes then (size + 7) / 8 + 3 else size + 3
      scanLoop fuel (scan + 8 * words) s

/-- `gc_collect`. -/
def gcCollect (roots : List Nat) (s : Space) : Option (List Nat × Space) := do
  let scan := s.free
  let (roots, s) ← rootsLoop fromStart fromEnd toEnd roots s
  let s ← scanLoop fromStart fromEnd toEnd (toEnd + 1) scan s
  return (roots, s)

/-! ## §3. The objects copied.

Which objects the routines of §1 and §2 copy, one entry for each time the branch of
`gc_copy_object` that copies is taken. -/

/-- The object that a call of `gc_copy_object` copies: none when it is forwarded. -/
def objectCopied (obj : Nat) (s : Space) : List Nat := if s.mem obj % 2 = 1 then [] else [obj]

/-- What is copied for one root. -/
def rootCopied (root : Nat) (s : Space) : List Nat :=
  if inFromSpace fromStart fromEnd root then objectCopied root s else []

/-- What `.Lgc_roots_loop` copies. -/
def rootsCopied : List Nat → Space → List Nat
  | [], _ => []
  | root :: roots, s => rootCopied fromStart fromEnd root s ++
      (copyRoot fromStart fromEnd toEnd root s).elim [] fun next => rootsCopied roots next.2

/-- What is copied for a word of an object in to-space. -/
def wordCopied (address : Nat) (s : Space) : List Nat :=
  if inFromSpace fromStart fromEnd (s.mem address) then objectCopied (s.mem address) s else []

/-- What `.Lgc_scan_fields` copies. -/
def fieldsCopied (obj : Nat) : Nat → Nat → Space → List Nat
  | 0, _, _ => []
  | n + 1, index, s => wordCopied fromStart fromEnd (obj + 8 * (index + 3)) s ++
      (scanWord fromStart fromEnd toEnd (obj + 8 * (index + 3)) s).elim []
        (fieldsCopied obj n (index + 1))

/-- What one round of `.Lgc_scan_loop` copies. -/
def scanCopied (obj : Nat) (s : Space) : List Nat :=
  wordCopied fromStart fromEnd obj s ++
    (scanWord fromStart fromEnd toEnd obj s).elim [] fun next =>
      if next.mem (obj + 8) = formatBytes then []
      else fieldsCopied fromStart fromEnd toEnd obj (s.mem (obj + 16)) 0 next

/-- What `.Lgc_scan_loop` copies. -/
def loopCopied : Nat → Nat → Space → List Nat
  | 0, _, _ => []
  | fuel + 1, scan, s =>
    if s.free ≤ scan then []
    else scanCopied fromStart fromEnd toEnd scan s ++
      (scanObject fromStart fromEnd toEnd scan s).elim [] fun next =>
        let size := s.mem (scan + 16)
        let words := if next.mem (scan + 8) = formatBytes then (size + 7) / 8 + 3 else size + 3
        loopCopied fuel (scan + 8 * words) next

/-- What `gc_collect` copies. -/
def gcCopied (roots : List Nat) (s : Space) : List Nat :=
  rootsCopied fromStart fromEnd toEnd roots s ++
    (rootsLoop fromStart fromEnd toEnd roots s).elim [] fun next =>
      loopCopied fromStart fromEnd toEnd (toEnd + 1) s.free next.2

end Collect

/-! ## §4. The heap before a collection. -/

section Heap

variable (mem : Nat → Nat) (fromStart fromEnd : Nat)

/-- A word that is an immediate, or points outside from-space, or to an object. -/
def ValidWord (objs : Nat → Prop) (word : Nat) : Prop :=
  inFromSpace fromStart fromEnd word = true → objs word

/-- The words of an object that are references: the class, and the fields of an object that
does not hold bytes. -/
def IsSlot (obj i : Nat) : Prop := i = 0 ∨ 3 ≤ i ∧ mem (obj + 8) ≠ formatBytes

instance decidableIsSlot (obj i : Nat) : Decidable (IsSlot mem obj i) :=
  inferInstanceAs (Decidable (_ ∨ _ ∧ _))

/-- A from-space of objects as `om_alloc` makes them and mutators leave them. -/
structure WellFormed (objs : Nat → Prop) : Prop where
  aligned : ∀ o, objs o → o % 8 = 0
  inside : ∀ o, objs o → fromStart ≤ o ∧ o + 8 * totalWords mem o ≤ fromEnd
  apart : ∀ o o', objs o → objs o' → o ≠ o' →
    o + 8 * totalWords mem o ≤ o' ∨ o' + 8 * totalWords mem o' ≤ o
  classTag : ∀ o, objs o → mem o % 4 = 0
  slots : ∀ o, objs o → ∀ i < totalWords mem o, IsSlot mem o i →
    ValidWord fromStart fromEnd objs (mem (o + 8 * i))

/-- One object refers to another through its class or a field. -/
def Refers (o o' : Nat) : Prop :=
  ∃ i < totalWords mem o, IsSlot mem o i ∧ mem (o + 8 * i) = o' ∧
    inFromSpace fromStart fromEnd o' = true

/-- The objects that are reached from the roots. -/
inductive Reachable (roots : List Nat) : Nat → Prop
  | root {o : Nat} (hroot : o ∈ roots) (hin : inFromSpace fromStart fromEnd o = true) :
      Reachable roots o
  | slot {o o' : Nat} (ho : Reachable roots o) (href : Refers mem fromStart fromEnd o o') :
      Reachable roots o'

/-- The bytes a list of objects takes. -/
def bytesOf (objs : List Nat) : Nat := (objs.map fun o => 8 * totalWords mem o).sum

/-- Where an object lies when the list is laid out from an address on. -/
def imageOf : Nat → List Nat → Nat → Nat
  | free, [], _ => free
  | free, o' :: rest, o => if o = o' then free else imageOf (free + 8 * totalWords mem o') rest o

/-- What becomes of a word when the objects of the list have moved. -/
def renamed (free : Nat) (copied : List Nat) (word : Nat) : Nat :=
  if inFromSpace fromStart fromEnd word then imageOf mem free copied word else word

end Heap

end LivingObjects.Gc
