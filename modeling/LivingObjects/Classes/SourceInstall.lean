/-
  LivingObjects.Classes.SourceInstall — installing the methods of a source file.

  `bc_compile_and_install_source_methods` takes the chunks of a source one after the
  other: it finds the class, compiles the method, makes it and appends it to the
  dictionary of the class.  A chunk it refuses ends the run with 0.  The active class
  bindings are put back on every way out but one, an over-long header line, and what
  the chunks before have installed stays: `source_install_atomic_iff` says when a run
  that returns 0 has changed nothing.
-/
import LivingObjects.Classes.InstVars
import LivingObjects.Classes.Installs
import LivingObjects.Classes.Spared

namespace LivingObjects.Classes

open LivingObjects.Lib
open LivingObjects.Lib.Attempt
open LivingObjects.VM
open LivingObjects.ObjectMemory
open LivingObjects.Compiler

/-! ## §1. The class of a method. -/

/-- `bc_target_class_for_method`; 0 is `NULL`. -/
def bcTargetClassForMethod (m : Mem) (klass : Nat) (classSide : Bool) : Nat :=
  if classSide then if klass % 4 = 0 then (objClass m klass).toNat else 0 else klass

/-! ## §2. The installer. -/

/-- How a chunk ends. -/
inductive ChunkResult where
  | installed
  | refused
  /-- The header line does not fit its buffer. -/
  | headerTooLong
  /-- A store through `NULL`. -/
  | faulted
  | outOfFuel
deriving DecidableEq, Repr

variable (fuel : Nat) (env : InstallEnv)

/-- The class a chunk is for; 0 is `NULL`. -/
def chunkTarget (m : Mem) (chunk : BMethodChunk) : Nat :=
  let klass := bcLookupClassNamed m env.globals env.bindings chunk.className
  if klass = 0 then 0 else bcTargetClassForMethod m klass chunk.classSide

/-- `bc_append_method_dict`; false where it stores through `NULL`. -/
def appendMethod (target : Nat) (selector method : Oop) : Mat Bool := .modifyGet fun s =>
  match bcAppendMethodDict s.heap env.classClass target selector method with
  | none => (false, s)
  | some (newMd, heap) =>
    (true,
      { heap := heap
        live := insert ⟨newMd, 8 * (3 + ((oldSize s.heap.mem target).toNat + 2))⟩ s.live })

/-- A compiled method into the heap and into its class; false where a store goes through
`NULL`. -/
def installMethod (target : Nat) (method : BCompiledMethodDef) : Mat Bool := do
  let selector ← internSymbol env method.header.selector
  match ← bcMaterializeCompiledMethod env method with
  | none => return false
  | some compiledMethod => appendMethod env target selector compiledMethod

/-- One chunk. -/
def installChunk (chunk : BMethodChunk) (s : Arena) : ChunkResult × Arena :=
  let target := chunkTarget env s.heap.mem chunk
  if target = 0 then (.refused, s)
  else
    let instVarIndex name := bcClassInstVarIndex s.heap.mem fuel target (cString name)
    match compileMethodSource fuel (some instVarIndex) chunk.methodSource with
    | .fault .headerTooLong => (.headerTooLong, s)
    | .fault _ => (.refused, s)
    | .outOfFuel => (.outOfFuel, s)
    | .method method =>
      match installMethod env target method s with
      | .ok true s => (.installed, s)
      | .ok false s => (.faulted, s)
      | .rejected s => (.refused, s)
      | .outOfFuel => (.outOfFuel, s)

/-- The heap, and the active class bindings. -/
structure CompilerState where
  arena : Arena
  bindings : List ClassBinding

/-- How the installer ends: 1, 0, or not at all. -/
inductive InstallResult where
  | installed
  | failed
  | faulted
  | outOfFuel
deriving DecidableEq, Repr

/-- The loop over the chunks, with the bindings to put back. -/
def installChunks (saved : List ClassBinding) :
    List BMethodChunk → CompilerState → InstallResult × CompilerState
  | [], s => (.installed, { s with bindings := saved })
  | chunk :: rest, s =>
    match installChunk fuel env chunk s.arena with
    | (.installed, arena) => installChunks saved rest { s with arena := arena }
    | (.refused, arena) => (.failed, { arena := arena, bindings := saved })
    -- this way out forgets the bindings
    | (.headerTooLong, arena) => (.failed, { s with arena := arena })
    | (.faulted, arena) => (.faulted, { s with arena := arena })
    | (.outOfFuel, arena) => (.outOfFuel, { s with arena := arena })

/-- What the installer looks up at the start. -/
def installEnv (g : Globals) (classClass : Oop) (classes : List ClassBinding) (m : Mem) :
    InstallEnv where
  globals := g
  bindings := classes
  classClass := classClass
  stringClass := bcLookupClassNamed m g classes "String".toList
  arrayClass := bcLookupClassNamed m g classes "Array".toList
  associationClass := bcLookupClassNamed m g classes "Association".toList

/-- `bc_compile_and_install_source_methods`. -/
def bcCompileAndInstallSourceMethods (g : Globals) (classClass : Oop) (classes : List ClassBinding)
    (source : List Char) (s : CompilerState) : InstallResult × CompilerState :=
  match bcParseMethodChunks source 128 with
  | none => (.failed, s)
  | some chunks =>
    installChunks fuel (installEnv g classClass classes s.arena.heap.mem) s.bindings chunks
      { s with bindings := classes }

/-! ## §3. Atomic runs. -/

/-- The classes have the same dictionaries with the same methods. -/
def SameDictionaries (classes : Set Nat) (m m' : Mem) : Prop :=
  ∀ c ∈ classes, objField m' c classMethodDict = objField m c classMethodDict ∧
    ∀ entries, HasMethods m c entries → HasMethods m' c entries

/-- A run that fails has changed no dictionary, and a run that returns has put the
bindings back. -/
structure Atomic (classes : Set Nat) (s : CompilerState) (run : InstallResult × CompilerState) :
    Prop where
  unchanged : run.1 = .failed →
    SameDictionaries classes s.arena.heap.mem run.2.arena.heap.mem
  restored : run.1 = .failed ∨ run.1 = .installed → run.2.bindings = s.bindings

/-- A run that does not return has nothing to keep. -/
theorem atomic_of_stopped {classes : Set Nat} {s : CompilerState}
    {run : InstallResult × CompilerState} (h : run.1 ≠ .failed ∧ run.1 ≠ .installed) :
    Atomic classes s run where
  unchanged := fun hfailed => absurd hfailed h.1
  restored := fun hreturns => absurd hreturns (not_or.mpr h)

/-- A run that fails. -/
theorem atomic_failed {classes : Set Nat} {s s' : CompilerState} :
    Atomic classes s (.failed, s') ↔
      SameDictionaries classes s.arena.heap.mem s'.arena.heap.mem ∧ s'.bindings = s.bindings :=
  ⟨fun h => ⟨h.unchanged rfl, h.restored (.inl rfl)⟩,
    fun h => ⟨fun _ => h.1, fun _ => h.2⟩⟩

/-- No chunk is refused in the heap the ones before it have left. -/
def NoneRefused : List BMethodChunk → Arena → Prop
  | [], _ => True
  | chunk :: rest, s =>
    (installChunk fuel env chunk s).1 ≠ .refused ∧ (installChunk fuel env chunk s).1 ≠ .headerTooLong ∧
    ((installChunk fuel env chunk s).1 = .installed →
      NoneRefused rest (installChunk fuel env chunk s).2)

/-- No chunk is refused but perhaps the first, and that one not for the length of its
header line, unless the bindings are active already. -/
def FailsCleanly (active : List ClassBinding) : List BMethodChunk → Arena → Prop
  | [], _ => True
  | chunk :: rest, s =>
    (installChunk fuel env chunk s).1 = .refused ∨
    ((installChunk fuel env chunk s).1 = .headerTooLong ∧ active = env.bindings) ∨
    NoneRefused fuel env (chunk :: rest) s

/-- What the names in a source stand for are classes of the hierarchy, in the heap each
chunk is installed into. -/
def NamesClasses (classes : Set Nat) : List BMethodChunk → Arena → Prop
  | [], _ => True
  | chunk :: rest, s =>
    (chunkTarget env s.heap.mem chunk ≠ 0 → chunkTarget env s.heap.mem chunk ∈ classes) ∧
    ((installChunk fuel env chunk s).1 = .installed →
      NamesClasses classes rest (installChunk fuel env chunk s).2)

/-! ## §4. Heaps to install into. -/

/-- The classes of the hierarchy and their dictionaries. -/
def protectedObjects (classes : Set Nat) (s : Arena) : Set Extent :=
  {e | e ∈ s.live ∧ Kept s.heap.mem classes e}

/-- A heap with a hierarchy of classes, of which the symbol table and the Smalltalk
dictionary are no part. -/
structure Ready (g : Globals) (classes : Set Nat) (methods : Nat → List (Oop × Oop)) (s : Arena) :
    Prop where
  image : (Image.mk s methods).Inv classes
  roles : Roles g (protectedObjects classes s) s.live s.heap.mem

/-- Making methods starts from here. -/
abbrev Making (g : Globals) (classes : Set Nat) (s : Arena) : Arena → Prop :=
  Quiet g (protectedObjects classes s) s.live s.heap.mem ∅

section Frame

variable {g : Globals} {classes : Set Nat} {methods : Nat → List (Oop × Oop)} {s s' : Arena}

theorem Ready.making (hr : Ready g classes methods s) : Making g classes s s where
  layout := hr.image.layout
  stays := Set.Subset.rfl
  same := fun _ he => ⟨he.1, fun _ _ => rfl⟩
  new := fun _ he => absurd he (Set.notMem_empty _)
  roles := by
    rw [Set.union_empty]
    exact hr.roles

/-- Until a method is appended the classes have the dictionaries they had. -/
theorem Ready.sameDictionaries (hr : Ready g classes methods s) (hs : Making g classes s s') :
    SameDictionaries classes s.heap.mem s'.heap.mem := by
  intro c hc
  obtain ⟨e, he, haddr, hroom⟩ := hr.image.klass c hc
  subst haddr
  have hbytes := (hs.same e ⟨he, .inl hc⟩).2
  have hfield : objField s'.heap.mem e.addr classMethodDict
      = objField s.heap.mem e.addr classMethodDict :=
    hbytes.field (by unfold classMethodDict; omega)
  refine ⟨hfield, fun entries hentries => ?_⟩
  rcases hentries with ⟨hnil, hempty⟩ | ⟨hne, hat⟩
  · exact .inl ⟨hfield.trans hnil, hempty⟩
  · -- the dictionary is an object that is spared
    obtain ⟨d, hd, hdaddr, -, hdbytes⟩ := hr.image.dict e.addr hc hne
    have hown := hr.image.methods e.addr hc
    rcases hown with ⟨hnil, -⟩ | ⟨-, hown⟩
    · exact absurd hnil hne
    have hlength : entries.length = (methods e.addr).length := by
      have hsize := hat.size
      rw [hown.size] at hsize
      simp only at hsize
      omega
    refine .inr ⟨by rw [hfield]; exact hne, ?_⟩
    rw [hfield, hdaddr]
    rw [hdaddr] at hat
    refine hat.congr (hs.same d ⟨hd, .inr ⟨e.addr, hc, hdaddr⟩⟩).2 ?_
    simp only at hdbytes
    omega

/-- Two live objects at one place are one. -/
theorem eq_of_addr {h : Heap} {live : Set Extent} (hl : Layout h live) {e e' : Extent}
    (he : e ∈ live) (he' : e' ∈ live) (haddr : e.addr = e'.addr) : e = e' := by
  by_contra hne
  exact addr_ne_of_ne hl he he' hne haddr

/-- A dictionary is never at an address of no object. -/
theorem Ready.dict_live (hr : Ready g classes methods s) {c : Nat} (hc : c ∈ classes) {a : Nat}
    (ha : a % 8 = 0) (hdict : (objField s.heap.mem c classMethodDict).toNat = a) :
    ∃ e ∈ s.live, e.addr = a := by
  have hne : objField s.heap.mem c classMethodDict ≠ taggedNil := by
    intro hnil
    rw [hnil] at hdict
    have hthree : taggedNil.toNat = 3 := rfl
    omega
  obtain ⟨e, he, haddr, -⟩ := hr.image.dict c hc hne
  exact ⟨e, he, haddr.symm.trans hdict⟩

/-- **Making methods keeps the heap ready**, for more methods as for other sources. -/
theorem Ready.made (hr : Ready g classes methods s) (hs : Making g classes s s') :
    Ready g classes methods s' where
  image := hr.image.frame hs.layout hs.stays fun e he hkept => (hs.same e ⟨he, hkept⟩).2
  roles := by
    refine hs.roles.congr Set.Subset.rfl ?_ (fun _ _ _ _ => rfl) fun _ _ _ _ _ _ _ => rfl
    rintro e he ⟨-, hkept⟩
    refine .inl ?_
    rcases hkept with hc | ⟨c, hc, hdict⟩
    · obtain ⟨k, hk, haddr, -⟩ := hr.image.klass _ hc
      have heq := eq_of_addr hs.layout he (hs.stays hk) haddr.symm
      rw [heq]
      exact ⟨hk, .inl (haddr ▸ hc)⟩
    · rw [(hr.sameDictionaries hs c hc).1] at hdict
      obtain ⟨d, hd, haddr⟩ := hr.dict_live hc (hs.layout.objects e he).aligned hdict
      have heq := eq_of_addr hs.layout he (hs.stays hd) haddr.symm
      rw [heq]
      exact ⟨hd, .inr ⟨c, hc, by rw [hdict, haddr]⟩⟩

/-- A class has a dictionary that was no object before. -/
def Moved (classes : Set Nat) (s s' : Arena) : Prop :=
  ∃ c ∈ classes, (objField s'.heap.mem c classMethodDict).toNat % 8 = 0 ∧
    ∀ e ∈ s.live, e.addr ≠ (objField s'.heap.mem c classMethodDict).toNat

/-- A dictionary that was no object is not one the classes had. -/
theorem Ready.displaced {s₀ : Arena} {methods₀ : Nat → List (Oop × Oop)}
    (hr : Ready g classes methods₀ s₀) (hlive : s₀.live ⊆ s.live) (hmoved : Moved classes s s') :
    ∃ c ∈ classes, objField s'.heap.mem c classMethodDict
      ≠ objField s₀.heap.mem c classMethodDict := by
  obtain ⟨c, hc, haligned, hnew⟩ := hmoved
  refine ⟨c, hc, fun heq => ?_⟩
  rw [heq] at haligned hnew
  obtain ⟨e, he, haddr⟩ := hr.dict_live hc haligned rfl
  exact hnew e (hlive he) haddr

/-- **Appending a method** keeps the heap ready and moves the dictionary of its class. -/
theorem Ready.appended (hr : Ready g classes methods s) {classClass selector method : Oop}
    {klass newMd : Nat} {heap : Heap} (hk : klass ∈ classes) (hmethod : method ≠ 0)
    (happend : bcAppendMethodDict s.heap classClass klass selector method = some (newMd, heap)) :
    Ready g classes (Function.update methods klass (methods klass ++ [(selector, method)]))
        ⟨heap, insert ⟨newMd, 8 * (3 + ((oldSize s.heap.mem klass).toNat + 2))⟩ s.live⟩ ∧
      Moved classes s
        ⟨heap, insert ⟨newMd, 8 * (3 + ((oldSize s.heap.mem klass).toNat + 2))⟩ s.live⟩ := by
  have ha := hr.image.append hk happend
  have hinv := ha.inv hr.image hk hmethod
  have hnew := (ha.layout.objects _ (Set.mem_insert _ _)).aligned
  refine ⟨⟨hinv, ?_⟩, klass, hk, ?_, ?_⟩
  · -- only the class and the new dictionary are written
    have hother : ∀ e ∈ s.live, e ∉ protectedObjects classes s →
        SameBytes s.heap.mem heap.mem e := by
      intro e he hout
      refine ha.sameBytes hr.image hk he fun heq => hout ⟨he, .inl ?_⟩
      rw [heq]
      exact hk
    refine hr.roles.congr (Set.subset_insert _ _) ?_ ?_ ?_
    · rintro e he ⟨-, hkept⟩
      refine ⟨he, ?_⟩
      rcases hkept with hc | ⟨c, hc, hdict⟩
      · exact .inl hc
      · rcases eq_or_ne c klass with rfl | hne
        · exact absurd (hdict.symm.trans ha.field) (ha.fresh e he)
        · exact .inr ⟨c, hc, (congrArg UInt64.toNat (ha.otherDict hr.image hk hc hne)).symm.trans
            hdict⟩
    · intro e he hout _
      exact (hother e he hout).size (hr.image.layout.objects e he).nonempty
    · intro e he hout _ _
      exact hother e he hout
  · rw [ha.field]
    exact hnew
  · intro e he
    rw [ha.field]
    exact ha.fresh e he

end Frame

section Chunks

variable {fuel : Nat} {env : InstallEnv} {classes : Set Nat}
variable {methods : Nat → List (Oop × Oop)} {s : Arena}

/-- What an installed chunk has done. -/
def Extended (g : Globals) (classes : Set Nat) (s s' : Arena) : Prop :=
  (∃ methods, Ready g classes methods s') ∧ s.live ⊆ s'.live ∧ Moved classes s s'

theorem installMethod_spec (hr : Ready env.globals classes methods s) {target : Nat}
    (hk : target ∈ classes) (method : BCompiledMethodDef) :
    Triple (Making env.globals classes s) (installMethod env target method)
      (fun installed s' => installed = true → Extended env.globals classes s s')
      (Making env.globals classes s) := by
  refine Triple.bind (quiet_internSymbol env _) fun selector => ?_
  refine Triple.bind (quiet_bcMaterializeCompiledMethod method) fun result => ?_
  cases result with
  | none =>
    refine Triple.pure fun _ _ h => ?_
    cases h
  | some compiledMethod =>
    refine Triple.modifyGet fun s' hs' => ?_
    obtain ⟨hmade, hne⟩ := hs'
    rcases happend : bcAppendMethodDict s'.heap env.classClass target selector compiledMethod with
      _ | ⟨newMd, heap⟩
    · intro h
      cases h
    · intro _
      obtain ⟨hready, hmoved⟩ := (hr.made hmade).appended hk (hne _ rfl) happend
      obtain ⟨c, hc, haligned, hnew⟩ := hmoved
      exact ⟨⟨_, hready⟩, hmade.stays.trans (Set.subset_insert _ _),
        c, hc, haligned, fun e he => hnew e (hmade.stays he)⟩

variable (fuel env) in
/-- **One chunk**: installed, it has moved a dictionary; refused, it has left all of them
alone. -/
theorem installChunk_spec (hr : Ready env.globals classes methods s) {chunk : BMethodChunk}
    (hnames : chunkTarget env s.heap.mem chunk ≠ 0 → chunkTarget env s.heap.mem chunk ∈ classes) :
    ((installChunk fuel env chunk s).1 = .installed →
      Extended env.globals classes s (installChunk fuel env chunk s).2) ∧
    ((installChunk fuel env chunk s).1 = .refused ∨
        (installChunk fuel env chunk s).1 = .headerTooLong →
      Making env.globals classes s (installChunk fuel env chunk s).2) := by
  have hself := hr.making
  unfold installChunk
  simp only
  split_ifs with htarget
  · exact ⟨fun h => (by cases h), fun _ => hself⟩
  split
  · exact ⟨fun h => (by cases h), fun _ => hself⟩
  · exact ⟨fun h => (by cases h), fun _ => hself⟩
  · exact ⟨fun h => (by cases h), fun _ => hself⟩
  next method _ =>
    have hspec := installMethod_spec hr (hnames htarget) method s hself
    split
    · next s' hrun =>
      rw [hrun] at hspec
      exact ⟨fun _ => hspec rfl, fun h => (by rcases h with h | h <;> cases h)⟩
    · exact ⟨fun h => (by cases h), fun h => (by rcases h with h | h <;> cases h)⟩
    · next s' hrun =>
      rw [hrun] at hspec
      exact ⟨fun h => (by cases h), fun _ => hspec⟩
    · exact ⟨fun h => (by cases h), fun h => (by rcases h with h | h <;> cases h)⟩

/-! ## §5. Runs. -/

variable (fuel env) in
/-- Behind an installed chunk a run may not fail. -/
theorem installChunks_late {s₀ : CompilerState} {methods₀ : Nat → List (Oop × Oop)}
    (hr₀ : Ready env.globals classes methods₀ s₀.arena) (chunks : List BMethodChunk)
    {s : CompilerState} (hr : ∃ methods, Ready env.globals classes methods s.arena)
    (hlive : s₀.arena.live ⊆ s.arena.live)
    (hdisplaced : ∃ c ∈ classes, objField s.arena.heap.mem c classMethodDict
      ≠ objField s₀.arena.heap.mem c classMethodDict)
    (hnames : NamesClasses fuel env classes chunks s.arena) :
    Atomic classes s₀ (installChunks fuel env s₀.bindings chunks s) ↔
      NoneRefused fuel env chunks s.arena := by
  induction chunks generalizing s with
  | nil => exact ⟨fun _ => trivial, fun _ => ⟨fun h => (by cases h), fun _ => rfl⟩⟩
  | cons chunk rest ih =>
    obtain ⟨methods, hr⟩ := hr
    obtain ⟨hname, hrest⟩ := hnames
    obtain ⟨hinstalled, hrefused⟩ := installChunk_spec fuel env hr hname
    -- what is displaced stays so in a chunk that is refused
    have hfailed : ∀ arena bindings, Making env.globals classes s.arena arena →
        ¬ Atomic classes s₀ (.failed, ⟨arena, bindings⟩) := by
      intro arena bindings hmade hatomic
      obtain ⟨c, hc, hne⟩ := hdisplaced
      refine hne ?_
      rw [← (hr.sameDictionaries hmade c hc).1]
      exact (hatomic.unchanged rfl c hc).1
    unfold installChunks NoneRefused
    rcases hrun : installChunk fuel env chunk s.arena with ⟨result, arena⟩
    rw [hrun] at hinstalled hrefused hrest
    cases result with
    | installed =>
      obtain ⟨hready, hgrown, hmoved⟩ := hinstalled rfl
      have hlater := ih (s := { s with arena := arena }) hready (hlive.trans hgrown)
        (hr₀.displaced hlive hmoved) (hrest rfl)
      simp only [ne_eq, reduceCtorEq, not_false_eq_true, true_and, forall_const]
      exact hlater
    | refused =>
      simp only [ne_eq, not_true_eq_false, false_and, iff_false]
      exact hfailed _ _ (hrefused (.inl rfl))
    | headerTooLong =>
      simp only [ne_eq, not_true_eq_false, false_and, and_false, iff_false]
      exact hfailed _ _ (hrefused (.inr rfl))
    | faulted => simp [atomic_of_stopped]
    | outOfFuel => simp [atomic_of_stopped]

/-- **Atomic installation.**  On a heap with a hierarchy of classes, for every source
whose names stand for classes of it: a run that returns 0 has changed no dictionary, and
every run that returns has put the bindings back, exactly if the source does not parse
or no chunk is refused but perhaps the first, and that one not for its header line. -/
theorem source_install_atomic_iff {g : Globals} {classClass : Oop} {bindings : List ClassBinding}
    {s : CompilerState} (hr : Ready g classes methods s.arena) {source : List Char}
    (hnames : ∀ chunks, bcParseMethodChunks source 128 = some chunks →
      NamesClasses fuel (installEnv g classClass bindings s.arena.heap.mem) classes chunks s.arena) :
    Atomic classes s (bcCompileAndInstallSourceMethods fuel g classClass bindings source s) ↔
      ∀ chunks, bcParseMethodChunks source 128 = some chunks →
        FailsCleanly fuel (installEnv g classClass bindings s.arena.heap.mem) s.bindings chunks
          s.arena := by
  unfold bcCompileAndInstallSourceMethods
  rcases hparse : bcParseMethodChunks source 128 with _ | chunks
  · -- nothing has been done yet
    exact ⟨fun _ _ h => (by cases h),
      fun _ => atomic_failed.mpr ⟨fun c hc => ⟨rfl, fun _ h => h⟩, rfl⟩⟩
  have hchunks := hnames chunks hparse
  simp only [Option.some.injEq, forall_eq']
  cases chunks with
  | nil => exact ⟨fun _ => trivial, fun _ => ⟨fun h => (by cases h), fun _ => rfl⟩⟩
  | cons chunk rest =>
    obtain ⟨hname, hrest⟩ := hchunks
    obtain ⟨hinstalled, hrefused⟩ := installChunk_spec fuel
      (installEnv g classClass bindings s.arena.heap.mem) hr hname
    unfold installChunks FailsCleanly NoneRefused
    rcases hrun : installChunk fuel (installEnv g classClass bindings s.arena.heap.mem) chunk s.arena
      with ⟨result, arena⟩
    simp only [hrun] at hinstalled hrefused hrest ⊢
    cases result with
    | installed =>
      obtain ⟨hready, hgrown, hmoved⟩ := hinstalled rfl
      have hlater := installChunks_late fuel
        (installEnv g classClass bindings s.arena.heap.mem) hr rest
        (s := ⟨arena, bindings⟩) hready hgrown (hr.displaced Set.Subset.rfl hmoved) (hrest rfl)
      simp only [reduceCtorEq, ne_eq, not_false_eq_true, true_and, forall_const, false_and,
        false_or]
      exact hlater
    | refused =>
      simp only [true_or, iff_true]
      exact atomic_failed.mpr ⟨hr.sameDictionaries (hrefused (.inl rfl)), rfl⟩
    | headerTooLong =>
      simp only [reduceCtorEq, ne_eq, not_true_eq_false, false_and, and_false, false_or, or_false,
        true_and]
      constructor
      · intro hatomic
        exact (atomic_failed.mp hatomic).2.symm
      · intro hactive
        exact atomic_failed.mpr ⟨hr.sameDictionaries (hrefused (.inr rfl)), hactive.symm⟩
    | faulted => simp [atomic_of_stopped]
    | outOfFuel => simp [atomic_of_stopped]

end Chunks

/-! ## §6. One class and a symbol table. -/

/-- A request for a table of one symbol. -/
def oneSymbol : AllocRequest := indexableRequest 0 1 (by decide)

/-- The class of `oneClass`, and a symbol table with a free entry. -/
def withTable : Image :=
  let s := oneClass.step (.alloc oneSymbol)
  s.step (.store ⟨65584, 32⟩ (setObjField s.arena.heap.mem 65584 0 taggedNil))

/-- The globals of `withTable`; symbols have the class there is. -/
def tableGlobals : Globals where
  symbolTable := 65584
  symbolClass := 65536
  contextClass := 0
  smalltalkDictionary := 0

/-- The class is called A. -/
def classA : List ClassBinding := [⟨some "A".toList, 65536⟩]

theorem withTable_place : ∃ h, omAlloc oneClass.arena.heap oneSymbol = some (65584, h) := by
  have hplace : (omAlloc oneClass.arena.heap oneSymbol).map Prod.fst = some 65584 := by
    decide +kernel
  obtain ⟨⟨obj, h⟩, ha, rfl⟩ := Option.map_eq_some_iff.mp hplace
  exact ⟨h, ha⟩

theorem withTable_notKept {m : Mem} (hnil : objField m 65536 classMethodDict = taggedNil) :
    ¬ Kept m {65536} ⟨65584, 32⟩ := by
  rintro (hin | ⟨c, rfl, hdict⟩)
  · exact absurd hin (by decide)
  · rw [hnil] at hdict
    exact absurd hdict (by decide)

theorem withTable_inv : withTable.Inv {65536} := by
  obtain ⟨h, ha⟩ := withTable_place
  have hlive : (⟨65584, 32⟩ : Extent) ∈ (oneClass.step (.alloc oneSymbol)).arena.live := by
    unfold Image.step Arena.step
    simp only [ha]
    exact Set.mem_insert _ _
  have hnil : objField (oneClass.step (.alloc oneSymbol)).arena.heap.mem 65536 classMethodDict
      = taggedNil := by
    decide +kernel
  have htable := oneClass_inv.step (.alloc oneSymbol) trivial
  generalize hs : oneClass.step (.alloc oneSymbol) = s at hlive hnil htable
  unfold withTable
  rw [hs]
  refine htable.step _ ⟨hlive, withTable_notKept hnil, fun a ha => store64_of_out _ _ ?_⟩
  unfold objFieldAddr
  simp only at ha
  omega

theorem withTable_live : (⟨65584, 32⟩ : Extent) ∈ withTable.arena.live := by
  obtain ⟨h, ha⟩ := withTable_place
  show (⟨65584, 32⟩ : Extent) ∈ (oneClass.step (.alloc oneSymbol)).arena.live
  unfold Image.step Arena.step
  simp only [ha]
  exact Set.mem_insert _ _

theorem withTable_ready : Ready tableGlobals {65536} withTable.methods withTable.arena := by
  have hinv := withTable_inv
  have hlive := withTable_live
  have hnil : objField withTable.arena.heap.mem 65536 classMethodDict = taggedNil := by
    decide +kernel
  have hroom : 24 + 8 * (objSize withTable.arena.heap.mem 65584).toNat ≤ 32 := by
    decide +kernel
  generalize withTable = s at hinv hlive hnil hroom
  refine ⟨hinv, fun _ => ⟨⟨65584, 32⟩, hlive, fun hin => ?_, rfl, hroom⟩, fun hhas => ?_⟩
  · exact withTable_notKept hnil hin.2
  · exact absurd rfl hhas.1

/-- A source whose only method has no header is refused and changes nothing. -/
theorem refused_atomic :
    Atomic {65536} ⟨withTable.arena, []⟩ (bcCompileAndInstallSourceMethods 20 tableGlobals 65536
      classA "!A methodsFor: 'x'! 3!".toList ⟨withTable.arena, []⟩) := by
  have hparse : bcParseMethodChunks "!A methodsFor: 'x'! 3!".toList 128
      = some [⟨"A".toList, false, "x".toList, "3".toList⟩] := by decide +kernel
  have hresult : (installChunk 20 (installEnv tableGlobals 65536 classA withTable.arena.heap.mem)
      ⟨"A".toList, false, "x".toList, "3".toList⟩ withTable.arena).1 = .refused := by
    decide +kernel
  have htarget : chunkTarget (installEnv tableGlobals 65536 classA withTable.arena.heap.mem)
      withTable.arena.heap.mem ⟨"A".toList, false, "x".toList, "3".toList⟩ = 65536 := by
    decide +kernel
  refine (source_install_atomic_iff withTable_ready fun chunks h => ?_).mpr fun chunks h => ?_
  · obtain rfl := Option.some.inj (hparse.symm.trans h)
    exact ⟨fun _ => htarget, fun hinstalled => absurd (hresult.symm.trans hinstalled) (by decide)⟩
  · obtain rfl := Option.some.inj (hparse.symm.trans h)
    exact .inl hresult

/-- Two methods, the second without a header: the first stays installed. -/
theorem halfInstalled_not_atomic :
    Ready tableGlobals {65536} withTable.methods withTable.arena ∧
    ¬ Atomic {65536} ⟨withTable.arena, []⟩ (bcCompileAndInstallSourceMethods 20 tableGlobals 65536
      classA "!A methodsFor: 'x'! foo\n^1! 3!".toList ⟨withTable.arena, []⟩) := by
  refine ⟨withTable_ready, ?_⟩
  have hfailed : (bcCompileAndInstallSourceMethods 20 tableGlobals 65536 classA
      "!A methodsFor: 'x'! foo\n^1! 3!".toList ⟨withTable.arena, []⟩).1 = .failed := by
    decide +kernel
  have hdict : objField (bcCompileAndInstallSourceMethods 20 tableGlobals 65536 classA
      "!A methodsFor: 'x'! foo\n^1! 3!".toList ⟨withTable.arena, []⟩).2.arena.heap.mem 65536
      classMethodDict ≠ objField withTable.arena.heap.mem 65536 classMethodDict := by
    decide +kernel
  generalize bcCompileAndInstallSourceMethods 20 tableGlobals 65536 classA
    "!A methodsFor: 'x'! foo\n^1! 3!".toList ⟨withTable.arena, []⟩ = run at hfailed hdict
  intro hatomic
  exact hdict (hatomic.unchanged hfailed 65536 rfl).1

end LivingObjects.Classes
