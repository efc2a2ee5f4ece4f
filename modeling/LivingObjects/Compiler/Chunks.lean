/-
  LivingObjects.Compiler.Chunks — source files of methods.

  `bc_parse_method_chunks` cuts a source at its exclamation marks: a chunk between two
  of them that says `methodsFor:` sets the class and the category, and a text before
  one is a method of that class.  Each method has a header line, which
  `bc_parse_method_header` reads, and behind it perhaps a primitive and a body.
-/
import LivingObjects.Compiler.Codegen

namespace LivingObjects.Compiler

/-! ## §1. Cutting. -/

/-- The characters that are dropped around a chunk. -/
def isBlank (c : Char) : Bool := c == ' ' || c == '\t' || c == '\n' || c == '\r'

/-- A text without the blanks around it. -/
def trimBlanks (text : List Char) : List Char :=
  ((text.dropWhile isBlank).reverse.dropWhile isBlank).reverse

/-- `BMethodChunk`. -/
structure BMethodChunk where
  className : List Char
  classSide : Bool
  category : List Char
  methodSource : List Char
deriving DecidableEq, Repr

/-- What the last `methodsFor:` has set. -/
structure ChunkHeader where
  className : List Char
  classSide : Bool
  category : List Char

/-- The rest of a text after a word it starts with. -/
def afterWord (word text : List Char) : Option (List Char) :=
  if text.take word.length = word then some (text.drop word.length) else none

/-- A segment `Name methodsFor: 'category'` or `Name class methodsFor: 'category'`. -/
def chunkHeader (segment : List Char) : Option ChunkHeader :=
  let skip (text : List Char) := text.dropWhile fun c => c == ' ' || c == '\t'
  let className := (segment.takeWhile isNameChar).take 63
  let rest := skip (segment.drop className.length)
  let (classSide, rest) :=
    match afterWord "class".toList rest with
    | some after => (true, skip after)
    | none => (false, rest)
  match afterWord "methodsFor:".toList rest with
  | none => none
  | some after =>
    match skip after with
    | '\'' :: text =>
      let category := (text.takeWhile (· != '\'')).take 63
      if (text.drop category.length).head? = some '\'' then some ⟨className, classSide, category⟩
      else none
    | _ => none

/-- The loop of `bc_parse_method_chunks`; every turn takes at least one character. -/
def bcParseMethodChunksFrom (maxChunks : Nat) :
    Nat → ChunkHeader → List BMethodChunk → List Char → Option (List BMethodChunk)
  | 0, _, chunks, _ => some chunks
  | _ + 1, _, chunks, [] => some chunks
  | fuel + 1, current, chunks, c :: cs =>
    if c = '!' then
      match cs.dropWhile (· != '!') with
      | [] => none
      | _ :: rest =>
        let segment := trimBlanks (cs.takeWhile (· != '!'))
        if segment = [] then bcParseMethodChunksFrom maxChunks fuel current chunks rest
        else if 4096 ≤ segment.length then none
        else if "methodsFor:".toList <:+: segment then
          match chunkHeader segment with
          | none => none
          | some current => bcParseMethodChunksFrom maxChunks fuel current chunks rest
        else bcParseMethodChunksFrom maxChunks fuel current chunks rest
    else if current.className = [] then bcParseMethodChunksFrom maxChunks fuel current chunks cs
    else
      match (c :: cs).dropWhile (· != '!') with
      -- a text that no mark ends is not looked at
      | [] => some chunks
      | mark :: rest =>
        let methodSource := trimBlanks ((c :: cs).takeWhile (· != '!'))
        -- the mark stays for the next turn
        if methodSource = [] then
          bcParseMethodChunksFrom maxChunks fuel current chunks (mark :: rest)
        else if maxChunks ≤ chunks.length then none
        else if 4096 ≤ methodSource.length then none
        else
          let chunk : BMethodChunk :=
            ⟨current.className, current.classSide, current.category, methodSource⟩
          bcParseMethodChunksFrom maxChunks fuel current (chunks ++ [chunk]) rest

/-- `bc_parse_method_chunks`. -/
def bcParseMethodChunks (source : List Char) (maxChunks : Nat) : Option (List BMethodChunk) :=
  bcParseMethodChunksFrom maxChunks source.length ⟨[], false, []⟩ [] source

/-- A chunk that fits a `BMethodChunk`, of a named class. -/
structure BMethodChunk.Fits (chunk : BMethodChunk) : Prop where
  named : chunk.className ≠ []
  methodSource : chunk.methodSource ≠ [] ∧ chunk.methodSource.length < 4096

theorem bcParseMethodChunksFrom_fits {maxChunks fuel : Nat} {current : ChunkHeader}
    {chunks result : List BMethodChunk} {source : List Char}
    (hroom : chunks.length ≤ maxChunks) (hfits : ∀ c ∈ chunks, c.Fits)
    (h : bcParseMethodChunksFrom maxChunks fuel current chunks source = some result) :
    result.length ≤ maxChunks ∧ ∀ c ∈ result, c.Fits := by
  induction fuel generalizing current chunks source with
  | zero =>
    obtain rfl := Option.some.inj h
    exact ⟨hroom, hfits⟩
  | succ fuel ih =>
    cases source with
    | nil =>
      obtain rfl := Option.some.inj h
      exact ⟨hroom, hfits⟩
    | cons c cs =>
      rw [bcParseMethodChunksFrom] at h
      split at h
      case isTrue =>
        -- a segment adds no chunk
        split at h
        · cases h
        · simp only at h
          split_ifs at h
          · exact ih hroom hfits h
          · split at h
            · cases h
            · exact ih hroom hfits h
          · exact ih hroom hfits h
      case isFalse =>
        split at h
        · exact ih hroom hfits h
        next hnamed =>
        split at h
        · obtain rfl := Option.some.inj h
          exact ⟨hroom, hfits⟩
        · simp only at h
          split_ifs at h with hempty hfull hlong
          · exact ih hroom hfits h
          · refine ih ?_ ?_ h
            · rw [List.length_append, List.length_singleton]
              omega
            · intro chunk hin
              rcases List.mem_append.mp hin with hold | hnew
              · exact hfits chunk hold
              · rw [List.mem_singleton.mp hnew]
                exact ⟨hnamed, hempty, Nat.lt_of_not_le hlong⟩

/-- **What is accepted fits**: no more chunks than there is room for, each with a class
and a source that fit their fields. -/
theorem bcParseMethodChunks_fits {source : List Char} {maxChunks : Nat}
    {chunks : List BMethodChunk} (h : bcParseMethodChunks source maxChunks = some chunks) :
    chunks.length ≤ maxChunks ∧ ∀ c ∈ chunks, c.Fits :=
  bcParseMethodChunksFrom_fits (Nat.zero_le _) (List.forall_mem_nil _) h

/-- Two methods, one of them of the class side. -/
example : (bcParseMethodChunks "!A methodsFor: 'x'! foo ^1! bar! !A class methodsFor: 'y'! baz!".toList
    128).map (List.map fun c => (c.classSide, String.ofList c.methodSource))
    = some [(false, "foo ^1"), (false, "bar"), (true, "baz")] := by decide +kernel

/-! ## §2. Headers. -/

/-- `BMethodHeader`, without its kind. -/
structure BMethodHeader where
  selector : List Char
  argNames : List Name
deriving DecidableEq, Repr

/-- The keywords of a header, with room for as many arguments. -/
def keywordHeader : Nat → List Char → List Name → BToken → List Char → Option BMethodHeader
  | 0, _, _, _, _ => none
  | room + 1, selector, argNames, current, rest =>
    let selector := (selector ++ current.text).take 127
    let (arg, rest) := btNext rest
    if arg.type ≠ .identifier then none
    else
      let argNames := argNames ++ [nameField arg.text]
      let (token, rest) := btNext rest
      if token.type = .eof then some ⟨selector, argNames⟩
      else if token.type ≠ .keyword then none
      else keywordHeader room selector argNames token rest

/-- `bc_parse_method_header`. -/
def bcParseMethodHeader (source : List Char) : Option BMethodHeader :=
  let (first, rest) := btNext source
  if first.type = .eof then none
  else if first.type = .identifier then
    if (btNext rest).1.type = .eof then some ⟨first.text.take 127, []⟩ else none
  else if first.isBinary then
    let (second, afterSecond) := btNext rest
    let (selector, (arg, rest)) :=
      if second.isBinary then (first.text ++ second.text, btNext afterSecond)
      else (first.text, (second, afterSecond))
    if arg.type ≠ .identifier then none
    else if (btNext rest).1.type = .eof then some ⟨selector, [nameField arg.text]⟩
    else none
  else if first.type = .keyword then keywordHeader 8 [] [] first rest
  else none

example : bcParseMethodHeader "at: index put: value".toList
    = some ⟨"at:put:".toList, ["index".toList, "value".toList]⟩ := by decide +kernel

/-! ## §3. Methods. -/

/-- `sizeof(header_source)`. -/
def headerRoom : Nat := 256

/-- The header line of a method. -/
def headerLine (methodSource : List Char) : List Char := methodSource.takeWhile (· != '\n')

/-- What follows the header line, without blanks before it. -/
def bodySource (methodSource : List Char) : List Char :=
  ((methodSource.dropWhile (· != '\n')).drop 1).dropWhile isBlank

/-- The number that `%d` reads.  What it makes of one that fits no `int` is not defined. -/
def scanNumber (text : List Char) : Option Int :=
  let (sign, text) : Int × List Char :=
    match text with
    | '-' :: rest => (-1, rest)
    | '+' :: rest => (1, rest)
    | _ => (1, text)
  let digits := text.takeWhile Char.isDigit
  if digits = [] then none
  else some (sign * digits.foldl (fun value d => value * 10 + (d.toNat - '0'.toNat)) 0)

/-- `sscanf` with `<primitive: %d>`, when it reads the number. -/
def scanPrimitive (body : List Char) : Option Int :=
  match afterWord "<primitive:".toList body with
  | none => none
  | some rest => scanNumber (rest.dropWhile isspace)

/-- `BCompiledMethodDef`, as far as installing one reads it. -/
structure BCompiledMethodDef where
  header : BMethodHeader
  /-- -1 without a primitive. -/
  primitiveIndex : Int
  body : CompiledBody
  methodSource : List Char

/-- The body of a primitive without code. -/
def CompiledBody.empty : CompiledBody := ⟨.empty, [], []⟩

/-- Why the source of a method is given up. -/
inductive SourceFault where
  | headerTooLong
  | badHeader
  | badCode
deriving DecidableEq, Repr

/-- How the compilation of the source of a method ends. -/
inductive Compilation where
  | method (method : BCompiledMethodDef)
  | fault (fault : SourceFault)
  | outOfFuel

/-- `bc_codegen_body` for a method. -/
def codegenOf (fuel : Nat) (header : BMethodHeader) (targetClass : TargetClass)
    (primitiveIndex : Int) (methodSource body : List Char) : Compilation :=
  match bcCodegenMethod fuel header.argNames targetClass body with
  | .ok compiled _ => .method ⟨header, primitiveIndex, compiled, methodSource⟩
  | .rejected _ => .fault .badCode
  | .outOfFuel => .outOfFuel

/-- The part of `bc_compile_and_install_source_methods` that goes from the source of a
method to its code. -/
def compileMethodSource (fuel : Nat) (targetClass : TargetClass) (methodSource : List Char) :
    Compilation :=
  let header := headerLine methodSource
  if headerRoom ≤ header.length then .fault .headerTooLong
  else
    match bcParseMethodHeader header with
    | none => .fault .badHeader
    | some header =>
      let body := bodySource methodSource
      match scanPrimitive body with
      | none => codegenOf fuel header targetClass (-1) methodSource body
      | some primitiveIndex =>
        -- the body of a primitive may be missing
        match ((body.dropWhile (· != '>')).drop 1).dropWhile isBlank with
        | [] => .method ⟨header, primitiveIndex, .empty, methodSource⟩
        | c :: cs => codegenOf fuel header targetClass primitiveIndex methodSource (c :: cs)

end LivingObjects.Compiler
