/-
  LivingObjects.Compiler.ChunkFormat — writing methods as chunks.

  A source file has a header chunk for the methods of a class and a category, and behind it
  the source of each, ended by a mark.  A mark opens a header or ends a method, and which it
  does depends on whether only blanks stand before it.  What is written here is read back
  by `bc_parse_method_chunks`, with any blanks between the chunks.
-/
import Mathlib
import LivingObjects.Compiler.Chunks

namespace LivingObjects.Compiler

/-! ## §1. What is written. -/

/-- A text of blanks. -/
def IsBlankText (text : List Char) : Prop := ∀ c ∈ text, isBlank c = true

/-- A text that neither begins nor ends with a blank. -/
structure Trimmed (text : List Char) : Prop where
  start : ∀ c, text.head? = some c → isBlank c = false
  finish : ∀ c, text.getLast? = some c → isBlank c = false

/-- The protocol a method belongs to. -/
def BMethodChunk.header (chunk : BMethodChunk) : ChunkHeader :=
  ⟨chunk.className, chunk.classSide, chunk.category⟩

/-- The segment that names a protocol. -/
def ChunkHeader.segment (header : ChunkHeader) : List Char :=
  header.className ++ (if header.classSide then " class".toList else [])
    ++ " methodsFor: '".toList ++ header.category ++ ['\'']

/-- A protocol whose names fit their fields. -/
structure ChunkHeader.Fits (header : ChunkHeader) : Prop where
  named : header.className ≠ []
  isName : ∀ c ∈ header.className, isNameChar c = true
  nameFits : header.className.length < 64
  unquoted : ∀ c ∈ header.category, c ≠ '\'' ∧ c ≠ '!'
  categoryFits : header.category.length < 64

/-- A source that a chunk can hold. -/
structure IsSource (text : List Char) : Prop where
  nonempty : text ≠ []
  unmarked : ∀ c ∈ text, c ≠ '!'
  trimmed : Trimmed text
  fits : text.length < 4096

/-- A method that can be written as a chunk. -/
structure BMethodChunk.Writable (chunk : BMethodChunk) : Prop where
  header : chunk.header.Fits
  methodSource : IsSource chunk.methodSource

/-- A method and the mark that ends it, with blanks around its source. -/
def sourceChunk (before methodSource after : List Char) : List Char :=
  before ++ methodSource ++ after ++ ['!']

/-- A header between its marks, with blanks before it. -/
def headerChunk (blanks : List Char) (header : ChunkHeader) : List Char :=
  blanks ++ '!' :: header.segment ++ ['!']

/-- The texts that methods are written as, behind a header that has been written. -/
inductive Written : ChunkHeader → List BMethodChunk → List Char → Prop where
  | done {current : ChunkHeader} {blanks : List Char} (hblanks : IsBlankText blanks) :
      Written current [] blanks
  | shared {chunk : BMethodChunk} {chunks : List BMethodChunk} {before after text : List Char}
      (hbefore : IsBlankText before) (hafter : IsBlankText after)
      (hrest : Written chunk.header chunks text) :
      Written chunk.header (chunk :: chunks)
        (sourceChunk before chunk.methodSource after ++ text)
  | headed {current : ChunkHeader} {chunk : BMethodChunk} {chunks : List BMethodChunk}
      {blanks before after text : List Char} (hblanks : IsBlankText blanks)
      (hbefore : IsBlankText before) (hafter : IsBlankText after)
      (hrest : Written chunk.header chunks text) :
      Written current (chunk :: chunks)
        (headerChunk blanks chunk.header ++ sourceChunk before chunk.methodSource after ++ text)

/-- What is current before the first header. -/
def noHeader : ChunkHeader := ⟨[], false, []⟩

theorem isBlankText_nil : IsBlankText [] := by
  intro c hin
  nomatch hin

/-- Every list of methods can be written, here with a header for each and no blanks. -/
theorem exists_written (current : ChunkHeader) (chunks : List BMethodChunk) :
    ∃ text, Written current chunks text := by
  induction chunks generalizing current with
  | nil => exact ⟨[], .done isBlankText_nil⟩
  | cons chunk chunks ih =>
    obtain ⟨text, htext⟩ := ih chunk.header
    exact ⟨_, .headed isBlankText_nil isBlankText_nil isBlankText_nil htext⟩

/-! ## §2. Cutting at a mark. -/

theorem takeWhile_to_mark {text : List Char} (h : ∀ c ∈ text, c ≠ '!') (rest : List Char) :
    (text ++ '!' :: rest).takeWhile (· != '!') = text := by
  rw [List.takeWhile_append_of_pos (fun c hin => by simpa using h c hin),
    List.takeWhile_cons_of_neg (by decide), List.append_nil]

theorem dropWhile_to_mark {text : List Char} (h : ∀ c ∈ text, c ≠ '!') (rest : List Char) :
    (text ++ '!' :: rest).dropWhile (· != '!') = '!' :: rest := by
  rw [List.dropWhile_append_of_pos (fun c hin => by simpa using h c hin),
    List.dropWhile_cons_of_neg (by decide)]

theorem IsBlankText.unmarked {blanks : List Char} (h : IsBlankText blanks) :
    ∀ c ∈ blanks, c ≠ '!' := by
  intro c hin hmark
  have hblank := h c hin
  rw [hmark] at hblank
  exact absurd hblank (by decide)

theorem dropWhile_blanks {blanks text : List Char} (h : IsBlankText blanks)
    (hstart : ∀ c, text.head? = some c → isBlank c = false) :
    (blanks ++ text).dropWhile isBlank = text := by
  rw [List.dropWhile_append_of_pos h]
  cases text with
  | nil => rfl
  | cons c cs => exact List.dropWhile_cons_of_neg (by rw [hstart c rfl]; decide)

/-- **Trimming drops the blanks around a text, and no more.** -/
theorem trimBlanks_around {before text after : List Char} (hbefore : IsBlankText before)
    (hafter : IsBlankText after) (htext : text ≠ []) (h : Trimmed text) :
    trimBlanks (before ++ text ++ after) = text := by
  have hstart : ∀ c, (text ++ after).head? = some c → isBlank c = false := by
    intro c hc
    rw [List.head?_append_of_ne_nil _ htext] at hc
    exact h.start c hc
  have hreverse : IsBlankText after.reverse := fun c hin => hafter c (List.mem_reverse.mp hin)
  have hfinish : ∀ c, text.reverse.head? = some c → isBlank c = false := by
    intro c hc
    rw [List.head?_reverse] at hc
    exact h.finish c hc
  rw [trimBlanks, List.append_assoc, dropWhile_blanks hbefore hstart, List.reverse_append,
    dropWhile_blanks hreverse hfinish, List.reverse_reverse]

theorem trimBlanks_blanks {blanks : List Char} (h : IsBlankText blanks) :
    trimBlanks blanks = [] := by
  have hall : blanks.dropWhile isBlank = [] := List.dropWhile_eq_nil_iff.mpr h
  rw [trimBlanks, hall]
  rfl

/-! ## §3. The header of a segment. -/

theorem isNameChar_ne {c d : Char} (h : isNameChar c = true) (hd : isNameChar d = false) :
    c ≠ d := by
  intro heq
  rw [heq, hd] at h
  exact absurd h (by decide)

theorem not_blank_of_name {c : Char} (h : isNameChar c = true) : isBlank c = false := by
  rw [Bool.eq_false_iff]
  intro hblank
  simp only [isBlank, Bool.or_eq_true, beq_iff_eq] at hblank
  obtain ((rfl | rfl) | rfl) | rfl := hblank <;> exact absurd h (by decide)

namespace ChunkHeader

variable {header : ChunkHeader}

/-- The part of a segment behind the name of the class. -/
def tail (header : ChunkHeader) : List Char :=
  (if header.classSide then " class".toList else [])
    ++ (" methodsFor: '".toList ++ (header.category ++ ['\'']))

theorem segment_eq (header : ChunkHeader) : header.segment = header.className ++ header.tail := by
  simp only [segment, tail, List.append_assoc]

theorem tail_head (header : ChunkHeader) : ∃ rest, header.tail = ' ' :: rest := by
  rw [tail]
  cases header.classSide with
  | false => exact ⟨_, rfl⟩
  | true => exact ⟨_, rfl⟩

theorem Fits.takeWhile_name (h : header.Fits) :
    (header.segment.takeWhile isNameChar).take 63 = header.className := by
  obtain ⟨rest, hrest⟩ := header.tail_head
  rw [segment_eq, List.takeWhile_append_of_pos h.isName, hrest,
    List.takeWhile_cons_of_neg (by decide), List.append_nil]
  exact List.take_of_length_le (by have := h.nameFits; omega)

theorem Fits.category_end (h : header.Fits) :
    ((header.category ++ ['\'']).takeWhile (· != '\'')).take 63 = header.category := by
  have hall : ∀ c ∈ header.category, (c != '\'') = true := by
    intro c hin
    simpa using (h.unquoted c hin).1
  rw [List.takeWhile_append_of_pos hall, List.takeWhile_cons_of_neg (by decide), List.append_nil]
  exact List.take_of_length_le (by have := h.categoryFits; omega)

/-- **A header is read back from its segment.** -/
theorem Fits.chunkHeader_segment (h : header.Fits) : chunkHeader header.segment = some header := by
  have hcategory := h.category_end
  obtain ⟨className, classSide, category⟩ := header
  have hname := h.takeWhile_name
  have htail : (segment ⟨className, classSide, category⟩).drop className.length
      = tail ⟨className, classSide, category⟩ := by
    rw [segment_eq, List.drop_left]
  dsimp only at hcategory hname
  simp only [chunkHeader, hname, htail]
  cases classSide with
  | false =>
    simp [tail, afterWord, hcategory]
  | true =>
    simp [tail, afterWord, hcategory]

end ChunkHeader

theorem ChunkHeader.Fits.unmarked {header : ChunkHeader} (h : header.Fits) :
    ∀ c ∈ header.segment, c ≠ '!' := by
  intro c hin
  simp only [ChunkHeader.segment, List.mem_append, List.mem_singleton] at hin
  obtain (((hname | hside) | hword) | hcategory) | rfl := hin
  · exact isNameChar_ne (h.isName c hname) (by decide)
  · cases hclass : header.classSide with
    | false => simp [hclass] at hside
    | true =>
      have hall : ∀ d ∈ " class".toList, d ≠ '!' := by simp
      rw [if_pos hclass] at hside
      exact hall c hside
  · have hall : ∀ d ∈ " methodsFor: '".toList, d ≠ '!' := by simp
    exact hall c hword
  · exact (h.unquoted c hcategory).2
  · decide

theorem ChunkHeader.segment_ne_nil (header : ChunkHeader) : header.segment ≠ [] := by
  rw [ChunkHeader.segment]
  exact List.append_ne_nil_of_right_ne_nil _ (List.cons_ne_nil _ _)

theorem ChunkHeader.Fits.trimmed {header : ChunkHeader} (h : header.Fits) :
    Trimmed header.segment where
  start c hc := by
    rw [ChunkHeader.segment_eq, List.head?_append_of_ne_nil _ h.named] at hc
    exact not_blank_of_name (h.isName c (List.mem_of_mem_head? hc))
  finish c hc := by
    rw [ChunkHeader.segment, List.getLast?_concat] at hc
    obtain rfl := Option.some.inj hc
    decide

theorem ChunkHeader.Fits.segment_short {header : ChunkHeader} (h : header.Fits) :
    header.segment.length < 4096 := by
  have hname := h.nameFits
  have hcategory := h.categoryFits
  have hside : (if header.classSide then " class".toList else []).length ≤ 6 := by
    cases header.classSide with
    | false => exact Nat.zero_le _
    | true => exact Nat.le_refl _
  have hword : " methodsFor: '".toList.length = 14 := rfl
  rw [ChunkHeader.segment]
  simp only [List.length_append, List.length_singleton, hword]
  omega

theorem ChunkHeader.methodsFor_infix (header : ChunkHeader) :
    "methodsFor:".toList <:+: header.segment := by
  refine ⟨header.className ++ (if header.classSide then " class".toList else []) ++ [' '],
    " '".toList ++ header.category ++ ['\''], ?_⟩
  simp [ChunkHeader.segment]

/-! ## §4. Reading a chunk. -/

section Reading

variable {maxChunks fuel : Nat} {current : ChunkHeader} {chunks : List BMethodChunk}
variable {blanks rest : List Char}

/-- **A header chunk** makes its protocol the current one. -/
theorem read_header {header : ChunkHeader} (h : header.Fits) :
    bcParseMethodChunksFrom maxChunks (fuel + 1) current chunks
        ('!' :: header.segment ++ '!' :: rest)
      = bcParseMethodChunksFrom maxChunks fuel header chunks rest := by
  have htrim : trimBlanks header.segment = header.segment := by
    have := trimBlanks_around isBlankText_nil isBlankText_nil header.segment_ne_nil h.trimmed
    rwa [List.nil_append, List.append_nil] at this
  rw [List.cons_append, bcParseMethodChunksFrom, if_pos rfl, dropWhile_to_mark h.unmarked,
    takeWhile_to_mark h.unmarked]
  dsimp only
  rw [htrim, if_neg header.segment_ne_nil, if_neg (Nat.not_le.mpr h.segment_short),
    if_pos header.methodsFor_infix, h.chunkHeader_segment]

/-- **A method chunk** is a method of the current protocol. -/
theorem read_method {before methodSource after : List Char} (hnamed : current.className ≠ [])
    (hbefore : IsBlankText before) (hafter : IsBlankText after) (h : IsSource methodSource)
    (hroom : chunks.length < maxChunks) :
    bcParseMethodChunksFrom maxChunks (fuel + 1) current chunks
        (before ++ methodSource ++ after ++ '!' :: rest)
      = bcParseMethodChunksFrom maxChunks fuel current
          (chunks ++ [⟨current.className, current.classSide, current.category, methodSource⟩])
          rest := by
  have hunmarked : ∀ c ∈ before ++ methodSource ++ after, c ≠ '!' := by
    intro c hin
    simp only [List.mem_append] at hin
    obtain (hin | hin) | hin := hin
    · exact hbefore.unmarked c hin
    · exact h.unmarked c hin
    · exact hafter.unmarked c hin
  have htrim := trimBlanks_around hbefore hafter h.nonempty h.trimmed
  generalize before ++ methodSource ++ after = text at hunmarked htrim ⊢
  cases text with
  | nil => exact absurd htrim.symm h.nonempty
  | cons c cs =>
    have hdrop := dropWhile_to_mark hunmarked rest
    have htake := takeWhile_to_mark hunmarked rest
    rw [List.cons_append] at hdrop htake
    rw [List.cons_append, bcParseMethodChunksFrom,
      if_neg (hunmarked c List.mem_cons_self), if_neg hnamed, hdrop, htake, htrim]
    dsimp only
    rw [if_neg h.nonempty, if_neg (Nat.not_le.mpr hroom), if_neg (Nat.not_le.mpr h.fits)]

/-- Blanks at the end of a text are not looked at. -/
theorem read_blanks (hblanks : IsBlankText blanks) :
    bcParseMethodChunksFrom maxChunks fuel current chunks blanks = some chunks := by
  induction blanks generalizing fuel with
  | nil => cases fuel <;> rfl
  | cons c cs ih =>
    cases fuel with
    | zero => rfl
    | succ fuel =>
      have hmark : c ≠ '!' := hblanks.unmarked c List.mem_cons_self
      have hdrop : (c :: cs).dropWhile (· != '!') = [] := by
        simpa [List.dropWhile_eq_nil_iff] using hblanks.unmarked
      rw [bcParseMethodChunksFrom, if_neg hmark]
      split
      · exact ih fun d hin => hblanks d (List.mem_cons_of_mem _ hin)
      · rw [hdrop]

/-- **Blanks before a mark** are dropped, and the mark is still there: without a current
class one by one, and with one as a method without a text. -/
theorem read_blanks_mark (hblanks : IsBlankText blanks) (k : Nat)
    (hfuel : blanks.length + k ≤ fuel) :
    ∃ left, k ≤ left ∧ bcParseMethodChunksFrom maxChunks fuel current chunks (blanks ++ '!' :: rest)
      = bcParseMethodChunksFrom maxChunks left current chunks ('!' :: rest) := by
  induction blanks generalizing fuel with
  | nil => exact ⟨fuel, by simpa using hfuel, rfl⟩
  | cons c cs ih =>
    rw [List.length_cons] at hfuel
    obtain ⟨fuel, rfl⟩ : ∃ f, fuel = f + 1 := ⟨fuel - 1, by omega⟩
    have hrest : IsBlankText cs := fun d hin => hblanks d (List.mem_cons_of_mem _ hin)
    have hdrop := dropWhile_to_mark hblanks.unmarked rest
    have htake := takeWhile_to_mark hblanks.unmarked rest
    rw [List.cons_append] at hdrop htake
    rw [List.cons_append, bcParseMethodChunksFrom,
      if_neg (hblanks.unmarked c List.mem_cons_self)]
    by_cases hnamed : current.className = []
    · rw [if_pos hnamed]
      exact ih hrest (by omega)
    · rw [if_neg hnamed, hdrop, htake, trimBlanks_blanks hblanks]
      exact ⟨fuel, by omega, rfl⟩

end Reading

/-! ## §5. Reading what was written. -/

/-- **What was written is read**, behind the methods that have been read before. -/
theorem Written.read {maxChunks : Nat} {current : ChunkHeader} {chunks : List BMethodChunk}
    {text : List Char} (h : Written current chunks text) {fuel : Nat} {read : List BMethodChunk}
    (hwritable : ∀ chunk ∈ chunks, chunk.Writable)
    (hroom : read.length + chunks.length ≤ maxChunks) (hfuel : text.length ≤ fuel) :
    bcParseMethodChunksFrom maxChunks fuel current read text = some (read ++ chunks) := by
  induction h generalizing fuel read with
  | done hblanks => rw [read_blanks hblanks, List.append_nil]
  | @shared chunk chunks before after text hbefore hafter hrest ih =>
    have hchunk := hwritable chunk List.mem_cons_self
    rw [List.length_cons] at hroom
    simp only [sourceChunk, List.length_append, List.length_singleton] at hfuel
    obtain ⟨fuel, rfl⟩ : ∃ f, fuel = f + 1 := ⟨fuel - 1, by omega⟩
    have htext : sourceChunk before chunk.methodSource after ++ text
        = before ++ chunk.methodSource ++ after ++ '!' :: text := by simp [sourceChunk]
    rw [htext, read_method hchunk.header.named hbefore hafter hchunk.methodSource (by omega),
      ih (fun c hin => hwritable c (List.mem_cons_of_mem _ hin))
        (by rw [List.length_append, List.length_singleton]; omega) (by omega),
      List.append_assoc]
    rfl
  | @headed current chunk chunks blanks before after text hblanks hbefore hafter hrest ih =>
    have hchunk := hwritable chunk List.mem_cons_self
    rw [List.length_cons] at hroom
    simp only [headerChunk, sourceChunk, List.length_append, List.length_cons,
      List.length_nil] at hfuel
    have htext : headerChunk blanks chunk.header ++ sourceChunk before chunk.methodSource after
          ++ text
        = blanks ++ '!' :: (chunk.header.segment ++ '!' ::
          (before ++ chunk.methodSource ++ after ++ '!' :: text)) := by
      simp [headerChunk, sourceChunk]
    rw [htext]
    -- a turn for the header and one for the method
    have hleft : blanks.length + (text.length + 2) ≤ fuel := by omega
    obtain ⟨left, hleft, hread⟩ := read_blanks_mark hblanks (text.length + 2) hleft
    obtain ⟨left, rfl⟩ : ∃ l, left = l + 1 + 1 := ⟨left - 2, by omega⟩
    rw [hread, ← List.cons_append, read_header hchunk.header,
      read_method hchunk.header.named hbefore hafter hchunk.methodSource (by omega),
      ih (fun c hin => hwritable c (List.mem_cons_of_mem _ hin))
        (by rw [List.length_append, List.length_singleton]; omega) (by omega),
      List.append_assoc]
    rfl

/-- **Methods that are written as chunks are read back.**  However their protocols share
headers and whatever blanks stand between the chunks, `bc_parse_method_chunks` returns
exactly the methods, in their order. -/
theorem bcParseMethodChunks_written {maxChunks : Nat} {chunks : List BMethodChunk}
    (hwritable : ∀ chunk ∈ chunks, chunk.Writable) (hroom : chunks.length ≤ maxChunks) :
    (∃ text, Written noHeader chunks text)
      ∧ ∀ text, Written noHeader chunks text →
        bcParseMethodChunks text maxChunks = some chunks := by
  refine ⟨exists_written noHeader chunks, ?_⟩
  intro text htext
  exact htext.read hwritable (by simpa using hroom) (Nat.le_refl text.length)

/-- A method of the instance side, and two of the class side that share a header. -/
def threeChunks : List BMethodChunk :=
  [⟨['A'], false, ['x'], "foo ^1".toList⟩, ⟨['A'], true, [], ['a']⟩, ⟨['A'], true, [], ['b']⟩]

theorem threeChunks_writable : ∀ chunk ∈ threeChunks, chunk.Writable := by
  intro chunk hin
  simp only [threeChunks, List.mem_cons, List.not_mem_nil, or_false] at hin
  obtain rfl | rfl | rfl := hin <;>
    exact ⟨⟨by decide, by simp [BMethodChunk.header, isNameChar], by decide, by simp [BMethodChunk.header], by decide⟩,
      ⟨by simp, by simp, ⟨by simp [isBlank], by simp [isBlank]⟩, by decide⟩⟩

theorem bcParseMethodChunks_written_three :
    bcParseMethodChunks
        "!A methodsFor: 'x'! foo ^1!\n\n!A class methodsFor: ''!a! b !\n".toList 128
      = some threeChunks := by
  have hblank : ∀ text ∈ [[], [' '], ['\n'], ['\n', '\n']], IsBlankText text := by
    intro text hin
    simp only [List.mem_cons, List.not_mem_nil, or_false] at hin
    obtain rfl | rfl | rfl | rfl := hin <;> simp [IsBlankText, isBlank]
  have hend : Written ⟨['A'], true, []⟩ [] ['\n'] := .done (hblank _ (by decide))
  have hb : Written ⟨['A'], true, []⟩ [⟨['A'], true, [], ['b']⟩] " b !\n".toList :=
    @Written.shared ⟨['A'], true, [], ['b']⟩ [] [' '] [' '] ['\n'] (hblank _ (by decide))
      (hblank _ (by decide)) hend
  have ha : Written ⟨['A'], false, ['x']⟩ (threeChunks.drop 1)
      "\n\n!A class methodsFor: ''!a! b !\n".toList :=
    .headed (hblank ['\n', '\n'] (by decide)) (hblank [] (by decide)) (hblank [] (by decide)) hb
  have hfoo : Written noHeader threeChunks
      "!A methodsFor: 'x'! foo ^1!\n\n!A class methodsFor: ''!a! b !\n".toList :=
    .headed (hblank [] (by decide)) (hblank [' '] (by decide)) (hblank [] (by decide)) ha
  exact (bcParseMethodChunks_written threeChunks_writable (by decide)).2 _ hfoo

end LivingObjects.Compiler
