/-
The text of some glyphs, for readers that take well-formed text only.

Broken bytes are shown as replacement characters, but not each by one:
the bytes of a sequence that began well and then broke off share one.
So while the glyphs are read, the ranges are kept in which the next
bytes must lie to continue such a sequence. A broken byte in the first
of them is one more byte of the sequence already shown; any other byte
begins a sequence of its own. The ranges are those of the well-formed
sequences: the byte after the first one is limited further for some
first bytes, which rules out overlong forms, surrogates and numbers
above 10FFFF.
-/
import BuildLexer.Text.Glyph

namespace BuildLexer.Glyph

/-- A closed range of bytes. -/
abbrev ByteRange := UInt8 × UInt8

/-- Any byte that continues a character. -/
def continuation : ByteRange := (0x80, 0xBF)

/-- What has to follow a first byte, one range for each byte. -/
def followers (b : UInt8) : List ByteRange :=
  if b < 0xC2 then []
  else if b < 0xE0 then [continuation]
  else if b = 0xE0 then [(0xA0, 0xBF), continuation]
  else if b = 0xED then [(0x80, 0x9F), continuation]
  else if b < 0xF0 then [continuation, continuation]
  else if b = 0xF0 then [(0x90, 0xBF), continuation, continuation]
  else if b < 0xF4 then [continuation, continuation, continuation]
  else if b = 0xF4 then [(0x80, 0x8F), continuation, continuation]
  else []

/-- The characters shown for some glyphs, given what would continue the
broken sequence before them. -/
def lossyFrom : List ByteRange → List Glyph → List Char
  | _, [] => []
  | _, scalar c :: rest => c :: lossyFrom [] rest
  | [], broken b :: rest => '\uFFFD' :: lossyFrom (followers b) rest
  | (low, high) :: more, broken b :: rest =>
    if low ≤ b ∧ b ≤ high then lossyFrom more rest
    else '\uFFFD' :: lossyFrom (followers b) rest

/-- The text of some glyphs. -/
def lossyText (gs : List Glyph) : String := String.ofList (lossyFrom [] gs)

end BuildLexer.Glyph
