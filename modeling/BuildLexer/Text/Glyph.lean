/-
Bytes as the scanner reads them, one glyph after the other.

A glyph is a well-formed character or, where none starts, a single byte
that is stepped over alone. Every sequence of bytes reads as glyphs in
exactly one way, and the bytes of the glyphs are the bytes that were
read: an ASCII byte is always a glyph of its own, also behind a broken
sequence, so a newline or a quote is never swallowed by one.
-/
import BuildLexer.Text.Utf8

namespace BuildLexer

/-- One reading step over some bytes. -/
inductive Glyph where
  /-- A well-formed character. -/
  | scalar (c : Char)
  /-- A byte at which no well-formed character starts. -/
  | broken (b : UInt8)
  deriving DecidableEq

namespace Glyph

/-- The bytes that were read. -/
def bytes : Glyph → List UInt8
  | scalar c => String.utf8EncodeChar c
  | broken b => [b]

/-- How many bytes were read. -/
def width : Glyph → Nat
  | scalar c => c.utf8Size
  | broken _ => 1

/-- The character that the glyph stands for; a broken byte stands for
the replacement character. -/
def char : Glyph → Char
  | scalar c => c
  | broken _ => '\uFFFD'

/-- Reads bytes to their end. -/
def ofBytes : List UInt8 → List Glyph
  | [] => []
  | b :: rest =>
    match Utf8.decode? (b :: rest) with
    | some c => scalar c :: ofBytes (rest.drop (c.utf8Size - 1))
    | none => broken b :: ofBytes rest
termination_by bs => bs.length
decreasing_by all_goals simp only [List.length_drop, List.length_cons]; omega

/-- How many bytes some glyphs take. -/
def totalWidth : List Glyph → Nat
  | [] => 0
  | g :: gs => g.width + totalWidth gs

/-- The bytes of some glyphs. -/
def allBytes (gs : List Glyph) : List UInt8 := gs.flatMap bytes

/-- A newline, which ends a line and starts the next. -/
def newline : Glyph := scalar '\n'

/-- The byte order mark: skipped at the start of a source, a fault
anywhere else. -/
def byteOrderMark : Glyph := scalar '\uFEFF'

end Glyph

end BuildLexer
