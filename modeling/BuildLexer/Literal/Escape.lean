/-
Escapes in strings: what may follow a backslash.

One character stands for itself or for a control character; one to
three octal digits, or `x`, `u` and `U` with two, four and eight
hexadecimal digits, give a character by its number. A backslash before
a line end joins the lines. An escape that breaks off takes what was
right of it and no more, so the character that broke it, which may be
the closing quote, is still to be read.
-/
import BuildLexer.Fault
import BuildLexer.Text.Letter

namespace BuildLexer

/-- What follows a backslash. Lengths and offsets count from behind the
backslash. -/
inductive Escape where
  /-- An escape of some glyphs. -/
  | valid (length : Nat)
  /-- A line end, which is skipped with the backslash. -/
  | lineJoin
  /-- Some glyphs that belong to no escape, and why. -/
  | invalid (length : Nat) (finding : Finding)
  deriving DecidableEq

namespace Escape

/-- The characters that make an escape alone. -/
def single : List Char :=
  ['a', 'b', 'f', 'n', 'r', 't', 'v', '\\', '$', '"']

/-- The values of the digits at the front, at most `count` of them. -/
def digits (base : Nat) : (count : Nat) → List Glyph → List Nat
  | count + 1, g :: rest =>
    match g.digitValue? base with
    | some d => d :: digits base count rest
    | none => []
  | _, _ => []

/-- The number that some digits write. -/
def value (base : Nat) (ds : List Nat) : Nat :=
  ds.foldl (fun n d => n * base + d) 0

/-- An escape that took `length` glyphs to give a number, which must be
at most `greatest` and no surrogate. -/
def ofNumber (length greatest n : Nat) : Escape :=
  if n ≤ greatest ∧ ¬ (0xD800 ≤ n ∧ n < 0xE000) then valid length
  else invalid length ⟨0, .escapeOutOfRange⟩

/-- An escape by `count` hexadecimal digits after a letter. -/
def hexadecimal (count greatest : Nat) (src : List Glyph) : Escape :=
  let ds := digits 16 count src
  if ds.length < count then
    let fault :=
      if (src.drop ds.length).isEmpty then Fault.openEscape
      else .brokenEscape
    invalid (ds.length + 1) ⟨ds.length + 1, fault⟩
  else ofNumber (count + 1) greatest (value 16 ds)

/-- The escape behind a backslash. -/
def read (src : List Glyph) : Escape :=
  match src with
  | [] => invalid 0 ⟨0, .openEscape⟩
  | g :: rest =>
    if single.any (g == .scalar ·) then valid 1
    else if g = .newline then lineJoin
    else if g = .scalar 'x' then hexadecimal 2 255 rest
    else if g = .scalar 'u' then hexadecimal 4 0x10FFFF rest
    else if g = .scalar 'U' then hexadecimal 8 0x10FFFF rest
    else
      match digits 8 3 src with
      | [] => invalid 0 ⟨0, .unknownEscape⟩
      | ds => ofNumber ds.length 255 (value 8 ds)

end Escape

end BuildLexer
