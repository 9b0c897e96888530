/-
The characters that names are made of.

A letter is an alphabetic character or the underscore, a digit any
numeric character. Among the ASCII characters the two classes are the
usual ones and are decided without the tables, which say the same
(`Alphabetic.ranges_ascii`, `Numeric.ranges_ascii`).
-/
import BuildLexer.Text.Alphabetic
import BuildLexer.Text.Numeric
import BuildLexer.Text.Glyph

namespace BuildLexer

/-- Whether a name may start with the character. -/
def isLetter (c : Char) : Bool :=
  if c.toNat < 0x80 then c.isAlpha || c == '_' else Alphabetic.holds c

/-- Whether the character is a digit of some script. -/
def isNumeral (c : Char) : Bool :=
  if c.toNat < 0x80 then c.isDigit else Numeric.holds c

namespace Glyph

/-- Whether a name may start here. -/
def isLetter (g : Glyph) : Bool := BuildLexer.isLetter g.char

/-- Whether a digit of some script is here. -/
def isNumeral (g : Glyph) : Bool := BuildLexer.isNumeral g.char

/-- Whether an ASCII digit is here: only those make numbers. -/
def isDigit (g : Glyph) : Bool := g.char.isDigit

/-- The value of a digit in a base up to sixteen. -/
def digitValue? (base : Nat) (g : Glyph) : Option Nat :=
  let n := g.char.toNat
  let value? :=
    if g.char.isDigit then some (n - 0x30)
    else if 0x41 ≤ n ∧ n ≤ 0x46 then some (n - 0x37)
    else if 0x61 ≤ n ∧ n ≤ 0x66 then some (n - 0x57)
    else none
  value?.filter (· < base)

end Glyph

end BuildLexer
