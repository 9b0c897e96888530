/-
Names: a letter, then as many letters, digits, plus signs, at signs and
hyphens as follow. A hyphen right before a `>` is left out, because the
two are an arrow.
-/
import BuildLexer.Text.Letter

namespace BuildLexer.Name

/-- Whether a glyph goes on with a name, given what follows it. -/
def continues (g : Glyph) (rest : List Glyph) : Bool :=
  if g = .scalar '-' then rest.head? != some (.scalar '>')
  else if g = .scalar '+' ∨ g = .scalar '@' then true
  else g.isLetter || g.isNumeral

/-- How many glyphs at the front go on with a name. -/
def tailLength : List Glyph → Nat
  | [] => 0
  | g :: rest => if continues g rest then tailLength rest + 1 else 0

end BuildLexer.Name
