/-
What one step of the scanner is going to do.

A step looks at the glyphs ahead and at the constructs around them and
decides everything at once: which token it makes, how much it reads,
what it finds wrong and what is open afterwards. That decision is a
plan. It depends on nothing else, above all not on the file, its lines
or earlier reports, and carrying it out (`Scanner.perform`) decides
nothing any more.

A plan always reads its first glyph, so a step at a glyph moves on. Its
findings are of two sorts, because the glyph behind the token is looked
at the moment it is reached: `early` ones are reported before that and
`late` ones after it.
-/
import BuildLexer.Fault
import BuildLexer.Plan.Nesting
import BuildLexer.Text.Lossy

namespace BuildLexer

/-- How hash signs are taken. -/
structure Mode where
  /-- A hash sign is a token and starts no comment. -/
  hashTokens : Bool := false
  /-- Comments are tokens, where there are any. -/
  commentTokens : Bool := false
  deriving DecidableEq

/-- What a step does. -/
structure Plan where
  /-- The token made; none when what was read is skipped. -/
  token : Option Token
  /-- The text of the token, where it has one. -/
  text : String := ""
  /-- How many glyphs are read behind the first. -/
  more : Nat := 0
  /-- Whether the rest of the line is passed over unread after that. -/
  skipsLine : Bool := false
  /-- What is reported before anything is read. -/
  early : List Finding := []
  /-- What is reported after everything is read. -/
  late : List Finding := []
  /-- The constructs around the place behind. -/
  nesting : Nesting
  deriving DecidableEq

namespace Plan

/-- A token that carries no text. -/
def mark (token : Token) (more : Nat) (n : Nesting) : Plan where
  token := some token
  more := more
  nesting := n

/-- A token that carries the text it was read from. -/
def spanning (token : Token) (src : List Glyph) (more : Nat)
    (n : Nesting) : Plan where
  token := some token
  text := Glyph.lossyText (src.take (more + 1))
  more := more
  nesting := n

/-- Nothing but skipped text. -/
def skip (more : Nat) (n : Nesting) : Plan where
  token := none
  more := more
  nesting := n

/-- How many glyphs at the front are none of some characters. -/
def runLength (stops : List Char) (src : List Glyph) : Nat :=
  (src.takeWhile fun g => !stops.any (g == .scalar ·)).length

end Plan

end BuildLexer
