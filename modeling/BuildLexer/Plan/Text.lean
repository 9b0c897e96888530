/-
Steps where most characters are plain text: inside recipe lines and
inside strings in double quotes.

Plain text runs to the next backslash, sigil or closing mark. A recipe
line is closed by its line end and a backslash in it keeps the next
character as it is. A string is closed by its quotes, or by the line
end, as a fault, when it is opened by one quote only; a backslash in it
starts an escape.
-/
import BuildLexer.Literal.Escape
import BuildLexer.Plan.Reference

namespace BuildLexer.Plan

-- ======================================================= recipe lines

/-- What ends plain text in a recipe line. -/
def recipeStops : List Char := ['\\', '$', '&', '\n']

/-- The start of a recipe line: a tab and the plain text behind it. -/
def recipe (n : Nesting) (rest : List Glyph) : Plan :=
  let length := runLength recipeStops rest
  { token := some (.literal .recipe)
    text := Glyph.lossyText (rest.take length)
    more := length
    nesting := n.enter {.recipeLine} }

/-- A backslash in a recipe line. -/
def recipeEscape (n : Nesting) (rest : List Glyph) : Plan :=
  match rest with
  | [] =>
    { token := some .illegal
      text := "\\"
      late := [⟨0, .openEscape⟩]
      nesting := n }
  | g :: _ =>
    { token := some (.literal .escape)
      text := Glyph.lossyText [g]
      more := 1
      nesting := n }

/-- A step inside a recipe line. -/
def inRecipe (n : Nesting) (g : Glyph) (rest : List Glyph) : Plan :=
  if g = .newline then mark (.punct .lineEnd) 0 (n.leave {.recipeLine})
  else if g = .scalar '\\' then recipeEscape n rest
  else if g = .scalar '$' then referenceInText .delegate n rest
  else if g = .scalar '&' then referenceInText .closure n rest
  else
    spanning (.literal .raw) (g :: rest) (runLength recipeStops rest) n

-- ============================================================ strings

/-- What ends plain text in a string. -/
def stringStops (tripleQuoted : Bool) : List Char :=
  ['"', '\\', '$', '&'] ++ if tripleQuoted then [] else ['\n']

/-- A backslash in a string. -/
def stringEscape (n : Nesting) (rest : List Glyph) : Plan :=
  match Escape.read rest with
  | .valid length =>
    { token := some (.literal .escape)
      text := Glyph.lossyText (rest.take length)
      more := length
      nesting := n }
  | .lineJoin => skip 1 n
  | .invalid length finding =>
    { token := some .illegal
      text := Glyph.lossyText (.scalar '\\' :: rest.take length)
      more := length
      late := [finding.shift 1]
      nesting := n }

/-- Whether two more quotes are next. -/
def twoQuotes (src : List Glyph) : Bool :=
  src.take 2 == [.scalar '"', .scalar '"']

/-- A step inside a string. -/
def inString (n : Nesting) (g : Glyph) (rest : List Glyph) : Plan :=
  let tripleQuoted := n.has .tripleQuoted
  let text :=
    spanning (.literal .raw) (g :: rest)
      (runLength (stringStops tripleQuoted) rest) n
  if g = .scalar '"' then
    if !tripleQuoted then mark (.literal .composed) 0 (n.leave {.quoted})
    else if twoQuotes rest then
      mark (.literal .composed) 2 (n.leave {.quoted})
    else text
  else if g = .newline && !tripleQuoted then
    { mark (.punct .lineEnd) 0 (n.leave {.quoted}) with
      early := [⟨0, .openString⟩] }
  else if g = .scalar '\\' then stringEscape n rest
  else if g = .scalar '$' then referenceInText .delegate n rest
  else if g = .scalar '&' then referenceInText .closure n rest
  else text

end BuildLexer.Plan
