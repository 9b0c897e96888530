/-
Steps in code, where text is names, numbers, strings and marks.

The first glyph tells what is read: a letter begins a name, a digit a
date, a time or a number, and every other character has one rule of its
own. What has none is illegal.
-/
import BuildLexer.Literal.Name
import BuildLexer.Literal.Number
import BuildLexer.Literal.RawString
import BuildLexer.Literal.Temporal
import BuildLexer.Plan.Marks
import BuildLexer.Plan.Text

namespace BuildLexer.Plan

-- =========================================================== literals

/-- A name or a reserved word, whose first letter is at the front. It
ends a call by a bare name. -/
def name (n : Nesting) (src : List Glyph) : Plan :=
  let more := Name.tailLength (src.drop 1)
  let token := Token.ofWord (Glyph.lossyText (src.take (more + 1)))
  { spanning token src more (n.leave {.nameCall}) with
    late :=
      if token = .literal .bareword || token.isKeyword then []
      else [⟨0, .unexpectedToken token⟩] }

/-- A number, whose first digit stands behind `start` glyphs. -/
def number (n : Nesting) (start : Nat) (src : List Glyph) : Plan :=
  let number := Number.read start (src.drop start)
  { spanning (.literal number.kind) src (number.length - 1) n with
    early := number.early
    late := number.late }

/-- A date, a time or a number, whose first digit is at the front. -/
def digits (n : Nesting) (src : List Glyph) : Plan :=
  match Temporal.read? src with
  | some temporal =>
    { spanning (.literal temporal.kind) src (temporal.length - 1) n with
      early := temporal.faults }
  | none => number n 0 src

/-- A raw string, whose first quote is at the front. -/
def rawString (n : Nesting) (src : List Glyph) : Plan :=
  let string := RawString.read (src.drop 1)
  { spanning (.literal .string) src string.length n with
    late := if string.closed then [] else [⟨0, .openRawString⟩] }

/-- The opening quote or quotes of a string. -/
def openString (n : Nesting) (src : List Glyph) : Plan :=
  if twoQuotes (src.drop 1) then
    spanning (.literal .compound) src 2 (n.enter {.quoted, .tripleQuoted})
  else spanning (.literal .compound) src 0 (n.enter {.quoted})

-- ================================================== blanks and the rest

/-- Whether a glyph is a blank between tokens. -/
def isBlank (g : Glyph) : Bool :=
  g == .scalar ' ' || g == .scalar '\t' || g == .scalar '\r'

/-- A run of blanks. -/
def blanks (n : Nesting) (src : List Glyph) : Plan :=
  spanning (.punct .space) src ((src.drop 1).takeWhile isBlank).length n

/-- A line end. A call by colons that is still open ends with it, as a
fault. -/
def lineEnd (n : Nesting) : Plan :=
  if n.meets Context.colonCall then
    { mark (.punct .lineEnd) 0 (n.leave Context.colonCall) with
      late := [⟨0, .openColonCall⟩] }
  else mark (.punct .lineEnd) 0 n

/-- A hash sign, or a comment up to the end of the line. -/
def hash (mode : Mode) (n : Nesting) (src : List Glyph) : Plan :=
  if n.has .commentsOff then mark (.punct .hash) 0 n
  else if mode.commentTokens then
    { token := some .comment
      text := Glyph.lossyText (src.takeWhile (· != .newline))
      skipsLine := true
      nesting := n }
  else { skip 0 n with skipsLine := true }

/-- A backslash, which joins lines before a line end. -/
def backslash (n : Nesting) (rest : List Glyph) : Plan :=
  if rest.head? = some .newline then skip 1 n
  else mark (.punct .backslash) 0 n

/-- The fault of a character that has no rule. Those that were reported
when they were reached are not reported again. -/
def illegalFindings (g : Glyph) : List Finding :=
  let c := g.char
  if c = '\x00' ∨ c = '\uFFFD' ∨ c = '\uFEFF' then []
  else [⟨0, .illegalCharacter c⟩]

/-- A glyph that has no rule. -/
def illegal (n : Nesting) (g : Glyph) : Plan :=
  { spanning .illegal [g] 0 n with late := illegalFindings g }

/-- An operator, or an illegal glyph. -/
def operator (n : Nesting) (g : Glyph) (rest : List Glyph) : Plan :=
  match operator? ((g :: rest.take 2).map Glyph.char) with
  | some (token, more) => mark token more n
  | none => illegal n g

-- =============================================================== steps

/-- A step at a glyph that is neither letter nor digit. -/
def special (mode : Mode) (n : Nesting) (g : Glyph) (rest : List Glyph) :
    Plan :=
  let src := g :: rest
  let next := (rest.take 2).map Glyph.char
  match g.char with
  | '\t' => if n.opensRecipe then recipe n rest else blanks n src
  | ' ' | '\r' => blanks n src
  | '\n' => lineEnd n
  | '#' => hash mode n src
  | '\\' => backslash n rest
  | '\x27' => rawString n src
  | '"' => openString n src
  | '$' => reference .delegate n rest
  | '&' => reference .closure n rest
  | ':' => colon n next
  | ']' => rightBracket n next
  | '(' => leftParen n
  | ')' => rightParen n
  | '\x7b' => leftBrace n
  | '\x7d' => rightBrace n
  | '-' =>
    if rest.head?.any Glyph.isDigit then number n 1 src
    else operator n g rest
  | _ => operator n g rest

/-- A step in code. -/
def inCode (mode : Mode) (n : Nesting) (g : Glyph) (rest : List Glyph) :
    Plan :=
  if g.isLetter then name n (g :: rest)
  else if g.isDigit then digits n (g :: rest)
  else special mode n g rest

end BuildLexer.Plan
