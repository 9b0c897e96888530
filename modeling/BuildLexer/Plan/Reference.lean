/-
References: a sigil and what it refers to.

A sigil and a suffix character are complete. Any other sigil begins a
call: the parenthesis, brace or colon behind it opens the arguments,
and without one the call is by the bare name that follows. In strings
and recipe lines a doubled sigil is the plain character.
-/
import BuildLexer.Plan.Basic
import BuildLexer.Token.Table

namespace BuildLexer.Plan

/-- The suffix that a glyph is, if it is one. -/
def suffix? : Glyph → Option Suffix
  | .scalar c => Suffix.ofChar? c
  | .broken _ => none

/-- The construct that a call enters, by what follows the sigil, and
whether that opens the arguments. -/
def callAt (next : Option Glyph) : Flag × Bool :=
  if next = some (.scalar '(') then (.parenCall, true)
  else if next = some (.scalar '\x7b') then (.braceCall, true)
  else if next = some (.scalar ':') then (.colonCallLeft, true)
  else (.nameCall, false)

/-- A call by a sigil, given what follows it. -/
def call (sigil : Sigil) (n : Nesting) (next : Option Glyph) : Plan :=
  let (flag, opener) := callAt next
  mark (.reference sigil none) 0 { n.enter {flag} with openerNext := opener }

/-- A reference in code, given what follows the sigil. -/
def reference (sigil : Sigil) (n : Nesting) (rest : List Glyph) : Plan :=
  match rest.head?.bind suffix? with
  | some suffix => mark (.reference sigil (some suffix)) 1 n
  | none => call sigil n rest.head?

/-- A reference in text, or the doubled sigil that is text itself. -/
def referenceInText (sigil : Sigil) (n : Nesting) (rest : List Glyph) :
    Plan :=
  if rest.head? = some (.scalar sigil.symbol) then
    { token := some (.literal .raw)
      text := String.singleton sigil.symbol
      more := 1
      nesting := n }
  else reference sigil n rest

end BuildLexer.Plan
