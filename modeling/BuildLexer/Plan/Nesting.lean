/-
The constructs around the place where the scanner stands.

Besides the stack of contexts, one thing has to be remembered from a
reference to the mark behind it: `$(` opens a call, and the parenthesis
is then not the start of a group. A call by a bare name needs no such
memory, for it is over as soon as no name follows the sigil or the name
has been read.
-/
import BuildLexer.Context.Stack
import BuildLexer.Text.Letter

namespace BuildLexer

/-- The constructs around a place. -/
structure Nesting where
  stack : ContextStack
  /-- The mark that opens the arguments of the call just entered is
  next. -/
  openerNext : Bool := false
  deriving DecidableEq

namespace Nesting

/-- Whether a flag holds at the place. -/
def has (n : Nesting) (f : Flag) : Bool := decide (f ∈ n.stack.current)

/-- Whether one of some flags holds at the place. -/
def meets (n : Nesting) (flags : Context) : Bool :=
  n.stack.current.meets flags

/-- Whether the place is inside any construct. -/
def isInside (n : Nesting) : Bool := n.meets Context.nested

/-- Enters a construct. -/
def enter (n : Nesting) (flags : Context) : Nesting :=
  { n with stack := n.stack.push flags }

/-- Leaves a construct, if the place is in one of the kind. -/
def leave (n : Nesting) (flags : Context) : Nesting :=
  { n with stack := n.stack.pop flags }

/-- Adds a fact about the place. -/
def insert (n : Nesting) (f : Flag) : Nesting :=
  { n with stack := n.stack.insert {f} }

/-- Takes a fact back. -/
def remove (n : Nesting) (f : Flag) : Nesting :=
  { n with stack := n.stack.remove {f} }

/-- Passes the mark that opens the arguments of a call. -/
def passOpener (n : Nesting) : Nesting := { n with openerNext := false }

/-- Ends a call by a bare name when no name follows. -/
def settle (n : Nesting) (src : List Glyph) : Nesting :=
  if n.has .nameCall && !src.head?.any Glyph.isLetter then
    n.leave {.nameCall}
  else n

-- ============================================================ recipes

/-- A rule ends here: tabs on the lines after it open recipes, unless
the rule is inside something. -/
def afterRule (n : Nesting) : Nesting :=
  if n.isInside then n else n.insert .recipesExpected

/-- Whether a tab here opens a recipe. -/
def opensRecipe (n : Nesting) : Bool :=
  n.has .lineStart && !n.isInside
    && n.meets {.recipesAllowed, .recipesExpected}

/-- Recipes are no longer expected when a line starts with anything but
a tab, a line end or a comment. -/
def atGlyph (n : Nesting) (g : Glyph) : Nesting :=
  if n.has .lineStart && !n.isInside
      && !(g == .scalar '\t' || g == .newline || g == .scalar '#') then
    n.remove .recipesExpected
  else n

/-- What is known about the next place once a token has been read. -/
def afterToken (n : Nesting) (endsLine : Bool) : Nesting :=
  if endsLine then n.insert .lineStart else n.remove .lineStart

/-- Lets tabs open recipes on all lines, or no longer. -/
def setRecipes (n : Nesting) (on : Bool) : Nesting :=
  { n with stack := n.stack.setInherited {.recipesAllowed} on }

end Nesting

end BuildLexer
