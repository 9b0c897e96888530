/-
The plan for any place: at the end of the source, in a recipe line, in
a string, or in code.

The end closes everything that is open. Of the constructs it closes,
the strings are reported, innermost first; a call that is still open
there is not a fault.
-/
import BuildLexer.Plan.Code

namespace BuildLexer.Plan

/-- The plan at the end of the source. -/
def atEnd (n : Nesting) : Plan :=
  let (stack, left) := n.stack.unwind
  let strings := left.filter fun c => decide (Flag.quoted ∈ c)
  { token := some .endOfFile
    late := strings.map fun _ => ⟨0, .openString⟩
    nesting := { n with stack } }

/-- The plan at a glyph. -/
def atGlyph (mode : Mode) (n : Nesting) (g : Glyph) (rest : List Glyph) :
    Plan :=
  if n.has .recipeLine then inRecipe n g rest
  else if n.has .quoted then inString n g rest
  else inCode mode (n.atGlyph g) g rest

/-- The plan of the next step, given the constructs around the place and
the glyphs ahead. -/
def next (mode : Mode) (n : Nesting) (src : List Glyph) : Plan :=
  let n := n.settle src
  match src with
  | [] => atEnd n
  | g :: rest => atGlyph mode n g rest

end BuildLexer.Plan
