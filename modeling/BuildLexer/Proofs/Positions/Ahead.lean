/-
What is found ahead of a scanner.

Some faults are reported before the scanner has moved, at an offset
ahead of it. The line of such an offset is known only if it is the line
that the scanner stands on, so no newline may lie between. There is none
in a number, a date or a time, and nothing else is found ahead
(`foresees_next`).
-/
import BuildLexer.Plan.Step
import BuildLexer.Proofs.Literal.OneLine

namespace BuildLexer.Plan

open Glyph

variable {mode : Mode} {n : Nesting} {g : Glyph} {rest : List Glyph}

/-- What a plan finds before it reads is on the line it begins on. -/
def Foresees (p : Plan) (src : List Glyph) : Prop :=
  ∀ f ∈ p.early, OneLine f.offset src

/-- The faults of a number are ahead on the line, for a number is on one
line. -/
theorem foresees_number {start : Nat} {src : List Glyph}
    (h : OneLine start src) : (number n start src).Foresees src := by
  intro f hf
  have proper := Number.proper_read start (src.drop start)
  have inside := (proper.findings f (List.mem_append_left _ hf)).2
  refine (h.add (Number.oneLine_read start (src.drop start))).mono ?_
  omega

/-- So are those of a date or a time. -/
theorem foresees_digits {src : List Glyph} :
    (digits n src).Foresees src := by
  unfold digits
  split
  next temporal h =>
    intro f hf
    have inside := ((Temporal.proper_read? h).findings f hf).2
    exact (Temporal.oneLine_read? h).mono inside
  next => exact foresees_number .zero

/-- A plan that finds nothing early has nothing to foresee. -/
theorem foresees_of_nil {p : Plan} {src : List Glyph} (h : p.early = []) :
    p.Foresees src := by
  unfold Foresees
  rw [h]
  exact List.forall_mem_nil _

/-- A reference finds nothing ahead, in code or in a text. -/
theorem early_reference (sigil : Sigil) :
    (reference sigil n rest).early = [] := by
  unfold reference
  split <;> rfl

theorem early_referenceInText (sigil : Sigil) :
    (referenceInText sigil n rest).early = [] := by
  unfold referenceInText
  split
  · rfl
  · exact early_reference sigil

theorem early_inRecipe : (inRecipe n g rest).early = [] := by
  unfold inRecipe
  split
  · rfl
  split
  · unfold recipeEscape
    split <;> rfl
  split
  · exact early_referenceInText _
  split
  · exact early_referenceInText _
  · rfl

/-- A string that its line ends is found open at the line end. -/
theorem foresees_inString : (inString n g rest).Foresees (g :: rest) := by
  unfold inString
  dsimp only
  split
  · split
    · exact foresees_of_nil rfl
    split <;> exact foresees_of_nil rfl
  split
  · intro f hf
    obtain rfl := List.mem_singleton.1 hf
    exact .zero
  split
  · unfold stringEscape
    split <;> exact foresees_of_nil rfl
  split
  · exact foresees_of_nil (early_referenceInText _)
  split
  · exact foresees_of_nil (early_referenceInText _)
  · exact foresees_of_nil rfl

/-- A colon finds nothing at all. -/
theorem early_colon (next : List Char) : (colon n next).early = [] := by
  have rule : (ruleColon n next).early = [] := by
    unfold ruleColon
    split <;> rfl
  unfold colon
  split
  · split <;> rfl
  split
  · rfl
  · exact rule

theorem early_operator : (operator n g rest).early = [] := by
  unfold operator
  split <;> rfl

/-- Of the marks in code only a minus sign before a digit looks ahead. -/
theorem foresees_special :
    (special mode n g rest).Foresees (g :: rest) := by
  unfold special
  dsimp only
  split
  next => split <;> exact foresees_of_nil rfl
  next => exact foresees_of_nil rfl
  next => exact foresees_of_nil rfl
  next =>
    unfold lineEnd
    split <;> exact foresees_of_nil rfl
  next =>
    unfold hash
    split
    · exact foresees_of_nil rfl
    split <;> exact foresees_of_nil rfl
  next =>
    unfold backslash
    split <;> exact foresees_of_nil rfl
  next => exact foresees_of_nil rfl
  next =>
    unfold openString
    split <;> exact foresees_of_nil rfl
  next => exact foresees_of_nil (early_reference _)
  next => exact foresees_of_nil (early_reference _)
  next => exact foresees_of_nil (early_colon _)
  next =>
    unfold rightBracket
    split <;> exact foresees_of_nil rfl
  next => exact foresees_of_nil rfl
  next => exact foresees_of_nil rfl
  next => exact foresees_of_nil rfl
  next => exact foresees_of_nil rfl
  next minus =>
    split
    · have sign : g ≠ newline := by
        rintro rfl
        exact absurd minus (by decide)
      exact foresees_number (.cons sign .zero)
    · exact foresees_of_nil early_operator
  next => exact foresees_of_nil early_operator

/-- In code all that is found ahead is found in numbers, dates and
times. -/
theorem foresees_inCode : (inCode mode n g rest).Foresees (g :: rest) := by
  unfold inCode
  split
  · exact foresees_of_nil rfl
  split
  · exact foresees_digits
  · exact foresees_special

/-- What a step finds before it reads is on the line it begins on. -/
theorem foresees_next (mode : Mode) (n : Nesting) (src : List Glyph) :
    (next mode n src).Foresees src := by
  cases src with
  | nil => exact foresees_of_nil rfl
  | cons g rest =>
      show (atGlyph mode (n.settle (g :: rest)) g rest).Foresees _
      unfold atGlyph
      split
      · exact foresees_of_nil early_inRecipe
      split
      · exact foresees_inString
      · exact foresees_inCode

end BuildLexer.Plan
