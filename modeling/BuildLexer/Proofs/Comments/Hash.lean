/-
Where comments begin: at hash signs in code, unless hash signs are
tokens there, and nowhere else.

A hash sign in a recipe line or in a string is text. Anywhere else the
rule for hash signs decides what it is, and that rule is the only one
that asks for the mode, passes over a line or makes a comment. So where
no comment begins the plan is the same under every mode, and reads a
number of glyphs (`next_of_not_atComment`); where one begins it is read
up to the end of its line, and is a token or discarded as the mode says
(`next_of_atComment`).
-/
import BuildLexer.Proofs.Tiling.Rules

namespace BuildLexer

open Plan

/-- A comment begins: a hash sign is next, in code, and is no token. -/
structure Nesting.AtComment (n : Nesting) (src : List Glyph) : Prop where
  front : src.head? = some (.scalar '#')
  recipe : ¬ (n.settle src).has .recipeLine = true
  text : ¬ (n.settle src).has .quoted = true
  comments : ¬ (n.settle src).has .commentsOff = true

/-- A word is not a comment. -/
theorem Token.ofWord_ne_comment (text : String) :
    Token.ofWord text ≠ .comment := by
  unfold Token.ofWord
  cases found : Token.words.find? (·.spelling == text) with
  | none => exact nofun
  | some word =>
      have member := List.mem_of_find?_eq_some found
      rintro rfl
      exact absurd member (by decide)

namespace Plan

variable {mode : Mode} {n : Nesting} {g : Glyph} {rest : List Glyph}

/-- A plan that has nothing to do with comments: what it reads is
counted, and it makes some other token or none. -/
structure NoComment (p : Plan) : Prop where
  counted : p.skipsLine = false
  other : p.token ≠ some .comment

-- ============================================================ the rules

/-- A reference makes a reference, or text of a doubled sigil. -/
theorem noComment_reference (sigil : Sigil) :
    (reference sigil n rest).NoComment := by
  unfold reference
  split
  · exact ⟨rfl, nofun⟩
  · exact ⟨rfl, nofun⟩

theorem noComment_referenceInText (sigil : Sigil) :
    (referenceInText sigil n rest).NoComment := by
  unfold referenceInText
  split
  · exact ⟨rfl, nofun⟩
  · exact noComment_reference sigil

/-- In a recipe line there are no comments. -/
theorem noComment_inRecipe : (inRecipe n g rest).NoComment := by
  unfold inRecipe
  split
  · exact ⟨rfl, nofun⟩
  split
  · unfold recipeEscape
    split <;> exact ⟨rfl, nofun⟩
  split
  · exact noComment_referenceInText _
  split
  · exact noComment_referenceInText _
  · exact ⟨rfl, nofun⟩

/-- In a string there are none either. -/
theorem noComment_inString : (inString n g rest).NoComment := by
  unfold inString
  dsimp only
  split
  · split
    · exact ⟨rfl, nofun⟩
    split <;> exact ⟨rfl, nofun⟩
  split
  · exact ⟨rfl, nofun⟩
  split
  · unfold stringEscape
    split <;> exact ⟨rfl, nofun⟩
  split
  · exact noComment_referenceInText _
  split
  · exact noComment_referenceInText _
  · exact ⟨rfl, nofun⟩

/-- A name is no comment. -/
theorem noComment_name (src : List Glyph) : (name n src).NoComment := by
  refine ⟨rfl, fun h => ?_⟩
  have token : some (Token.ofWord (Glyph.lossyText
      (src.take (Name.tailLength (src.drop 1) + 1)))) = some .comment := h
  exact Token.ofWord_ne_comment _ (Option.some.inj token)

/-- Nor is a literal of digits. -/
theorem noComment_digits (src : List Glyph) :
    (digits n src).NoComment := by
  unfold digits
  split
  · exact ⟨rfl, nofun⟩
  · exact ⟨rfl, nofun⟩

/-- Nor is a colon. -/
theorem noComment_colon (next : List Char) :
    (colon n next).NoComment := by
  have rule : (ruleColon n next).NoComment := by
    unfold ruleColon
    split <;> exact ⟨rfl, nofun⟩
  unfold colon
  split
  · split <;> exact ⟨rfl, nofun⟩
  split
  · exact ⟨rfl, nofun⟩
  · exact rule

/-- Nor is an operator or an illegal glyph. -/
theorem noComment_operator : (operator n g rest).NoComment := by
  unfold operator
  split
  next token more h =>
    refine ⟨rfl, ?_⟩
    show some token ≠ some .comment
    unfold operator? at h
    split at h <;> cases h <;> exact nofun
  next => exact ⟨rfl, nofun⟩

/-- Only the rule for hash signs depends on the mode and has to do with
comments, and not even that one where hash signs are tokens. -/
theorem noComment_special
    (off : g = .scalar '#' → n.has .commentsOff = true) :
    (special mode n g rest).NoComment
      ∧ special mode n g rest = special {} n g rest := by
  unfold special
  dsimp only
  split
  · split <;> exact ⟨⟨rfl, nofun⟩, rfl⟩
  · exact ⟨⟨rfl, nofun⟩, rfl⟩
  · exact ⟨⟨rfl, nofun⟩, rfl⟩
  · refine ⟨?_, rfl⟩
    unfold lineEnd
    split <;> exact ⟨rfl, nofun⟩
  next h =>
    have sign := off (Glyph.eq_scalar_of_char h (by decide))
    unfold Plan.hash
    rw [if_pos sign, if_pos sign]
    exact ⟨⟨rfl, nofun⟩, rfl⟩
  · refine ⟨?_, rfl⟩
    unfold backslash
    split <;> exact ⟨rfl, nofun⟩
  · exact ⟨⟨rfl, nofun⟩, rfl⟩
  · refine ⟨?_, rfl⟩
    unfold openString
    split <;> exact ⟨rfl, nofun⟩
  · exact ⟨noComment_reference _, rfl⟩
  · exact ⟨noComment_reference _, rfl⟩
  · exact ⟨noComment_colon _, rfl⟩
  · refine ⟨?_, rfl⟩
    unfold rightBracket
    split <;> exact ⟨rfl, nofun⟩
  · exact ⟨⟨rfl, nofun⟩, rfl⟩
  · exact ⟨⟨rfl, nofun⟩, rfl⟩
  · exact ⟨⟨rfl, nofun⟩, rfl⟩
  · exact ⟨⟨rfl, nofun⟩, rfl⟩
  · refine ⟨?_, rfl⟩
    split
    · exact ⟨rfl, nofun⟩
    · exact noComment_operator
  · exact ⟨noComment_operator, rfl⟩

/-- In code a hash sign alone begins a comment, and the mode matters for
nothing else. -/
theorem noComment_inCode
    (off : g = .scalar '#' → n.has .commentsOff = true) :
    (inCode mode n g rest).NoComment
      ∧ inCode mode n g rest = inCode {} n g rest := by
  unfold inCode
  split
  · exact ⟨noComment_name _, rfl⟩
  split
  · exact ⟨noComment_digits _, rfl⟩
  · exact noComment_special off

-- ============================================================ the steps

/-- Hash signs are no concern of recipes that are expected. -/
theorem atGlyph_hash (n : Nesting) : n.atGlyph (.scalar '#') = n := by
  unfold Nesting.atGlyph
  rw [if_neg (by simp)]

/-- Where no comment begins, the plan is the same under every mode and
has nothing to do with comments. -/
theorem next_of_not_atComment {src : List Glyph} (h : ¬ n.AtComment src)
    (mode : Mode) :
    (next mode n src).NoComment ∧ next mode n src = next {} n src := by
  cases src with
  | nil =>
      refine ⟨⟨rfl, ?_⟩, rfl⟩
      show some Token.endOfFile ≠ some .comment
      exact nofun
  | cons g rest =>
      show (atGlyph mode (n.settle (g :: rest)) g rest).NoComment
        ∧ atGlyph mode (n.settle (g :: rest)) g rest
          = atGlyph {} (n.settle (g :: rest)) g rest
      unfold atGlyph
      split
      next => exact ⟨noComment_inRecipe, rfl⟩
      next recipe =>
        split
        next => exact ⟨noComment_inString, rfl⟩
        next text =>
          refine noComment_inCode ?_
          rintro rfl
          rw [atGlyph_hash]
          exact Decidable.not_not.1 fun comments =>
            h ⟨rfl, recipe, text, comments⟩

/-- The plan that makes a comment of the rest of the line. -/
def comment (n : Nesting) (src : List Glyph) : Plan where
  token := some .comment
  text := Glyph.lossyText (src.takeWhile (· != .newline))
  skipsLine := true
  nesting := n

/-- The plan that discards the rest of the line. -/
def discard (n : Nesting) : Plan := { skip 0 n with skipsLine := true }

/-- Where a comment begins, it is a token or discarded. -/
theorem next_of_atComment {src : List Glyph} (h : n.AtComment src)
    (mode : Mode) :
    next mode n src
      = if mode.commentTokens then comment (n.settle src) src
        else discard (n.settle src) := by
  obtain ⟨front, recipe, text, comments⟩ := h
  obtain ⟨rest, rfl⟩ := List.head?_eq_some_iff.1 front
  show atGlyph mode (n.settle (.scalar '#' :: rest)) (.scalar '#') rest = _
  rw [atGlyph_of_code recipe text, atGlyph_hash]
  show Plan.hash mode _ _ = _
  unfold Plan.hash
  rw [if_neg comments]
  rfl

end Plan

end BuildLexer
