/-
Which tokens open and close what colons open.

Calls by colons and the brackets of a rule share their flags, so what a
level is of cannot be told from the flags, but from the token that opened
it. A level of that kind is entered by one of the three openings of a
rule's brackets or by a sigil before a colon, and a bracket with a colon
behind it leaves one (`Colons`). A sigil that has no
suffix enters a call by what follows it, wherever it stands.

This goes over the rules once. What they do to the constructs otherwise
is told by `Turns`, and both are said of the same place
(`name_or_colons_next`).
-/
import BuildLexer.Proofs.Nesting.Turns
import BuildLexer.Proofs.Scanner.Findings

namespace BuildLexer

open Plan

/-- Whether the token opens the brackets of a rule. -/
def Token.opensBrackets : Token → Bool
  | rule .colonBracket | rule .colonBangBracket
  | rule .colonQuestionBracket => true
  | _ => false

/-- Whether the token is a sigil without a suffix. -/
def Token.isSigil : Token → Bool
  | reference _ none => true
  | _ => false

/-- Whether the token enters or leaves what colons open. -/
def Token.movesColons (t : Token) : Bool :=
  t.isSigil || t.opensBrackets || t == .rule .bracketColon

namespace ContextStack

/-- Leaving leaves no more open than was. -/
theorem depth_pop_le (s : ContextStack) (flags : Context) :
    (s.pop flags).depth ≤ s.depth := by
  unfold pop pop?
  split
  · cases hs : s.saved with
    | nil => exact Nat.zero_le _
    | cons outer saved =>
        unfold depth
        rw [hs]
        exact Nat.le_succ _
  · exact Nat.le_refl _

end ContextStack

namespace Nesting

/-- To leave something leads no deeper. -/
theorem depth_leave_le (n : Nesting) (flags : Context) :
    (n.leave flags).stack.depth ≤ n.stack.depth :=
  n.stack.depth_pop_le flags

/-- That recipes are expected is not a level of its own. -/
theorem depth_afterRule (n : Nesting) :
    n.afterRule.stack.depth = n.stack.depth := by
  unfold afterRule
  split <;> rfl

/-- No other construct is taken for one of those. -/
theorem not_has_enter (n : Nesting) {flags : Context}
    (other : .colonCallLeft ∉ flags) :
    (n.enter flags).has .colonCallLeft = false := by
  rw [Bool.eq_false_iff, Ne, has_iff]
  intro held
  rcases Context.mem_union.1 held with held | held
  · exact absurd (Context.mem_inter.1 held).2 (by decide)
  · exact other held

end Nesting

namespace Plan

/-- What a plan does about the constructs that colons open. -/
structure Colons (n : Nesting) (rest : List Glyph) (p : Plan) : Prop where
  sigil : ∀ sigil, p.token = some (.reference sigil none) →
    p = call sigil n rest.head?
  closes : p.token = some (.rule .bracketColon) →
    n.meets Context.colonCall = true
      ∧ p.nesting = (n.leave Context.colonCall).afterRule
  opens : n.stack.depth < p.nesting.stack.depth →
    p.nesting.has .colonCallLeft = true →
    ∃ token, p.token = some token
      ∧ (token.opensBrackets = true ∨ token.isSigil = true)

variable {mode : Mode} {n : Nesting} {g : Glyph} {rest : List Glyph}
  {p : Plan}

/-- Plans that make another token. -/
theorem Colons.of_plain (plain : ∀ t ∈ p.token, t.movesColons = false)
    (other : n.stack.depth < p.nesting.stack.depth →
      p.nesting.has .colonCallLeft = false) : p.Colons n rest where
  sigil := by
    intro sigil made
    cases plain _ made
  closes := by
    intro made
    cases plain _ made
  opens := by
    intro deeper held
    rw [other deeper] at held
    cases held

/-- Those that also stay where they are. -/
theorem Colons.of_stay (plain : ∀ t ∈ p.token, t.movesColons = false)
    (level : p.nesting.stack.depth ≤ n.stack.depth) : p.Colons n rest :=
  .of_plain plain fun deeper => absurd deeper (Nat.not_lt.2 level)

/-- A mark that leads no deeper, by a token that has to do with no call. -/
theorem colons_mark {token : Token} {more : Nat} {n' : Nesting}
    (plain : token.movesColons = false)
    (level : n'.stack.depth ≤ n.stack.depth) :
    (mark token more n').Colons n rest :=
  .of_stay (fun _ made => Option.some.inj made ▸ plain) level

-- ------------------------------------------------------------------ text

/-- A reference enters a call, or is complete by its suffix. -/
theorem colons_reference (sigil : Sigil) :
    (reference sigil n rest).Colons n rest := by
  unfold reference
  split
  · exact colons_mark rfl (Nat.le_refl _)
  · refine ⟨fun _ made => ?_, nofun, fun _ _ => ⟨_, rfl, .inr rfl⟩⟩
    cases made
    rfl

theorem colons_referenceInText (sigil : Sigil) :
    (referenceInText sigil n rest).Colons n rest := by
  unfold referenceInText
  split
  · exact .of_stay (by rintro _ ⟨⟩; rfl) (Nat.le_refl _)
  · exact colons_reference sigil

/-- A literal is no token of this kind, whatever it leaves. -/
theorem colons_literal {kind : Literal} {p : Plan}
    (made : p.token = some (.literal kind))
    (level : p.nesting.stack.depth ≤ n.stack.depth) :
    p.Colons n rest := by
  refine .of_stay (fun token he => ?_) level
  obtain rfl := Option.some.inj (made.symm.trans he)
  rfl

/-- In a recipe line only references enter anything. -/
theorem colons_inRecipe : (inRecipe n g rest).Colons n rest := by
  unfold inRecipe
  split
  · exact colons_mark rfl (n.depth_leave_le _)
  split
  · unfold recipeEscape
    split
    · exact .of_stay (by rintro _ ⟨⟩; rfl) (Nat.le_refl _)
    · exact colons_literal rfl (Nat.le_refl _)
  split
  · exact colons_referenceInText _
  split
  · exact colons_referenceInText _
  · exact colons_literal rfl (Nat.le_refl _)

/-- In a string too. -/
theorem colons_inString : (inString n g rest).Colons n rest := by
  unfold inString
  dsimp only
  split
  · split
    · exact colons_mark rfl (n.depth_leave_le _)
    split
    · exact colons_mark rfl (n.depth_leave_le _)
    · exact colons_literal rfl (Nat.le_refl _)
  split
  · exact .of_stay (by rintro _ ⟨⟩; rfl) (n.depth_leave_le _)
  split
  · unfold stringEscape
    split
    · exact colons_literal rfl (Nat.le_refl _)
    · exact .of_stay nofun (Nat.le_refl _)
    · exact .of_stay (by rintro _ ⟨⟩; rfl) (Nat.le_refl _)
  split
  · exact colons_referenceInText _
  split
  · exact colons_referenceInText _
  · exact colons_literal rfl (Nat.le_refl _)

-- ------------------------------------------------------------------ code

/-- A word is none of these tokens. -/
theorem plain_name {src : List Glyph} {token : Token}
    (made : (name n src).token = some token) :
    token.movesColons = false := by
  obtain rfl := Option.some.inj made
  rcases Token.expected_ofWord (Glyph.lossyText
    (src.take (Name.tailLength (src.drop 1) + 1))) with word | reserved
  · rw [word]
    rfl
  · generalize Token.ofWord _ = token at reserved
    cases token <;> first | rfl | cases reserved

theorem colons_digits (src : List Glyph) :
    (digits n src).Colons n rest := by
  unfold digits
  split
  · exact colons_literal rfl (Nat.le_refl _)
  · exact colons_literal rfl (Nat.le_refl _)

/-- An opening quote enters a string, which is no call by colons. -/
theorem colons_openString (src : List Glyph) :
    (openString n src).Colons n rest := by
  have plain : ∀ t ∈ some (Token.literal .compound),
      t.movesColons = false := by
    rintro _ ⟨⟩
    rfl
  unfold openString
  split
  · exact .of_plain plain fun _ => n.not_has_enter (by decide)
  · exact .of_plain plain fun _ => n.not_has_enter (by decide)

/-- Operators are none of these tokens. -/
theorem colons_operator : (operator n g rest).Colons n rest := by
  have plain {chars : List Char} {token : Token} {more : Nat}
      (h : operator? chars = some (token, more)) :
      token.movesColons = false := by
    unfold operator? at h
    split at h <;> cases h <;> rfl
  unfold operator
  split
  next h => exact colons_mark (plain h) (Nat.le_refl _)
  next => exact .of_stay (by rintro _ ⟨⟩; rfl) (Nat.le_refl _)

/-- A colon enters a call by colons only with a bracket behind it. -/
theorem colons_colon (next : List Char) :
    (colon n next).Colons n rest := by
  have opening {delimiter : RuleDelim} {more : Nat}
      (opens : (Token.rule delimiter).opensBrackets = true) :
      (mark (.rule delimiter) more (n.enter {.colonCallLeft})).Colons n
        rest := by
    refine ⟨nofun, fun made => ?_, fun _ _ => ⟨_, rfl, .inl opens⟩⟩
    cases made
    cases opens
  unfold colon
  split
  · split
    · exact colons_mark rfl (Nat.le_refl _)
    · exact colons_mark rfl (Nat.le_refl _)
  split
  · exact colons_mark rfl (n.depth_leave_le _)
  unfold ruleColon
  split
  · exact colons_mark rfl (Nat.le_refl _)
  · exact colons_mark rfl (Nat.le_refl _)
  · exact colons_mark rfl (Nat.le_of_eq n.depth_afterRule)
  · exact opening rfl
  · exact opening rfl
  · exact opening rfl
  · exact colons_mark rfl (Nat.le_of_eq n.depth_afterRule)

/-- A bracket and a colon leave a call by colons, and no other bracket
does. -/
theorem colons_rightBracket (next : List Char) :
    (rightBracket n next).Colons n rest := by
  unfold rightBracket
  split
  next closes =>
    rw [Bool.and_eq_true] at closes
    refine ⟨nofun, fun _ => ⟨closes.2, rfl⟩, fun deeper => ?_⟩
    have level := n.depth_leave_le Context.colonCall
    rw [← Nesting.depth_afterRule] at level
    exact absurd deeper (Nat.not_lt.2 level)
  · exact colons_mark rfl (Nat.le_refl _)

/-- Parentheses and braces pass an opening mark or open a group. -/
theorem colons_opening {token : Token} {n' : Nesting}
    (plain : token.movesColons = false)
    (group : n'.stack = n.stack ∨ n' = n.enter {.group}) :
    (mark token 0 n').Colons n rest := by
  rcases group with same | rfl
  · exact colons_mark plain (Nat.le_of_eq (congrArg _ same))
  · exact .of_plain (fun _ made => Option.some.inj made ▸ plain)
      fun _ => n.not_has_enter (by decide)

/-- At a mark the rule for the mark decides. -/
theorem colons_special : (special mode n g rest).Colons n rest := by
  unfold special
  dsimp only
  split
  · split
    · refine .of_plain (by rintro _ ⟨⟩; rfl) fun _ => ?_
      exact n.not_has_enter (by decide)
    · exact .of_stay (by rintro _ ⟨⟩; rfl) (Nat.le_refl _)
  · exact .of_stay (by rintro _ ⟨⟩; rfl) (Nat.le_refl _)
  · exact .of_stay (by rintro _ ⟨⟩; rfl) (Nat.le_refl _)
  · unfold lineEnd
    split
    · exact .of_stay (by rintro _ ⟨⟩; rfl) (n.depth_leave_le _)
    · exact colons_mark rfl (Nat.le_refl _)
  · unfold Plan.hash
    split
    · exact colons_mark rfl (Nat.le_refl _)
    split
    · exact .of_stay (by rintro _ ⟨⟩; rfl) (Nat.le_refl _)
    · exact .of_stay nofun (Nat.le_refl _)
  · unfold backslash
    split
    · exact .of_stay nofun (Nat.le_refl _)
    · exact colons_mark rfl (Nat.le_refl _)
  · exact colons_literal rfl (Nat.le_refl _)
  · exact colons_openString _
  · exact colons_reference _
  · exact colons_reference _
  · exact colons_colon _
  · exact colons_rightBracket _
  · refine colons_opening rfl ?_
    split
    · exact .inl rfl
    · exact .inr rfl
  · exact colons_mark rfl (n.depth_leave_le _)
  · refine colons_opening rfl ?_
    split
    · exact .inl rfl
    split
    · exact .inr rfl
    · exact .inl rfl
  · exact colons_mark rfl (n.depth_leave_le _)
  · split
    · exact colons_literal rfl (Nat.le_refl _)
    · exact colons_operator
  · exact colons_operator

-- ----------------------------------------------------------------- steps

theorem colons_atGlyph :
    (Plan.atGlyph mode n g rest).Colons (n.atGlyph g) rest := by
  unfold Plan.atGlyph
  split
  next h =>
    rw [Nesting.atGlyph_of_has (by decide) h]
    exact colons_inRecipe
  split
  next h =>
    rw [Nesting.atGlyph_of_has (by decide) h]
    exact colons_inString
  unfold inCode
  split
  · exact .of_stay (fun _ => plain_name) (Nesting.depth_leave_le _ _)
  split
  · exact colons_digits _
  · exact colons_special

/-- A plan at a glyph is that of the name of a call, or it makes a turn
and keeps to this, both from the same constructs, of which none is a call
by a bare name. -/
theorem name_or_colons_next (mode : Mode) (g : Glyph) (rest : List Glyph)
    {inherited : Context} {kinds : List Flag}
    (hl : Layers inherited kinds n.stack) :
    (g.isLetter = true ∧ next mode n (g :: rest) = name n (g :: rest))
      ∨ ¬ (n.settle (g :: rest)).has .nameCall = true
        ∧ (next mode n (g :: rest)).Turns
          ((n.settle (g :: rest)).atGlyph g) g
        ∧ (next mode n (g :: rest)).Colons
          ((n.settle (g :: rest)).atGlyph g) rest := by
  by_cases named : g.isLetter = true ∧ n.has .nameCall = true
  · exact .inl ⟨named.1, next_of_name hl named.2 named.1⟩
  · refine .inr ⟨?_, turns_atGlyph, colons_atGlyph⟩
    by_cases letter : g.isLetter = true
    · rw [Nesting.settle_of_letter letter]
      exact fun held => named ⟨letter, held⟩
    · have left := Nesting.layers_leave hl {.nameCall} (by decide)
      rw [Nesting.settle_of_not_letter (Bool.eq_false_iff.2 letter),
        Nesting.has_iff_of_layers left (by decide)]
      exact hl.head_dropKind fun _ => by decide

end Plan

end BuildLexer
