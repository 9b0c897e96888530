/-
What a step may find wrong, and where: in what it reads.

The offset of a finding counts from where the step began. It is never
past what the step reads (`contained_next`), whatever is ahead, so a
report never lies behind the place that the scanner has come to. Most
findings are at the beginning of the step. Those that are not are about
separators and digits in a number, about fields of a date or a time,
and about an escape; a call by colons that is left open is found at the
beginning always, which tells its report from those of earlier steps.
None is about the encoding: what is wrong with a glyph wherever it
stands is for the one who looks at it, not for the plan. And none is
about words, though the rule for names has such a finding: what is
looked up is a reserved word or a bareword (`Token.expected_ofWord`).

All this is read off one list of what there is to find (`Found`), which
every rule keeps to (`finds_next`).
-/
import BuildLexer.Plan.Step
import BuildLexer.Proofs.Literal.Findings

namespace BuildLexer

/-- Findings at offsets up to a length, of open calls by colons at the
beginning only, and of the encoding nowhere. -/
def Within (length : Nat) (findings : List Finding) : Prop :=
  ∀ f ∈ findings,
    f.offset ≤ length ∧ (f.fault = .openColonCall → f.offset = 0)
      ∧ f.fault.topic ≠ .encoding

/-- What a step finds at a glyph: faults of a number, a date, a time or an
escape, which lie within a length, or one of a few others at the
beginning. Whether a raw string can be among these is said apart. -/
inductive Found (raw : Prop) (length : Nat) : Finding → Prop
  | literal {f : Finding}
      (topic : f.fault.topic ∈ [Topic.number, .temporal, .escape])
      (inside : f.offset ≤ length) : Found raw length f
  | illegalCharacter (c : Char) : Found raw length ⟨0, .illegalCharacter c⟩
  | openColonCall : Found raw length ⟨0, .openColonCall⟩
  | openString : Found raw length ⟨0, .openString⟩
  | openRawString (starts : raw) : Found raw length ⟨0, .openRawString⟩

namespace Found

variable {raw : Prop} {length : Nat} {f : Finding}

/-- What is found lies within the length, an open call at the beginning,
and none of it is about the encoding. -/
theorem within (h : Found raw length f) :
    f.offset ≤ length ∧ (f.fault = .openColonCall → f.offset = 0)
      ∧ f.fault.topic ≠ .encoding := by
  cases h with
  | literal topic inside =>
      refine ⟨inside, fun call => ?_, fun encoding => ?_⟩
      · rw [call] at topic
        exact absurd topic (by decide)
      · rw [encoding] at topic
        exact absurd topic (by decide)
  | illegalCharacter c => exact ⟨Nat.zero_le _, nofun, nofun⟩
  | openColonCall => exact ⟨Nat.zero_le _, fun _ => rfl, nofun⟩
  | openString => exact ⟨Nat.zero_le _, nofun, nofun⟩
  | openRawString _ => exact ⟨Nat.zero_le _, nofun, nofun⟩

/-- A raw string is found open only where one starts. -/
theorem starts_of_raw (h : Found raw length f)
    (found : f.fault = .openRawString) : raw := by
  cases h with
  | literal topic _ =>
      rw [found] at topic
      exact absurd topic (by decide)
  | openRawString starts => exact starts
  | _ => cases found

/-- None of it is about words. -/
theorem wordless (h : Found raw length f) : f.fault.topic ≠ .word := by
  cases h with
  | literal topic _ =>
      intro word
      rw [word] at topic
      exact absurd topic (by decide)
  | _ => exact nofun

end Found

-- =============================================================== words

/-- What is looked up is a reserved word or a bareword. -/
theorem Token.expected_ofWord (text : String) :
    ofWord text = .literal .bareword ∨ (ofWord text).isKeyword = true := by
  have reserved : ∀ word ∈ words, word.isKeyword = true := by decide
  unfold ofWord
  cases found : words.find? (·.spelling == text) with
  | none => exact .inl rfl
  | some word => exact .inr (reserved _ (List.mem_of_find?_eq_some found))

-- ============================================================== steps

namespace Plan

/-- What a plan finds is in what it reads. -/
def Contained (p : Plan) : Prop := Within (p.more + 1) (p.early ++ p.late)

/-- A plan that finds what steps find. -/
def Finds (raw : Prop) (p : Plan) : Prop :=
  ∀ f ∈ p.early ++ p.late, Found raw (p.more + 1) f

variable {mode : Mode} {n : Nesting} {g : Glyph} {rest src : List Glyph}
  {raw : Prop} {p : Plan}

/-- A plan without findings finds nothing else. -/
theorem Finds.nothing (none : p.early ++ p.late = []) : p.Finds raw := by
  unfold Finds
  rw [none]
  exact List.forall_mem_nil _

/-- A finding at the beginning. -/
theorem Finds.first {f : Finding} (alone : p.early ++ p.late = [f])
    (found : Found raw (p.more + 1) f) : p.Finds raw := by
  unfold Finds
  rw [alone]
  exact List.forall_mem_singleton.2 found

/-- The faults of a literal are what may be found in one. -/
theorem Finds.of_about {topic : Topic} {length : Nat}
    (about : About topic length (p.early ++ p.late))
    (literal : topic ∈ [Topic.number, .temporal, .escape])
    (inside : length ≤ p.more + 1) : p.Finds raw := by
  intro f hf
  obtain ⟨rfl, here⟩ := about f hf
  exact .literal literal (Nat.le_trans here inside)

/-- A reference is never at fault. -/
theorem finds_reference (sigil : Sigil) :
    (reference sigil n rest).Finds raw := by
  unfold reference
  split <;> exact .nothing rfl

theorem finds_referenceInText (sigil : Sigil) :
    (referenceInText sigil n rest).Finds raw := by
  unfold referenceInText
  split
  next => exact .nothing rfl
  next => exact finds_reference sigil

/-- In a recipe line only a backslash at the end is at fault. -/
theorem finds_inRecipe : (inRecipe n g rest).Finds raw := by
  unfold inRecipe
  split
  next => exact .nothing rfl
  split
  next =>
    unfold recipeEscape
    split
    next => exact .first rfl (.literal (by decide) (Nat.zero_le _))
    next => exact .nothing rfl
  split
  next => exact finds_referenceInText _
  split
  next => exact finds_referenceInText _
  next => exact .nothing rfl

/-- The fault of an escape is behind the backslash that the step begins
at. -/
theorem finds_stringEscape : (stringEscape n rest).Finds raw := by
  unfold stringEscape
  split
  next => exact .nothing rfl
  next => exact .nothing rfl
  next length finding h =>
    exact .of_about ((Escape.about_read h).shift 1) (by decide)
      (Nat.le_of_eq (Nat.add_comm 1 length))

/-- In a string an escape can be at fault, and the string itself at a line
end. -/
theorem finds_inString : (inString n g rest).Finds raw := by
  unfold inString
  dsimp only
  split
  next =>
    split
    next => exact .nothing rfl
    split <;> exact .nothing rfl
  split
  next => exact .first rfl .openString
  split
  next => exact finds_stringEscape
  split
  next => exact finds_referenceInText _
  split
  next => exact finds_referenceInText _
  next => exact .nothing rfl

/-- What the rule for names guards against does not happen. -/
theorem finds_name (src : List Glyph) : (name n src).Finds raw := by
  unfold name Finds
  dsimp only
  split
  next => exact List.forall_mem_nil _
  next unexpected =>
    rw [Bool.or_eq_true, decide_eq_true_iff] at unexpected
    exact absurd (Token.expected_ofWord _) unexpected

/-- In a number it is what is wrong with the number. -/
theorem finds_number (start : Nat) (src : List Glyph) :
    (number n start src).Finds raw := by
  have proper := Number.proper_read start (src.drop start)
  refine .of_about proper.findings (by decide) ?_
  show _ ≤ _ - 1 + 1
  omega

theorem finds_digits (src : List Glyph) : (digits n src).Finds raw := by
  unfold digits
  split
  next temporal h =>
    have proper := Temporal.proper_read? h
    refine .of_about (proper.findings.append About.nil) (by decide) ?_
    show _ ≤ _ - 1 + 1
    omega
  next => exact finds_number 0 src

/-- A glyph without a rule is illegal. -/
theorem finds_operator : (operator n g rest).Finds raw := by
  unfold operator
  split
  next => exact .nothing rfl
  next =>
    unfold illegal illegalFindings Finds
    dsimp only
    split
    next => exact List.forall_mem_nil _
    next => exact List.forall_mem_singleton.2 (.illegalCharacter _)

/-- A colon is never at fault. -/
theorem finds_colon (next : List Char) : (colon n next).Finds raw := by
  have rule : (ruleColon n next).Finds raw := by
    unfold ruleColon
    split <;> exact .nothing rfl
  unfold colon
  split
  next => split <;> exact .nothing rfl
  split
  next => exact .nothing rfl
  next => exact rule

/-- A line end can leave a call by colons open. -/
theorem finds_lineEnd : (lineEnd n).Finds raw := by
  unfold lineEnd
  split
  next => exact .first rfl .openColonCall
  next => exact .nothing rfl

/-- A raw string may be left open, if it is one. -/
theorem finds_rawString (src : List Glyph) :
    (rawString n src).Finds True := by
  unfold rawString Finds
  dsimp only
  split
  next => exact List.forall_mem_nil _
  next => exact List.forall_mem_singleton.2 (.openRawString trivial)

/-- At a mark it is what the rule for the mark finds. -/
theorem finds_special (quoted : g.char = '\x27' → raw) :
    (special mode n g rest).Finds raw := by
  unfold special
  dsimp only
  split
  next => split <;> exact .nothing rfl
  next => exact .nothing rfl
  next => exact .nothing rfl
  next => exact finds_lineEnd
  next =>
    unfold Plan.hash
    split
    next => exact .nothing rfl
    split <;> exact .nothing rfl
  next =>
    unfold backslash
    split <;> exact .nothing rfl
  next quote =>
    rw [eq_true (quoted quote)]
    exact finds_rawString _
  next =>
    unfold openString
    split <;> exact .nothing rfl
  next => exact finds_reference _
  next => exact finds_reference _
  next => exact finds_colon _
  next =>
    unfold rightBracket
    split <;> exact .nothing rfl
  next => exact .nothing rfl
  next => exact .nothing rfl
  next => exact .nothing rfl
  next => exact .nothing rfl
  next =>
    split
    next => exact finds_number 1 _
    next => exact finds_operator
  next => exact finds_operator

/-- In code it is what the rule for the glyph finds. -/
theorem finds_inCode (quoted : g.char = '\x27' → raw) :
    (inCode mode n g rest).Finds raw := by
  unfold inCode
  split
  next => exact finds_name _
  split
  next => exact finds_digits _
  next => exact finds_special quoted

/-- What a step finds. A raw string is found open only in code, and only
at a quote. -/
theorem finds_next (mode : Mode) (n : Nesting) (src : List Glyph) :
    (next mode n src).Finds
      ((n.settle src).has .recipeLine = false
        ∧ (n.settle src).has .quoted = false
        ∧ src.head?.map Glyph.char = some '\x27') := by
  cases src with
  | nil =>
      intro f hf
      obtain ⟨c, -, rfl⟩ := List.mem_map.1 hf
      exact .openString
  | cons g rest =>
      show (atGlyph mode (n.settle (g :: rest)) g rest).Finds _
      unfold atGlyph
      split
      next => exact finds_inRecipe
      next noRecipe =>
        split
        next => exact finds_inString
        next noString =>
          refine finds_inCode fun quote => ?_
          exact ⟨Bool.eq_false_iff.2 noRecipe, Bool.eq_false_iff.2 noString,
            congrArg some quote⟩

/-- What a step finds is in what it reads. -/
theorem contained_next (mode : Mode) (n : Nesting) (src : List Glyph) :
    (next mode n src).Contained :=
  fun f hf => (finds_next mode n src f hf).within

end Plan

end BuildLexer
