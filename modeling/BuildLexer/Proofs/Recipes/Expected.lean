/-
When recipes are expected.

Whether a rule has been begun is kept outside all constructs
(`Nesting.Expects`): entering a construct leaves it behind, and leaving
the last one finds it again. Two things change it, and both happen
outside all constructs only. A colon that ends the head of a rule sets
it, and so does the bracket and colon that lead out of the brackets of a
rule (`Plan.EndsHead`). A glyph at the start of a line takes it back,
unless it is a tab, a newline or a hash sign (`Nesting.expects_atGlyph`).

Every rule accounts for it in this way (`Plan.Accounts`): but for colons
and closing brackets, no rule makes one of these tokens, and none does
anything to the constructs but entering and leaving. With the glyph that
the step is made at, that tells what a step leaves
(`Plan.expects_plan_atGlyph`).
-/
import BuildLexer.Proofs.Nesting.Turns

namespace BuildLexer

open Plan

-- ============================================================ outermost

namespace ContextStack

/-- The context outside all constructs. -/
def outermost (s : ContextStack) : Context := s.saved.getLastD s.current

variable {s t : ContextStack} {f : Flag} {flags : Context}

/-- Entering something leaves what is outside all constructs as it is. -/
theorem outermost_push (s : ContextStack) (flags : Context) :
    (s.push flags).outermost = s.outermost := by
  unfold push outermost
  rw [List.getLastD_cons]

/-- Where nothing is saved, what is known here is known outside. -/
theorem outermost_of_saved (h : s.saved = []) : s.outermost = s.current := by
  unfold outermost
  rw [h]
  rfl

/-- What changes at the place only shows outside if it is outside. -/
theorem mem_outermost_congr (saved : t.saved = s.saved)
    (same : f ∈ t.current ↔ f ∈ s.current) :
    f ∈ t.outermost ↔ f ∈ s.outermost := by
  unfold outermost
  rw [saved]
  cases s.saved with
  | nil => exact same
  | cons => rw [List.getLastD_cons, List.getLastD_cons]

/-- Leaving a construct changes nothing outside but flags of constructs. -/
theorem mem_outermost_pop (plain : f ∉ Context.nested) :
    f ∈ (s.pop flags).outermost ↔ f ∈ s.outermost := by
  unfold pop pop?
  split
  next =>
    cases hs : s.saved with
    | nil =>
        refine mem_outermost_congr hs.symm ?_
        show f ∈ s.current \ Context.nested ↔ _
        rw [Context.mem_sdiff]
        exact ⟨fun h => h.1, fun h => ⟨h, plain⟩⟩
    | cons outer saved =>
        unfold outermost
        rw [hs, List.getLastD_cons]
        rfl
  next => exact Iff.rfl

/-- So does leaving all constructs. -/
theorem outermost_unwind (s : ContextStack) :
    s.unwind.1.outermost = s.outermost := by
  have unwinds (saved : List Context) : ∀ current,
      (unwindFrom current saved).1.outermost
        = ContextStack.outermost ⟨current, saved⟩ := by
    induction saved with
    | nil => exact fun _ => rfl
    | cons outer saved ih =>
        intro current
        unfold unwindFrom
        split
        next =>
          show (unwindFrom outer saved).1.outermost = _
          rw [ih]
          unfold outermost
          rw [List.getLastD_cons]
        next => rfl
  exact unwinds s.saved s.current

end ContextStack

-- ============================================================= expecting

namespace Nesting

/-- A rule has been begun, and tabs at the start of a line open recipes. -/
def Expects (n : Nesting) : Prop :=
  .recipesExpected ∈ n.stack.outermost

variable {inherited : Context} {kinds : List Flag} {n : Nesting}

/-- Whether recipes are expected is not changed by entering something. -/
theorem expects_enter (n : Nesting) (flags : Context) :
    (n.enter flags).Expects ↔ n.Expects := by
  unfold Expects enter
  rw [ContextStack.outermost_push]

/-- Nor by leaving it. -/
theorem expects_leave (n : Nesting) (flags : Context) :
    (n.leave flags).Expects ↔ n.Expects :=
  ContextStack.mem_outermost_pop (by decide)

/-- Nor by the end of a call by a bare name. -/
theorem expects_settle (n : Nesting) (src : List Glyph) :
    (n.settle src).Expects ↔ n.Expects := by
  unfold settle
  split
  next => exact n.expects_leave _
  next => exact Iff.rfl

/-- Nor by a token that has been read. -/
theorem expects_afterToken (n : Nesting) (endsLine : Bool) :
    (n.afterToken endsLine).Expects ↔ n.Expects := by
  refine ContextStack.mem_outermost_congr ?_
    (mem_afterToken (by decide) endsLine)
  unfold afterToken
  split <;> rfl

/-- One is inside something when something was saved outside. -/
theorem isInside_eq_false_iff (h : Layers inherited kinds n.stack) :
    n.isInside = false ↔ n.stack.depth = 0 := by
  rw [h.depth_eq, List.length_eq_zero_iff, ← Bool.not_eq_true,
    isInside_iff_of_layers h]
  exact Decidable.not_not

/-- A rule that ends outside all constructs is expected to have
recipes. -/
theorem expects_afterRule (h : Layers inherited kinds n.stack) :
    n.afterRule.Expects ↔ n.Expects ∨ n.isInside = false := by
  unfold afterRule
  split
  next inside =>
    rw [inside]
    exact (or_iff_left nofun).symm
  next outside =>
    have outside := Bool.eq_false_iff.2 outside
    refine iff_of_true ?_ (.inr outside)
    have saved : (n.insert .recipesExpected).stack.saved = [] :=
      List.length_eq_zero_iff.1 ((isInside_eq_false_iff h).1 outside)
    unfold Expects
    rw [ContextStack.outermost_of_saved saved]
    exact mem_insert.2 (.inr rfl)

/-- The end of a head is inside something exactly if the place is. -/
theorem isInside_afterRule (n : Nesting) :
    n.afterRule.isInside = n.isInside := by
  unfold afterRule
  split
  next => rfl
  next =>
    rw [Bool.eq_iff_iff]
    unfold isInside meets
    rw [Context.meets_iff, Context.meets_iff]
    refine exists_congr fun f => and_congr_left fun nested => ?_
    rw [mem_insert]
    refine or_iff_left ?_
    rintro rfl
    exact absurd nested (by decide)

/-- A line starts here, outside all constructs. -/
def StartsLine (n : Nesting) : Prop :=
  n.has .lineStart = true ∧ n.isInside = false

/-- What a line may start with when a recipe is to follow. -/
def lineKeepers : List Glyph := [.scalar '\t', .newline, .scalar '#']

/-- Recipes are no longer expected on a line that starts with anything
else. -/
theorem expects_atGlyph (h : Layers inherited kinds n.stack) (g : Glyph) :
    (n.atGlyph g).Expects
      ↔ n.Expects ∧ (n.StartsLine → g ∈ lineKeepers) := by
  unfold atGlyph
  split
  next clears =>
    simp only [Bool.and_eq_true, Bool.not_eq_true', Bool.or_eq_false_iff,
      beq_eq_false_iff_ne] at clears
    obtain ⟨⟨begun, outside⟩, ⟨tab, newline⟩, hash⟩ := clears
    have saved : (n.remove .recipesExpected).stack.saved = [] :=
      List.length_eq_zero_iff.1 ((isInside_eq_false_iff h).1 outside)
    refine iff_of_false ?_ fun keeps => ?_
    · unfold Expects
      rw [ContextStack.outermost_of_saved saved]
      exact fun expects => (mem_remove.1 expects).2 rfl
    · have keeper := keeps.2 ⟨begun, outside⟩
      simp [lineKeepers, tab, newline, hash] at keeper
  next keeps =>
    refine (and_iff_left fun starts => ?_).symm
    refine Decidable.byContradiction fun other => keeps ?_
    simp only [lineKeepers, List.mem_cons, List.not_mem_nil, or_false,
      not_or] at other
    simp [starts.1, starts.2, other]

/-- The glyph at the start of a line leaves no construct. -/
theorem isInside_atGlyph (n : Nesting) (g : Glyph) :
    (n.atGlyph g).isInside = n.isInside := by
  unfold atGlyph
  split
  next =>
    rw [Bool.eq_iff_iff]
    unfold isInside meets
    rw [Context.meets_iff, Context.meets_iff]
    refine exists_congr fun f => and_congr_left fun nested => ?_
    rw [mem_remove]
    refine and_iff_left ?_
    rintro rfl
    exact absurd nested (by decide)
  next => rfl

end Nesting

-- ================================================================ rules

/-- Whether a token can end the head of a rule. -/
def Token.endsHead : Token → Bool
  | rule .colon | rule .doubleColon | rule .bracketColon => true
  | _ => false

namespace Plan

/-- A plan that ends the head of a rule, from the constructs around the
place: a colon or two outside all of them, or a bracket and a colon that
lead outside. -/
def EndsHead (m : Nesting) (p : Plan) : Prop :=
  (p.token = some (.rule .colon) ∨ p.token = some (.rule .doubleColon))
      ∧ m.isInside = false
    ∨ p.token = some (.rule .bracketColon) ∧ p.nesting.isInside = false

/-- A plan behind which recipes are expected if they were before, or if
it ends the head of a rule. -/
def Accounts (m : Nesting) (p : Plan) : Prop :=
  p.nesting.Expects ↔ m.Expects ∨ p.EndsHead m

variable {inherited : Context} {kinds : List Flag} {mode : Mode}
  {n : Nesting} {g : Glyph} {rest : List Glyph}

/-- Only these tokens end a head. -/
theorem EndsHead.endsHead {m : Nesting} {p : Plan} (h : p.EndsHead m) :
    ∃ token ∈ p.token, token.endsHead = true := by
  rcases h with ⟨colon | double, -⟩ | ⟨bracket, -⟩
  · exact ⟨_, colon, rfl⟩
  · exact ⟨_, double, rfl⟩
  · exact ⟨_, bracket, rfl⟩

/-- A plan with another token ends no head. -/
theorem not_endsHead {p : Plan}
    (plain : ∀ token ∈ p.token, token.endsHead = false) :
    ¬ p.EndsHead n := by
  intro ends
  obtain ⟨token, made, head⟩ := ends.endsHead
  rw [plain token made] at head
  cases head

/-- A plan that does neither. -/
theorem accounts_of_plain {p : Plan}
    (plain : ∀ token ∈ p.token, token.endsHead = false)
    (same : p.nesting.Expects ↔ n.Expects) : p.Accounts n :=
  same.trans (or_iff_left (not_endsHead plain)).symm

/-- A plan with another token, which leaves recipes as they were
expected. -/
theorem accounts_of_token {p : Plan} {token : Token}
    (made : p.token = some token) (plain : token.endsHead = false)
    (same : p.nesting.Expects ↔ n.Expects) : p.Accounts n := by
  refine accounts_of_plain (fun other h => ?_) same
  rw [made] at h
  rwa [← Option.some.inj h]

/-- A mark that leaves the constructs as they are. -/
theorem accounts_stay {token : Token} {more : Nat}
    (plain : token.endsHead = false) : (mark token more n).Accounts n :=
  accounts_of_token rfl plain Iff.rfl

/-- A mark that leaves a construct. -/
theorem accounts_leave {token : Token} {more : Nat} (flags : Context)
    (plain : token.endsHead = false) :
    (mark token more (n.leave flags)).Accounts n :=
  accounts_of_token rfl plain (n.expects_leave flags)

/-- A mark that enters one. -/
theorem accounts_enter {token : Token} {more : Nat} (flags : Context)
    (plain : token.endsHead = false) :
    (mark token more (n.enter flags)).Accounts n :=
  accounts_of_token rfl plain (n.expects_enter flags)

-- ------------------------------------------------------------------ text

/-- A reference ends no head. -/
theorem accounts_reference (sigil : Sigil) :
    (reference sigil n rest).Accounts n := by
  unfold reference
  split
  next => exact accounts_stay rfl
  next => exact accounts_of_token rfl rfl (n.expects_enter _)

theorem accounts_referenceInText (sigil : Sigil) :
    (referenceInText sigil n rest).Accounts n := by
  unfold referenceInText
  split
  next => exact accounts_of_token rfl rfl Iff.rfl
  next => exact accounts_reference sigil

/-- Nor does anything in a recipe line. -/
theorem accounts_inRecipe : (inRecipe n g rest).Accounts n := by
  unfold inRecipe
  split
  next => exact accounts_leave _ rfl
  split
  next =>
    unfold recipeEscape
    split <;> exact accounts_of_token rfl rfl Iff.rfl
  split
  next => exact accounts_referenceInText _
  split
  next => exact accounts_referenceInText _
  next => exact accounts_of_token rfl rfl Iff.rfl

/-- Nor an escape in a string. -/
theorem accounts_stringEscape : (stringEscape n rest).Accounts n := by
  unfold stringEscape
  split
  next => exact accounts_of_token rfl rfl Iff.rfl
  next => exact accounts_of_plain nofun Iff.rfl
  next => exact accounts_of_token rfl rfl Iff.rfl

/-- Nor anything else in a string. -/
theorem accounts_inString : (inString n g rest).Accounts n := by
  unfold inString
  dsimp only
  split
  next =>
    split
    next => exact accounts_leave _ rfl
    split
    next => exact accounts_leave _ rfl
    next => exact accounts_of_token rfl rfl Iff.rfl
  split
  next => exact accounts_of_token rfl rfl (n.expects_leave _)
  split
  next => exact accounts_stringEscape
  split
  next => exact accounts_referenceInText _
  split
  next => exact accounts_referenceInText _
  next => exact accounts_of_token rfl rfl Iff.rfl

-- ------------------------------------------------------------------ code

/-- No word ends the head of a rule. -/
theorem endsHead_ofWord (text : String) :
    (Token.ofWord text).endsHead = false := by
  unfold Token.ofWord
  cases found : Token.words.find? (·.spelling == text) with
  | none => rfl
  | some word =>
      rcases List.mem_append.1 (List.mem_of_find?_eq_some found) with h | h
      · obtain ⟨k, -, rfl⟩ := List.mem_map.1 h
        rfl
      · obtain ⟨k, -, rfl⟩ := List.mem_map.1 h
        rfl

theorem accounts_name (src : List Glyph) : (name n src).Accounts n :=
  accounts_of_token rfl (endsHead_ofWord _) (n.expects_leave _)

theorem accounts_number (start : Nat) (src : List Glyph) :
    (number n start src).Accounts n :=
  accounts_of_token rfl rfl Iff.rfl

/-- Literals of digits end no head. -/
theorem accounts_digits (src : List Glyph) : (digits n src).Accounts n := by
  unfold digits
  split
  next => exact accounts_of_token rfl rfl Iff.rfl
  next => exact accounts_number 0 src

/-- Nor does a line end, though it may leave a call by colons. -/
theorem accounts_lineEnd : (lineEnd n).Accounts n := by
  unfold lineEnd
  split
  next => exact accounts_of_token rfl rfl (n.expects_leave _)
  next => exact accounts_stay rfl

theorem accounts_hash (src : List Glyph) :
    (Plan.hash mode n src).Accounts n := by
  unfold Plan.hash
  split
  next => exact accounts_stay rfl
  split
  next => exact accounts_of_token rfl rfl Iff.rfl
  next => exact accounts_of_plain nofun Iff.rfl

theorem accounts_backslash : (backslash n rest).Accounts n := by
  unfold backslash
  split
  next => exact accounts_of_plain nofun Iff.rfl
  next => exact accounts_stay rfl

/-- Nor do operators. -/
theorem accounts_operator : (operator n g rest).Accounts n := by
  unfold operator
  split
  next token more found =>
    refine accounts_stay ?_
    unfold operator? at found
    split at found <;> cases found <;> rfl
  next => exact accounts_of_token rfl rfl Iff.rfl

/-- A parenthesis only passes what a call awaits or enters a group. -/
theorem accounts_leftParen : (leftParen n).Accounts n := by
  unfold leftParen
  split
  next => exact accounts_of_token rfl rfl Iff.rfl
  next => exact accounts_enter _ rfl

/-- A brace does one of these or nothing. -/
theorem accounts_leftBrace : (leftBrace n).Accounts n := by
  unfold leftBrace
  split
  next => exact accounts_of_token rfl rfl Iff.rfl
  split
  next => exact accounts_enter _ rfl
  next => exact accounts_stay rfl

-- ------------------------------------------------------- heads of rules

/-- A colon inside something ends no head. -/
theorem accounts_colon_inside {more : Nat} {n' : Nesting}
    (inside : n.isInside = true) (same : n'.Expects ↔ n.Expects) :
    (mark (.rule .colon) more n').Accounts n := by
  refine same.trans (or_iff_left ?_).symm
  rintro (⟨-, outside⟩ | ⟨other, -⟩)
  · rw [inside] at outside
    cases outside
  · cases other

/-- Outside it does, and so do two. -/
theorem accounts_afterRule (h : Layers inherited kinds n.stack)
    {token : Token} {more : Nat}
    (colon : token = .rule .colon ∨ token = .rule .doubleColon) :
    (mark token more n.afterRule).Accounts n := by
  refine (Nesting.expects_afterRule h).trans (or_congr_right ?_)
  constructor
  · intro outside
    refine .inl ⟨?_, outside⟩
    rcases colon with rfl | rfl
    · exact .inl rfl
    · exact .inr rfl
  · rintro (⟨-, outside⟩ | ⟨other, -⟩)
    · exact outside
    · rcases colon with rfl | rfl <;> cases other

/-- A colon outside calls ends a head where it is outside everything. -/
theorem accounts_ruleColon (h : Layers inherited kinds n.stack)
    (next : List Char) : (ruleColon n next).Accounts n := by
  unfold ruleColon
  split
  next => exact accounts_stay rfl
  next => exact accounts_stay rfl
  next => exact accounts_afterRule h (.inr rfl)
  next => exact accounts_enter _ rfl
  next => exact accounts_enter _ rfl
  next => exact accounts_enter _ rfl
  next => exact accounts_afterRule h (.inl rfl)

/-- A colon inside a call ends none. -/
theorem accounts_colon (h : Layers inherited kinds n.stack)
    (next : List Char) : (colon n next).Accounts n := by
  unfold colon
  split
  next left =>
    have inside := Nesting.isInside_of_has (by decide) left
    split
    next => exact accounts_colon_inside inside Iff.rfl
    next =>
      refine accounts_colon_inside inside
        (ContextStack.mem_outermost_congr rfl ?_)
      simp [ContextStack.replace]
  split
  next right =>
    exact accounts_colon_inside (Nesting.isInside_of_has (by decide) right)
      (n.expects_leave _)
  next => exact accounts_ruleColon h next

/-- A bracket and a colon end the head if they lead outside. -/
theorem accounts_rightBracket (h : Layers inherited kinds n.stack)
    (next : List Char) : (rightBracket n next).Accounts n := by
  unfold rightBracket
  split
  next =>
    have left := Nesting.layers_leave h Context.colonCall (by decide)
    refine (Nesting.expects_afterRule left).trans
      (or_congr (n.expects_leave _) ?_)
    rw [← Nesting.isInside_afterRule]
    constructor
    · exact fun outside => .inr ⟨rfl, outside⟩
    · rintro (⟨other | other, -⟩ | ⟨-, outside⟩)
      · cases other
      · cases other
      · exact outside
  next => exact accounts_stay rfl

/-- Of the marks only colons and closing brackets end heads. -/
theorem accounts_special (h : Layers inherited kinds n.stack) :
    (special mode n g rest).Accounts n := by
  unfold special
  dsimp only
  split
  next =>
    split
    next => exact accounts_of_token rfl rfl (n.expects_enter _)
    next => exact accounts_of_token rfl rfl Iff.rfl
  next => exact accounts_of_token rfl rfl Iff.rfl
  next => exact accounts_of_token rfl rfl Iff.rfl
  next => exact accounts_lineEnd
  next => exact accounts_hash _
  next => exact accounts_backslash
  next => exact accounts_of_token rfl rfl Iff.rfl
  next =>
    unfold openString
    split <;> exact accounts_of_token rfl rfl (n.expects_enter _)
  next => exact accounts_reference _
  next => exact accounts_reference _
  next => exact accounts_colon h _
  next => exact accounts_rightBracket h _
  next => exact accounts_leftParen
  next => exact accounts_leave _ rfl
  next => exact accounts_leftBrace
  next => exact accounts_leave _ rfl
  next =>
    split
    next => exact accounts_number 1 _
    next => exact accounts_operator
  next => exact accounts_operator

/-- So in code heads end at these marks alone. -/
theorem accounts_inCode (h : Layers inherited kinds n.stack) :
    (inCode mode n g rest).Accounts n := by
  unfold inCode
  split
  next => exact accounts_name _
  split
  next => exact accounts_digits _
  next => exact accounts_special h

-- ----------------------------------------------------------------- steps

/-- Behind a step recipes are expected if it ended the head of a rule, or
if they were before and the line does not start with something else. -/
theorem expects_plan_atGlyph (h : Layers inherited kinds n.stack) :
    (Plan.atGlyph mode n g rest).nesting.Expects
      ↔ (Plan.atGlyph mode n g rest).EndsHead n
        ∨ n.Expects ∧ (n.StartsLine → g ∈ Nesting.lineKeepers) := by
  have accounts : (Plan.atGlyph mode n g rest).Accounts (n.atGlyph g) := by
    unfold Plan.atGlyph
    split
    next recipe =>
      rw [Nesting.atGlyph_of_has (by decide) recipe]
      exact accounts_inRecipe
    split
    next string =>
      rw [Nesting.atGlyph_of_has (by decide) string]
      exact accounts_inString
    next => exact accounts_inCode (Nesting.layers_atGlyph h g)
  have same : (Plan.atGlyph mode n g rest).EndsHead (n.atGlyph g)
      ↔ (Plan.atGlyph mode n g rest).EndsHead n := by
    unfold EndsHead
    rw [n.isInside_atGlyph]
  exact accounts.trans ((or_congr (Nesting.expects_atGlyph h g) same).trans
    or_comm)

end Plan

end BuildLexer
