/-
What a line end does to the constructs around it.

Recipe lines, calls by colons and strings in one pair of quotes are not
meant to go on behind their line. A line end ends one construct: the
innermost, when it is one of these (`endsLine_next`). So the place
behind it is out of them unless two stood directly in each other, and
then it is not: the outer one goes on. A call by colons in a recipe line
is the shortest case.

A call of `scan` may skip joined lines and comments before the line end;
that changes nothing but what is known of the line, once a call by a
bare name has been given up (`sameConstructs_of_skip`). Where the line
end is read is not asked of the rules again: a plan that makes this
token reads a newline, because plans are faithful.
-/
import BuildLexer.Proofs.Tiling.Rules

namespace BuildLexer

open Plan

-- =========================================================== the contexts

/-- A context of a construct that is to end with its line. -/
def Context.EndsWithLine (c : Context) : Prop :=
  .recipeLine ∈ c ∨ .colonCallLeft ∈ c ∨ .colonCallRight ∈ c
    ∨ (.quoted ∈ c ∧ .tripleQuoted ∉ c)

instance (c : Context) : Decidable c.EndsWithLine :=
  inferInstanceAs (Decidable (_ ∨ _ ∨ _ ∨ (_ ∧ _)))

/-- Facts about lines do not matter for it. -/
theorem Context.endsWithLine_congr {a b : Context}
    (h : ∀ f ∈ Context.nested, f ∈ a ↔ f ∈ b) :
    a.EndsWithLine ↔ b.EndsWithLine := by
  unfold EndsWithLine
  rw [h .recipeLine (by decide), h .colonCallLeft (by decide),
    h .colonCallRight (by decide), h .quoted (by decide),
    h .tripleQuoted (by decide)]

/-- The stack of a scanner as a line end meets it: a call by a bare name
is over there, since no name follows. -/
def Scanner.stackAtLineEnd (s : Scanner) : ContextStack :=
  (s.nesting.leave {.nameCall}).stack

variable {inherited : Context} {kinds : List Flag} {n : Nesting}
  {mode : Mode} {rest : List Glyph}

/-- Before anything but a letter a call by a bare name is left. -/
theorem next_of_not_letter {g : Glyph} (h : g.isLetter = false) :
    next mode n (g :: rest)
      = Plan.atGlyph mode (n.leave {.nameCall}) g rest := by
  unfold next
  rw [Nesting.settle_of_not_letter h]

-- ========================================================= the line end

/-- What a line end leaves of a stack: the innermost construct is gone,
if it is to end with its line. -/
def EndsLine (before after : ContextStack) : Prop :=
  if before.current.EndsWithLine then
    before.outer? = some after.current
  else after.current = before.current

/-- Leaving the constructs that end with the line is one such step, where
the innermost is one of those left. -/
theorem EndsLine.pop {s : ContextStack} {flags : Context}
    (hl : Layers inherited kinds s) (hm : s.current.meets flags = true)
    (hf : flags ⊆ Context.kinds) (he : s.current.EndsWithLine) :
    EndsLine s (s.pop flags) := by
  unfold EndsLine
  rw [if_pos he]
  cases kinds with
  | nil =>
      obtain ⟨f, hc, hk⟩ := Context.meets_iff.1 hm
      have nested := Context.mem_nested.2
        (Or.inl (Context.subset_iff.1 hf f hk))
      exact absurd hc (hl.not_mem_nested nested)
  | cons kind kinds =>
      cases hl with
      | above _ _ _ _ _ =>
          unfold ContextStack.pop ContextStack.pop?
          rw [if_pos hm]
          rfl

/-- After such a step a construct that ends with the line is on top exactly
if one was before, and one is around that. -/
theorem EndsLine.endsWithLine_iff {before after : ContextStack}
    (h : EndsLine before after) :
    after.current.EndsWithLine
      ↔ before.current.EndsWithLine
        ∧ ∃ outer, before.outer? = some outer ∧ outer.EndsWithLine := by
  unfold EndsLine at h
  by_cases he : before.current.EndsWithLine
  · rw [if_pos he] at h
    rw [h]
    constructor
    · intro ha
      exact ⟨he, _, rfl, ha⟩
    · intro ho
      obtain ⟨-, outer, ho, hw⟩ := ho
      rw [Option.some.inj ho]
      exact hw
  · rw [if_neg he] at h
    rw [h]
    exact ⟨fun hc => absurd hc he, fun hc => absurd hc.1 he⟩

/-- In a string of three quotes a newline is text. -/
theorem inString_newline (ht : n.has .tripleQuoted = true) :
    (inString n .newline rest).token = some (.literal .raw) := by
  unfold inString
  dsimp only
  rw [if_neg (by decide), if_neg (by simp [ht]), if_neg (by decide),
    if_neg (by decide), if_neg (by decide)]
  rfl

/-- In any other it is the end of the string. -/
theorem inString_lineEnd (ht : ¬ n.has .tripleQuoted = true) :
    (inString n .newline rest).nesting = n.leave {.quoted} := by
  unfold inString
  dsimp only
  rw [if_neg (by decide), if_pos (by simp [ht])]
  rfl

/-- A call with a colon is by either of its marks. -/
theorem meets_colonCall_iff {c : Context} :
    c.meets Context.colonCall = true
      ↔ .colonCallLeft ∈ c ∨ .colonCallRight ∈ c := by
  rw [Context.meets_iff]
  constructor
  · intro h
    obtain ⟨f, hc, hf⟩ := h
    rcases Context.mem_insert.1 hf with rfl | hf
    · exact Or.inl hc
    · rw [Context.mem_singleton] at hf
      subst hf
      exact Or.inr hc
  · intro h
    rcases h with hc | hc
    · exact ⟨_, hc, Context.mem_insert.2 (Or.inl rfl)⟩
    · exact ⟨_, hc,
        Context.mem_insert.2 (Or.inr (Context.mem_singleton.2 rfl))⟩

/-- In plain code a newline is the end of the line. -/
theorem inCode_newline :
    inCode mode (n.atGlyph .newline) .newline rest = lineEnd n := by
  have same : n.atGlyph .newline = n := by
    unfold Nesting.atGlyph
    rw [if_neg (by simp)]
  rw [same]
  rfl

/-- In code a line end ends an open call by colons. -/
theorem endsLine_lineEnd (hl : Layers inherited kinds n.stack)
    (hr : ¬ n.has .recipeLine = true) (hq : ¬ n.has .quoted = true) :
    EndsLine n.stack (lineEnd n).nesting.stack := by
  have colon := meets_colonCall_iff (c := n.stack.current)
  unfold lineEnd
  by_cases hc : n.meets Context.colonCall = true
  · rw [if_pos hc]
    refine EndsLine.pop hl hc (by decide) ?_
    rcases colon.1 hc with h | h
    · exact Or.inr (Or.inl h)
    · exact Or.inr (Or.inr (Or.inl h))
  · rw [if_neg hc]
    have goes : ¬ n.stack.current.EndsWithLine := by
      intro he
      rcases he with h | h | h | h
      · exact hr (Nesting.has_iff.2 h)
      · exact hc (colon.2 (Or.inl h))
      · exact hc (colon.2 (Or.inr h))
      · exact hq (Nesting.has_iff.2 h.1)
    unfold EndsLine
    rw [if_neg goes]
    rfl

/-- A plan that reads a newline as a line end ends the line. -/
theorem endsLine_next (hl : Layers inherited kinds n.stack)
    (h : (next mode n (.newline :: rest)).token
      = some (.punct .lineEnd)) :
    EndsLine (n.leave {.nameCall}).stack
      (next mode n (.newline :: rest)).nesting.stack := by
  have left := Nesting.layers_leave hl {.nameCall} (by decide)
  have unlettered : Glyph.newline.isLetter = false := rfl
  rw [next_of_not_letter unlettered] at h ⊢
  generalize n.leave {.nameCall} = m at left h ⊢
  by_cases hr : m.has .recipeLine = true
  · have recipe := Nesting.has_iff.1 hr
    unfold Plan.atGlyph
    rw [if_pos hr]
    exact EndsLine.pop left
      (Context.meets_iff.2 ⟨_, recipe, Context.mem_singleton.2 rfl⟩)
      (by decide) (Or.inl recipe)
  by_cases hq : m.has .quoted = true
  · have quoted := Nesting.has_iff.1 hq
    unfold Plan.atGlyph at h ⊢
    rw [if_neg hr, if_pos hq] at h ⊢
    have single : ¬ m.has .tripleQuoted = true := by
      intro ht
      rw [inString_newline ht] at h
      cases h
    rw [inString_lineEnd single]
    refine EndsLine.pop left
      (Context.meets_iff.2 ⟨_, quoted, Context.mem_singleton.2 rfl⟩)
      (by decide) ?_
    refine Or.inr (Or.inr (Or.inr ⟨quoted, ?_⟩))
    exact fun ht => single (Nesting.has_iff.2 ht)
  rw [atGlyph_of_code hr hq, inCode_newline]
  exact endsLine_lineEnd left hr hq

-- ============================================================ skipping

/-- Two stacks with the same constructs around the place. -/
structure SameConstructs (a b : ContextStack) : Prop where
  saved : a.saved = b.saved
  current : ∀ f : Flag, f ∈ Context.nested →
    (f ∈ a.current ↔ f ∈ b.current)

/-- A glyph opens and closes no construct by itself. -/
theorem sameConstructs_atGlyph (n : Nesting) (g : Glyph) :
    SameConstructs (n.atGlyph g).stack n.stack := by
  unfold Nesting.atGlyph
  split
  · refine ⟨rfl, fun f hf => ?_⟩
    refine Nesting.mem_remove.trans ⟨fun h => h.1, fun h => ⟨h, ?_⟩⟩
    intro he
    subst he
    exact Context.recipesExpected_not_mem_nested hf
  · exact ⟨rfl, fun _ _ => Iff.rfl⟩

/-- What is skipped starts with a backslash or a hash sign. -/
theorem head_of_skipped {p : Plan} {g : Glyph} {left : List Glyph}
    (h : Skipped mode (p.reads (g :: rest)) left) :
    g = .scalar '\\' ∨ g = .scalar '#' := by
  obtain ⟨more, hm⟩ := p.exists_reads_cons g rest
  rw [hm] at h
  cases h with
  | join => exact Or.inl rfl
  | comment _ _ _ => exact Or.inr rfl

/-- Escapes, -/
theorem nesting_stringEscape : (stringEscape n rest).nesting = n := by
  unfold stringEscape
  split <;> rfl

/-- backslashes -/
theorem nesting_backslash : (backslash n rest).nesting = n := by
  unfold backslash
  split <;> rfl

/-- and comments leave the nesting as it is. -/
theorem nesting_hash (src : List Glyph) :
    (Plan.hash mode n src).nesting = n := by
  unfold Plan.hash
  split
  · rfl
  split
  · rfl
  · rfl

/-- A step that skips leaves the constructs as a line end would meet
them. -/
theorem sameConstructs_of_skip {g : Glyph}
    (h : (next mode n (g :: rest)).token = none)
    (skipped : Skipped mode ((next mode n (g :: rest)).reads (g :: rest))
      ((next mode n (g :: rest)).leaves (g :: rest))) :
    SameConstructs (next mode n (g :: rest)).nesting.stack
      (n.leave {.nameCall}).stack := by
  have front := head_of_skipped skipped
  have unlettered : g.isLetter = false := by
    rcases front with rfl | rfl
    · rfl
    · rfl
  rw [next_of_not_letter unlettered] at h ⊢
  generalize n.leave {.nameCall} = m at h ⊢
  by_cases hr : m.has .recipeLine = true
  · -- in a recipe line nothing is skipped
    unfold Plan.atGlyph at h
    rw [if_pos hr] at h
    rcases front with rfl | rfl
    · cases rest with
      | nil => cases h
      | cons g rest => cases h
    · cases h
  by_cases hq : m.has .quoted = true
  · unfold Plan.atGlyph at h ⊢
    rw [if_neg hr, if_pos hq] at h ⊢
    rcases front with rfl | rfl
    · have escape : inString m (.scalar '\\') rest = stringEscape m rest :=
        rfl
      rw [escape, nesting_stringEscape]
      exact ⟨rfl, fun _ _ => Iff.rfl⟩
    · cases h
  rw [atGlyph_of_code hr hq]
  rcases front with rfl | rfl
  · have code : inCode mode (m.atGlyph (.scalar '\\')) (.scalar '\\') rest
        = backslash (m.atGlyph (.scalar '\\')) rest := rfl
    rw [code, nesting_backslash]
    exact sameConstructs_atGlyph m _
  · have code : inCode mode (m.atGlyph (.scalar '#')) (.scalar '#') rest
        = Plan.hash mode (m.atGlyph (.scalar '#'))
          (.scalar '#' :: rest) := rfl
    rw [code, nesting_hash]
    exact sameConstructs_atGlyph m _

namespace Scanner

/-- A line end is read from a newline. -/
theorem Sound.reads_of_lineEnd {s : Scanner} (h : s.Sound)
    (hp : s.plan.token = some (.punct .lineEnd)) :
    s.plan.reads s.rest = [.newline] := by
  have ahead : s.rest ≠ [] := by
    intro done
    rw [token_plan_nil s done] at hp
    cases hp
  have written := h.written ahead hp
  exact Glyph.eq_scalar_of_lossyText (by decide)
    (List.mem_singleton.1 written)

/-- The end of a line is only made at a newline. -/
theorem Sound.rest_of_lineEnd {s : Scanner} (h : s.Sound)
    (hp : s.plan.token = some (.punct .lineEnd)) :
    ∃ rest, s.rest = .newline :: rest := by
  have read := h.reads_of_lineEnd hp
  have cut := s.plan.reads_append_leaves s.rest
  rw [read] at cut
  exact ⟨_, cut.symm⟩

/-- Skipped text is of no concern to the line end behind it. -/
theorem Sound.stackAtLineEnd_perform {s : Scanner} (h : s.Sound)
    (hp : s.plan.token = none) :
    SameConstructs (s.perform s.plan).stackAtLineEnd s.stackAtLineEnd := by
  have same : SameConstructs s.plan.nesting.stack s.stackAtLineEnd := by
    have skipped := h.skipped hp
    unfold plan at hp skipped ⊢
    cases hr : s.rest with
    | nil =>
        rw [hr] at hp
        cases hp
    | cons g rest =>
        rw [hr] at hp skipped
        exact sameConstructs_of_skip hp skipped
  have unnamed : ¬ s.plan.nesting.has .nameCall = true := by
    obtain ⟨inherited, hn, -⟩ := h
    obtain ⟨kinds, hl⟩ := hn.layers
    have left := Nesting.layers_leave hl {.nameCall} (by decide)
    rw [Nesting.has_iff, same.current _ (by decide)]
    unfold stackAtLineEnd
    rw [left.mem_current_iff (by decide)]
    exact hl.head_dropKind fun _ => by decide
  have stays : (s.perform s.plan).stackAtLineEnd
      = s.plan.nesting.stack := by
    unfold stackAtLineEnd
    rw [nesting_perform, Nesting.leave_of_not_has unnamed]
  rw [stays]
  exact same

/-- Behind a line end the place is in a construct that is to end with
its line exactly when two such constructs stood directly in each
other. -/
theorem endsWithLine_scan_iff {s : Scanner} (h : Reachable s)
    (he : s.scan.1.token = .punct .lineEnd) :
    s.scan.2.context.EndsWithLine
      ↔ s.stackAtLineEnd.current.EndsWithLine
        ∧ ∃ outer, s.stackAtLineEnd.outer? = some outer
          ∧ outer.EndsWithLine := by
  have sound := h.sound
  clear h
  induction s using scan.induct with
  | case1 s token hp =>
      rw [scan_of_token hp] at he ⊢
      obtain rfl : token = .punct .lineEnd := he
      obtain ⟨rest, hr⟩ := sound.rest_of_lineEnd hp
      obtain ⟨inherited, hn, -⟩ := sound
      obtain ⟨kinds, hl⟩ := hn.layers
      unfold plan at hp ⊢
      rw [hr] at hp ⊢
      refine Iff.trans ?_ (endsLine_next hl hp).endsWithLine_iff
      refine Context.endsWithLine_congr fun f hf => ?_
      refine Nesting.mem_afterToken ?_ true
      intro he
      subst he
      exact Context.lineStart_not_mem_nested hf
  | case2 s hp ih =>
      rw [scan_of_skip hp] at he ⊢
      have later := ih he sound.perform
      have same := sound.stackAtLineEnd_perform hp
      unfold ContextStack.outer? at later ⊢
      rw [same.saved, Context.endsWithLine_congr same.current] at later
      exact later

/-- Behind `\t$:` in `\t$:\n`, where the tab opens a recipe: a call by
colons directly in a recipe line. -/
def inRecipeCall : Scanner :=
  let source : List UInt8 := [9, 36, 58, 10]
  let s := ofGlyphs (File.alone "" 4) {} (Glyph.ofBytes source)
  (s.setRecipes true).scan.2.scan.2.scan.2

/-- A scanner gets there from the start. -/
theorem reachable_inRecipeCall : Reachable inRecipeCall := by
  let source : List UInt8 := [9, 36, 58, 10]
  have started : Scanner.start (File.alone "" 4) {} source
      = .ok (ofGlyphs (File.alone "" 4) {} (Glyph.ofBytes source)) := rfl
  exact ((Reachable.start started).setRecipes true).scan.scan.scan

/-- The next call gives the end of the line. -/
theorem token_inRecipeCall :
    inRecipeCall.scan.1.token = .punct .lineEnd := by
  decide +kernel

/-- The call by a colon ends there, and the recipe line under it goes on,
as is said for all of them. -/
theorem endsWithLine_inRecipeCall :
    inRecipeCall.stackAtLineEnd.current.EndsWithLine
      ∧ (inRecipeCall.scan.2.context.EndsWithLine
        ↔ inRecipeCall.stackAtLineEnd.current.EndsWithLine
          ∧ ∃ outer, inRecipeCall.stackAtLineEnd.outer? = some outer
            ∧ outer.EndsWithLine) := by
  refine ⟨?_, ?_⟩
  · decide +kernel
  · exact endsWithLine_scan_iff reachable_inRecipeCall token_inRecipeCall

/-- There the recipe line goes on behind its line end. -/
theorem not_lineEnd_ends_all :
    ¬ ∀ s : Scanner, Reachable s → s.scan.1.token = .punct .lineEnd →
      ¬ s.scan.2.context.EndsWithLine := by
  intro h
  refine h inRecipeCall reachable_inRecipeCall token_inRecipeCall ?_
  decide +kernel

end Scanner

end BuildLexer
