/-
Which tabs open recipes.

A tab at the start of a line, outside all constructs, opens a recipe if
recipes are expected there, when they are not let in everywhere. Whether
they are is decided by the calls before it: the latest one that ended the
head of a rule (`Scanner.DelimitsRule`), and what the lines behind it
start with (`Scanner.KeepsRule`).

The flag alone is not kept from call to call, because a glyph takes it
back only when the step at the glyph is made. What is kept is that
recipes are expected and that the glyph ahead does not take that back
(`Scanner.StillExpects`). A call leads there if it ends the head of a
rule or began there, unless it ends a line outside all constructs and
the next starts with another glyph (`stillExpects_scan`); a run is then
told by the latest such call (`iff_latestBefore`).

Two things have to be seen about calls. The steps of a call that skip
are of no concern: a comment ends before a line end, which takes nothing
back, and a backslash at the start of a line has taken it back itself.
And behind a token that is no line end, a line starts only where a sigil
was read at its start, which has taken it back too.
-/
import BuildLexer.Proofs.Recipes.Expected
import BuildLexer.Proofs.Recipes.LineStart

namespace BuildLexer

open Plan Glyph

-- ======================================================= latest events

/-- The latest moment of an event before another moment. -/
def LatestBefore (event : Nat → Prop) (i h : Nat) : Prop :=
  h < i ∧ event h ∧ ∀ k, h < k → k < i → ¬ event k

/-- What an event sets, and what holds on as long as the moments allow,
holds if all moments since the latest event did. -/
theorem iff_latestBefore {event holds allows : Nat → Prop}
    (unset : ¬ holds 0)
    (next : ∀ k, holds (k + 1) ↔ (event k ∨ holds k) ∧ allows k)
    (apart : ∀ k, event k → allows k) (i : Nat) :
    holds i
      ↔ ∃ h, LatestBefore event i h ∧ ∀ k, h < k → k < i → allows k := by
  induction i with
  | zero =>
      refine iff_of_false unset ?_
      rintro ⟨h, ⟨before, -, -⟩, -⟩
      exact Nat.not_lt_zero h before
  | succ i ih =>
      rw [next, ih]
      constructor
      · rintro ⟨set, allowed⟩
        by_cases now : event i
        · exact ⟨i, ⟨Nat.lt_succ_self i, now, fun k _ _ => by omega⟩,
            fun k _ _ => by omega⟩
        · obtain ⟨h, ⟨before, then_, none⟩, all⟩ := set.resolve_left now
          refine ⟨h, ⟨by omega, then_, fun k hk hi => ?_⟩, fun k hk hi => ?_⟩
          · rcases Nat.lt_succ_iff_lt_or_eq.1 hi with hi | rfl
            · exact none k hk hi
            · exact now
          · rcases Nat.lt_succ_iff_lt_or_eq.1 hi with hi | rfl
            · exact all k hk hi
            · exact allowed
      · rintro ⟨h, ⟨before, then_, none⟩, all⟩
        rcases Nat.lt_succ_iff_lt_or_eq.1 before with before | rfl
        · refine ⟨.inr ⟨h, ⟨before, then_, fun k hk hi => ?_⟩,
            fun k hk hi => ?_⟩, all i before (Nat.lt_succ_self i)⟩
          · exact none k hk (by omega)
          · exact all k hk (by omega)
        · exact ⟨.inl then_, apart h then_⟩

-- ============================================================== places

namespace Nesting

variable {n m : Nesting}

theorem startsLine_congr (same : n.stack = m.stack) :
    n.StartsLine ↔ m.StartsLine := by
  unfold StartsLine has isInside meets
  rw [same]

/-- Looking at a glyph changes nothing about it. -/
theorem startsLine_atGlyph (n : Nesting) (g : Glyph) :
    (n.atGlyph g).StartsLine ↔ n.StartsLine := by
  unfold StartsLine
  rw [isInside_atGlyph, has_iff, has_iff, (line_atGlyph n g).2]

theorem depth_afterToken (n : Nesting) (endsLine : Bool) :
    (n.afterToken endsLine).stack.depth = n.stack.depth := by
  unfold afterToken
  split <;> rfl

end Nesting

/-- What contexts inherit is the same at any two places of a run. -/
theorem Layers.mem_inherited_iff {inherited : Context}
    {kinds kinds' : List Flag} {a b : ContextStack} {f : Flag}
    (ha : Layers inherited kinds a) (hb : Layers inherited kinds' b)
    (hf : f ∈ Context.inherited) : f ∈ a.current ↔ f ∈ b.current := by
  have same : f ∈ a.current ∩ Context.inherited
      ↔ f ∈ b.current ∩ Context.inherited := by
    rw [ha.inherits_current, hb.inherits_current]
  rw [Context.mem_inter, Context.mem_inter] at same
  exact (and_iff_left hf).symm.trans (same.trans (and_iff_left hf))

namespace Scanner

-- =============================================================== calls

/-- The scanner where the step begins that makes the token of the next
call. -/
def dispatch (s : Scanner) : Scanner :=
  if s.plan.token = none then dispatch (s.perform s.plan) else s
termination_by s.rest.length
decreasing_by
  apply length_perform
  intro done
  rw [token_plan_nil s done] at *
  contradiction

/-- How many constructs are around that place. A call by a bare name is
over there, unless a name follows. -/
def dispatchDepth (s : Scanner) : Nat :=
  (s.dispatch.nesting.settle s.dispatch.rest).stack.depth

/-- The next call ends the head of a rule: with a colon or two outside
all constructs, or with a bracket and a colon that lead outside. -/
def DelimitsRule (s : Scanner) : Prop :=
  (s.scan.1.token = .rule .colon ∨ s.scan.1.token = .rule .doubleColon)
      ∧ s.dispatchDepth = 0
    ∨ s.scan.1.token = .rule .bracketColon
      ∧ s.scan.2.nesting.stack.depth = 0

/-- If the next call ends a line and leads outside all constructs, a tab,
a newline or a hash sign follows. -/
def KeepsRule (s : Scanner) : Prop :=
  s.scan.1.token = .punct .lineEnd → s.scan.2.nesting.stack.depth = 0 →
    ∃ g ∈ Nesting.lineKeepers, s.scan.2.rest.head? = some g

/-- Recipes are expected, and the glyph ahead does not take that back. -/
def StillExpects (s : Scanner) : Prop :=
  s.nesting.Expects
    ∧ ((s.nesting.settle s.rest).StartsLine →
      ∀ g, s.rest.head? = some g → g ∈ Nesting.lineKeepers)

variable {file : File} {mode : Mode} {source : List UInt8}
  {begun s : Scanner} {token : Token} {i : Nat}

theorem DelimitsRule.endsHead (h : s.DelimitsRule) :
    s.scan.1.token.endsHead = true := by
  rcases h with ⟨colon | double, -⟩ | ⟨bracket, -⟩
  · exact congrArg Token.endsHead colon
  · exact congrArg Token.endsHead double
  · exact congrArg Token.endsHead bracket

theorem dispatch_of_token (hp : s.plan.token = some token) :
    s.dispatch = s := by
  rw [dispatch, if_neg (by rw [hp]; nofun)]

theorem dispatch_of_skip (hp : s.plan.token = none) :
    s.dispatch = (s.perform s.plan).dispatch := by
  rw [dispatch, if_pos hp]

theorem delimitsRule_of_skip (hp : s.plan.token = none) :
    s.DelimitsRule ↔ (s.perform s.plan).DelimitsRule := by
  unfold DelimitsRule dispatchDepth
  rw [scan_of_skip hp, dispatch_of_skip hp]

-- =============================================================== steps

theorem Sound.settled (sound : s.Sound) :
    ∃ inherited kinds,
      Layers inherited kinds (s.nesting.settle s.rest).stack := by
  obtain ⟨inherited, ⟨⟨kinds, layers⟩, -⟩, -⟩ := sound
  exact ⟨inherited, Nesting.layers_settle layers s.rest⟩

/-- What a step leaves behind it. -/
theorem Sound.expects_plan (sound : s.Sound) :
    s.plan.nesting.Expects
      ↔ s.plan.EndsHead (s.nesting.settle s.rest) ∨ s.StillExpects := by
  obtain ⟨inherited, kinds, layers⟩ := sound.settled
  unfold StillExpects plan
  rw [← s.nesting.expects_settle s.rest]
  cases hr : s.rest with
  | nil =>
      have same : (atEnd (s.nesting.settle [])).nesting.Expects
          ↔ (s.nesting.settle []).Expects := by
        show _ ∈ (s.nesting.settle []).stack.unwind.1.outermost ↔ _
        rw [ContextStack.outermost_unwind]
        exact Iff.rfl
      have ends : ¬ (atEnd (s.nesting.settle [])).EndsHead
          (s.nesting.settle []) := by
        refine not_endsHead fun token made => ?_
        obtain rfl := Option.some.inj made
        rfl
      refine same.trans (Iff.trans ?_ (or_iff_right ends).symm)
      exact ⟨fun expects => ⟨expects, nofun⟩, fun still => still.1⟩
  | cons g rest =>
      rw [hr] at layers
      refine (expects_plan_atGlyph layers).trans
        (or_congr_right (and_congr_right fun _ => ?_))
      refine imp_congr_right fun _ => ⟨fun keeper g' hg => ?_, fun all => ?_⟩
      · rwa [← Option.some.inj hg]
      · exact all g rfl

/-- A step that makes a token ends the head of a rule if the call
does. -/
theorem Sound.delimitsRule_iff (sound : s.Sound)
    (hp : s.plan.token = some token) :
    s.DelimitsRule ↔ s.plan.EndsHead (s.nesting.settle s.rest) := by
  obtain ⟨inherited, kinds, layers⟩ := sound.settled
  obtain ⟨behind, ⟨⟨open_, left⟩, -⟩, -⟩ := sound.perform
  rw [nesting_perform] at left
  unfold DelimitsRule dispatchDepth EndsHead
  rw [dispatch_of_token hp, scan_of_token hp, hp,
    Nesting.isInside_eq_false_iff layers,
    Nesting.isInside_eq_false_iff left, Option.some.injEq,
    Option.some.injEq, Option.some.injEq]
  show _ ∨ _ ∧ (s.plan.nesting.afterToken _).stack.depth = 0 ↔ _
  rw [Nesting.depth_afterToken]
  exact Iff.rfl

/-- Skipped text does not change whether a line starts. -/
theorem Sound.startsLine_perform (sound : s.Sound)
    (hp : s.plan.token = none) :
    ((s.perform s.plan).nesting.settle (s.perform s.plan).rest).StartsLine
      ↔ (s.nesting.settle s.rest).StartsLine := by
  cases hr : s.rest with
  | nil =>
      rw [token_plan_nil s hr] at hp
      cases hp
  | cons g rest =>
      obtain ⟨inherited, kinds, m, -, left, name, hm, turns⟩ :=
        sound.turns hr
      have skipped := sound.skipped hp
      have same : s.plan.nesting = m := by
        have turn := turns.turn
        rw [hp] at turn
        generalize s.plan.nesting = n', s.plan.unclosed = unclosed at turn
        cases turn
        rfl
      have unlettered : g.isLetter = false := by
        rw [hr] at skipped
        rcases head_of_skipped skipped with rfl | rfl
        · rfl
        · rfl
      have unnamed : ¬ m.has .nameCall = true := by
        rw [Nesting.has_iff_of_layers left (by decide)]
        exact name
      rw [nesting_perform, same, Nesting.settle_eq unnamed,
        Nesting.settle_of_not_letter unlettered]
      rcases hm with rfl | rfl
      · exact Iff.rfl
      · exact Nesting.startsLine_atGlyph _ g

/-- Nor whether recipes are expected: what is behind a comment takes
nothing back, and a backslash has done so already. -/
theorem Sound.stillExpects_skip (sound : s.Sound)
    (hp : s.plan.token = none) :
    (s.perform s.plan).StillExpects ↔ s.StillExpects := by
  have ends : ¬ s.plan.EndsHead (s.nesting.settle s.rest) :=
    not_endsHead fun token made => by cases hp.symm.trans made
  have expects := sound.expects_plan.trans (or_iff_right ends)
  refine ⟨fun still => expects.1 still.1, fun still => ⟨expects.2 still, ?_⟩⟩
  rw [sound.startsLine_perform hp, rest_perform]
  intro starts g' front
  have skipped := sound.skipped hp
  have cut := s.plan.reads_append_leaves s.rest
  generalize s.plan.reads s.rest = read at skipped cut
  generalize s.plan.leaves s.rest = behind at skipped cut front
  cases skipped with
  | join =>
      have keeper := still.2 starts (.scalar '\\') (by rw [← cut]; rfl)
      exact absurd keeper (by decide)
  | comment _ _ stop =>
      -- what stops a comment may start a line
      rw [stop g' front]
      decide

-- =========================================================== one call

/-- Behind a call recipes are expected if it ended the head of a rule or
if they still were before it. -/
theorem Sound.expects_scan (sound : s.Sound) :
    s.scan.2.nesting.Expects ↔ s.DelimitsRule ∨ s.StillExpects := by
  induction s using scan.induct with
  | case1 s token hp =>
      rw [sound.delimitsRule_iff hp, scan_of_token hp]
      exact (Nesting.expects_afterToken _ _).trans sound.expects_plan
  | case2 s hp ih =>
      rw [delimitsRule_of_skip hp, scan_of_skip hp,
        ← sound.stillExpects_skip hp]
      exact ih sound.perform

/-- Behind a line end a line starts, and no call by a bare name is
open. -/
theorem Sound.behind_lineEnd (sound : s.Sound)
    (ended : s.scan.1.token = .punct .lineEnd) (src : List Glyph) :
    s.scan.2.nesting.settle src = s.scan.2.nesting
      ∧ s.scan.2.nesting.has .lineStart = true := by
  obtain ⟨u, token, hu, hp, call⟩ :=
    exists_lastStep (P := Sound) (fun _ hs _ => hs.perform) sound
  rw [call] at ended ⊢
  obtain rfl : token = .punct .lineEnd := ended
  obtain ⟨rest, hr⟩ := hu.rest_of_lineEnd hp
  obtain ⟨inherited, kinds, m, -, left, name, -, turns⟩ := hu.turns hr
  show (u.plan.nesting.afterToken true).settle src = _
    ∧ (u.plan.nesting.afterToken true).has .lineStart = true
  refine ⟨Nesting.settle_eq fun named => ?_, ?_⟩
  · rw [Nesting.has_iff, Nesting.mem_afterToken (by decide),
      ← Nesting.has_iff] at named
    obtain ⟨sigil, opener, made, -⟩ := turns.turn.named left name named
    rw [hp] at made
    cases made
  · rw [Nesting.has_iff]
    exact Nesting.mem_insert.2 (.inr rfl)

/-- A sigil at the start of a line takes back that recipes are
expected. -/
theorem Sound.not_startsLine_of_sigil (sound : s.Sound) {g : Glyph}
    {rest : List Glyph} (hr : s.rest = g :: rest) {sigil : Sigil}
    (made : s.plan.token = some (.reference sigil none))
    (expects : s.plan.nesting.Expects) :
    ¬ (s.nesting.leave {.nameCall}).StartsLine := by
  have read := sound.reads_of_sigil (hr ▸ List.cons_ne_nil g rest) made
  obtain ⟨more, hm⟩ := s.plan.exists_reads_cons g rest
  rw [hr, hm] at read
  obtain rfl : g = .scalar sigil.symbol := (List.cons.inj read).1
  have unlettered : Glyph.isLetter (.scalar sigil.symbol) = false := by
    cases sigil <;> decide
  have other : Glyph.scalar sigil.symbol ∉ Nesting.lineKeepers := by
    cases sigil <;> decide
  have ends : ¬ s.plan.EndsHead (s.nesting.settle s.rest) := by
    refine not_endsHead fun token reference => ?_
    obtain rfl := Option.some.inj (made.symm.trans reference)
    rfl
  have still := (sound.expects_plan.1 expects).resolve_left ends
  intro starts
  rw [← Nesting.settle_of_not_letter unlettered, ← hr] at starts
  exact other (still.2 starts _ (by rw [hr]; rfl))

/-- Behind any token but a line end no line starts where recipes are
expected. -/
theorem Sound.not_startsLine (sound : s.Sound)
    (expects : (s.plan.nesting.afterToken false).Expects)
    (src : List Glyph) :
    ¬ ((s.plan.nesting.afterToken false).settle src).StartsLine := by
  rw [Nesting.expects_afterToken] at expects
  unfold Nesting.settle
  split
  next named =>
    -- Only a sigil opens the call that is left here, and leaving it leads
    -- back to what was known of the line before the sigil.
    intro starts
    rw [Bool.and_eq_true] at named
    cases hr : s.rest with
    | nil =>
        obtain ⟨inherited, hn, -⟩ := sound
        rw [hr] at hn
        have calm : s.plan.nesting.Calm inherited [] := by
          unfold plan
          rw [hr]
          exact calm_next_nil hn
        exact (calm.afterToken false).not_nameCall named.1
    | cons g rest =>
        obtain ⟨inherited, kinds, m, -, left, name, hm, turns⟩ :=
          sound.turns hr
        obtain ⟨sigil, made, back⟩ :=
          turns.turn.line left name (Nesting.has_iff.1 starts.1)
        refine sound.not_startsLine_of_sigil hr made expects ?_
        rw [Nesting.startsLine_congr back] at starts
        rcases hm with rfl | rfl
        · exact starts
        · exact (Nesting.startsLine_atGlyph _ g).1 starts
  next =>
    intro starts
    exact (Nesting.mem_remove.1 (Nesting.has_iff.1 starts.1)).2 rfl

/-- So where recipes are expected behind a call, a line starts exactly
if the call ended one and led outside all constructs. -/
theorem Sound.startsLine_scan (sound : s.Sound)
    (expects : s.scan.2.nesting.Expects) :
    (s.scan.2.nesting.settle s.scan.2.rest).StartsLine
      ↔ s.scan.1.token = .punct .lineEnd
        ∧ s.scan.2.nesting.stack.depth = 0 := by
  by_cases ended : s.scan.1.token = .punct .lineEnd
  · obtain ⟨settled, begun⟩ := sound.behind_lineEnd ended s.scan.2.rest
    obtain ⟨inherited, ⟨⟨kinds, layers⟩, -⟩, -⟩ := sound.scan
    rw [settled, ← Nesting.isInside_eq_false_iff layers]
    exact ⟨fun starts => ⟨ended, starts.2⟩, fun outside =>
      ⟨begun, outside.2⟩⟩
  · refine iff_of_false ?_ fun both => ended both.1
    obtain ⟨u, token, hu, -, call⟩ :=
      exists_lastStep (P := Sound) (fun _ hs _ => hs.perform) sound
    rw [call] at ended expects ⊢
    have other : token ≠ .punct .lineEnd := ended
    unfold Scanner.deliver at expects ⊢
    rw [beq_false_of_ne other] at expects ⊢
    exact hu.not_startsLine expects _

/-- What a call keeps: recipes are still expected behind it if it ended
the head of a rule, or they were before, and it finds nothing else at the
start of a line. -/
theorem Sound.stillExpects_scan (sound : s.Sound) :
    s.scan.2.StillExpects
      ↔ (s.DelimitsRule ∨ s.StillExpects)
        ∧ (s.scan.1.token = .punct .lineEnd →
          s.scan.2.nesting.stack.depth = 0 →
          ∀ g, s.scan.2.rest.head? = some g → g ∈ Nesting.lineKeepers) := by
  rw [← sound.expects_scan]
  unfold StillExpects
  refine and_congr_right fun expects => ?_
  rw [sound.startsLine_scan expects, and_imp]

-- ================================================================ runs

/-- A sound scanner that was not told to let tabs open recipes
everywhere. -/
structure Unforced (s : Scanner) : Prop where
  sound : s.Sound
  plain : .recipesAllowed ∉ s.context

/-- A call does not change what all contexts inherit. -/
theorem Unforced.scan (h : s.Unforced) : s.scan.2.Unforced where
  sound := h.sound.scan
  plain := by
    obtain ⟨inherited, hn, -⟩ := h.sound
    have behind : s.scan.2.nesting.Sound inherited s.scan.2.rest := by
      refine scan_preserves (P := fun u => u.nesting.Sound inherited u.rest)
        (fun u hu => ?_) (fun u ends hu => hu.afterToken ends) hn
      rw [rest_perform, nesting_perform]
      exact keeps_next hu
    obtain ⟨kinds, layers⟩ := hn.layers
    obtain ⟨kinds', layers'⟩ := behind.layers
    exact fun allowed =>
      h.plain ((layers'.mem_inherited_iff layers (by decide)).1 allowed)

theorem Unforced.after (h : s.Unforced) (k : Nat) :
    (s.after k).Unforced := by
  induction k with
  | zero => exact h
  | succ k ih => exact ih.scan

/-- Behind the end there is only the end. -/
theorem rest_after_ne_nil {k : Nat} (before : k ≤ i)
    (more : (s.after i).rest ≠ []) : (s.after k).rest ≠ [] := by
  induction before with
  | refl => exact more
  | step _ ih =>
      refine ih fun done => more ?_
      refine scan_preserves (P := fun u => u.rest = []) (fun u hu => ?_)
        (fun _ _ hu => hu) done
      rw [rest_perform, hu, leaves_nil]

theorem nesting_start
    (started : Scanner.start file mode source = .ok begun) :
    begun.nesting = { stack := { current := startContext mode } } := by
  obtain ⟨-, rfl⟩ := start_eq_ok started
  exact (nesting_ofGlyphs file mode (ofBytes source)).1

/-- At the start a line starts, and nothing else is known. -/
theorem mem_startContext {f : Flag} (h : f ∈ startContext mode) :
    f = .lineStart ∨ f = .commentsOff := by
  unfold startContext at h
  split at h
  next => simpa using h
  next => exact .inl (Context.mem_singleton.1 h)

theorem lineStart_mem_startContext (mode : Mode) :
    .lineStart ∈ startContext mode := by
  unfold startContext
  split <;> decide

theorem unforced_start
    (started : Scanner.start file mode source = .ok begun) :
    begun.Unforced where
  sound := (Reachable.start started).sound
  plain := by
    unfold context
    rw [nesting_start started]
    intro allowed
    rcases mem_startContext allowed with h | h <;> cases h

theorem not_expects_start
    (started : Scanner.start file mode source = .ok begun) :
    ¬ begun.nesting.Expects := by
  rw [nesting_start started]
  intro expects
  rcases mem_startContext expects with h | h <;> cases h

/-- Whether recipes are still expected behind some calls is decided by
the latest of them that ended the head of a rule. -/
theorem stillExpects_after
    (started : Scanner.start file mode source = .ok begun) (i : Nat) :
    (begun.after i).StillExpects
      ↔ ∃ h, LatestBefore (fun k => (begun.after k).DelimitsRule) i h
        ∧ ∀ k, h < k → k < i →
          (begun.after k).scan.1.token = .punct .lineEnd →
          (begun.after k).scan.2.nesting.stack.depth = 0 →
          ∀ g, (begun.after k).scan.2.rest.head? = some g →
            g ∈ Nesting.lineKeepers := by
  have unforced := unforced_start started
  refine @iff_latestBefore _ (fun k => (begun.after k).StillExpects) _
    (fun still => not_expects_start started still.1)
    (fun k => (unforced.after k).sound.stillExpects_scan) (fun k ends => ?_) i
  intro ended
  have head := DelimitsRule.endsHead ends
  rw [ended] at head
  cases head

-- ================================================================ tabs

/-- Outside all constructs, where a line starts, a tab opens a recipe if
recipes are expected. -/
theorem token_plan_tab {n : Nesting} {rest : List Glyph}
    (outside : n.isInside = false) :
    (Plan.atGlyph mode n (.scalar '\t') rest).token
      = some (if n.opensRecipe then .literal .recipe
        else .punct .space) := by
  have same : n.atGlyph (.scalar '\t') = n := by
    unfold Nesting.atGlyph
    rw [if_neg (by simp)]
  rw [atGlyph_of_code (Nesting.not_has_of_outside outside (by decide))
    (Nesting.not_has_of_outside outside (by decide)), same]
  show (if n.opensRecipe then recipe n rest else blanks n _).token = _
  split
  next => rfl
  next => rfl

theorem Unforced.opensRecipe_iff (h : s.Unforced)
    (starts : (s.nesting.settle s.rest).StartsLine) :
    (s.nesting.settle s.rest).opensRecipe = true ↔ s.nesting.Expects := by
  obtain ⟨inherited, ⟨⟨kinds, layers⟩, -⟩, -⟩ := h.sound
  obtain ⟨kinds', settled⟩ := Nesting.layers_settle layers s.rest
  have plain : .recipesAllowed ∉ (s.nesting.settle s.rest).stack.current :=
    fun allowed =>
      h.plain ((settled.mem_inherited_iff layers (by decide)).1 allowed)
  have none : (s.nesting.settle s.rest).stack.saved = [] :=
    List.length_eq_zero_iff.1
      ((Nesting.isInside_eq_false_iff settled).1 starts.2)
  rw [← s.nesting.expects_settle s.rest]
  unfold Nesting.opensRecipe Nesting.Expects
  rw [starts.1, starts.2, ContextStack.outermost_of_saved none]
  show Context.meets _ _ = true ↔ _
  rw [Context.meets_iff]
  constructor
  · rintro ⟨f, held, listed⟩
    rcases Context.mem_insert.1 listed with rfl | listed
    · exact absurd held plain
    · rwa [Context.mem_singleton.1 listed] at held
  · exact fun expected => ⟨_, expected, by decide⟩

/-- A call at a tab outside all constructs, where a line starts. -/
theorem Unforced.recipe_iff (h : s.Unforced)
    (tab : s.rest.head? = some (.scalar '\t'))
    (outside : s.dispatchDepth = 0)
    (begun : (s.nesting.settle s.rest).has .lineStart = true) :
    s.scan.1.token = .literal .recipe ↔ s.StillExpects := by
  obtain ⟨rest, hr⟩ := List.head?_eq_some_iff.1 tab
  obtain ⟨token, hp⟩ : ∃ token, s.plan.token = some token := by
    rw [← Option.ne_none_iff_exists']
    intro hp
    have skipped := h.sound.skipped hp
    rw [hr] at skipped
    rcases head_of_skipped skipped with h | h <;> cases h
  obtain ⟨inherited, kinds, settled⟩ := h.sound.settled
  have starts : (s.nesting.settle s.rest).StartsLine := by
    unfold dispatchDepth at outside
    rw [dispatch_of_token hp] at outside
    exact ⟨begun, (Nesting.isInside_eq_false_iff settled).2 outside⟩
  have made : s.plan.token = some (if (s.nesting.settle s.rest).opensRecipe
      then .literal .recipe else .punct .space) := by
    unfold plan
    rw [hr] at starts ⊢
    exact token_plan_tab starts.2
  have still : s.StillExpects ↔ s.nesting.Expects := by
    refine and_iff_left fun _ g front => ?_
    rw [tab] at front
    rw [← Option.some.inj front]
    decide
  rw [still, ← h.opensRecipe_iff starts, scan_of_token made]
  show (if _ then Token.literal .recipe else .punct .space) = _ ↔ _
  split
  next opens => exact iff_of_true rfl opens
  next closed => exact iff_of_false nofun closed

/-- A line starts at the start of the source and behind a line end. -/
theorem lineStart_after
    (started : Scanner.start file mode source = .ok begun)
    (fresh : ∀ k, i = k + 1 →
      (begun.after k).scan.1.token = .punct .lineEnd) :
    ((begun.after i).nesting.settle (begun.after i).rest).has .lineStart
      = true := by
  cases i with
  | zero =>
      show (begun.nesting.settle begun.rest).has .lineStart = true
      have unnamed : ¬ begun.nesting.has .nameCall = true := by
        rw [Nesting.has_iff, nesting_start started]
        intro named
        rcases mem_startContext named with h | h <;> cases h
      rw [Nesting.settle_eq unnamed, Nesting.has_iff, nesting_start started]
      exact lineStart_mem_startContext mode
  | succ k =>
      have sound := ((unforced_start started).after k).sound
      obtain ⟨settled, begins⟩ :=
        sound.behind_lineEnd (fresh k rfl) (begun.after (k + 1)).rest
      exact (congrArg (Nesting.has · .lineStart) settled).trans begins

/-- Where something follows, it is nothing else than a tab, a newline or
a hash sign exactly if it is one of these. -/
theorem keepsRule_iff (more : s.scan.2.rest ≠ []) :
    s.KeepsRule
      ↔ (s.scan.1.token = .punct .lineEnd →
        s.scan.2.nesting.stack.depth = 0 →
        ∀ g, s.scan.2.rest.head? = some g → g ∈ Nesting.lineKeepers) := by
  obtain ⟨g, rest, hr⟩ := List.exists_cons_of_ne_nil more
  unfold KeepsRule
  rw [hr, List.head?_cons]
  refine imp_congr_right fun _ => imp_congr_right fun _ => ?_
  constructor
  · rintro ⟨g', keeper, front⟩ g'' front'
    obtain rfl := Option.some.inj front
    obtain rfl := Option.some.inj front'
    exact keeper
  · exact fun all => ⟨g, all g rfl, rfl⟩

/-- A scanner that was not told to let tabs open recipes everywhere
takes a tab at the start of a line, outside all constructs, for a recipe
exactly if the head of a rule was ended before, and behind the latest one
every line outside all constructs starts with a tab, a newline or a hash
sign. -/
theorem recipe_iff_headers
    (started : Scanner.start file mode source = .ok begun)
    (tab : (begun.after i).rest.head? = some (.scalar '\t'))
    (outside : (begun.after i).dispatchDepth = 0)
    (fresh : ∀ k, i = k + 1 →
      (begun.after k).scan.1.token = .punct .lineEnd) :
    (begun.after i).scan.1.token = .literal .recipe
      ↔ ∃ h, LatestBefore (fun k => (begun.after k).DelimitsRule) i h
        ∧ ∀ k, h < k → k < i → (begun.after k).KeepsRule := by
  have unforced := (unforced_start started).after i
  have more : (begun.after i).rest ≠ [] := by
    intro done
    rw [done] at tab
    cases tab
  rw [unforced.recipe_iff tab outside (lineStart_after started fresh),
    stillExpects_after started i]
  refine exists_congr fun h => and_congr_right fun _ => ?_
  refine forall_congr' fun k => imp_congr_right fun _ =>
    imp_congr_right fun earlier => ?_
  have follows : (begun.after (k + 1)).rest ≠ [] :=
    rest_after_ne_nil earlier more
  exact (keepsRule_iff follows).symm

/-- `a:`, a recipe, a comment, another recipe, then a statement and a
tab. -/
def beforeRule : Scanner :=
  ofGlyphs (File.alone "" 16) {}
    (ofBytes [97, 58, 10, 9, 98, 10, 35, 99, 10, 9, 100, 10, 101, 10, 9, 102])

/-- The comment keeps the rule, and the statement ends it. -/
theorem recipe_iff_headers_comment_statement :
    Scanner.start (File.alone "" 16) {}
        [97, 58, 10, 9, 98, 10, 35, 99, 10, 9, 100, 10, 101, 10, 9, 102]
        = .ok beforeRule
      ∧ ((beforeRule.after 6).scan.1.token = .literal .recipe
        ∧ ∃ h, LatestBefore (fun k => (beforeRule.after k).DelimitsRule) 6 h
          ∧ ∀ k, h < k → k < 6 → (beforeRule.after k).KeepsRule)
      ∧ (beforeRule.after 10).rest.head? = some (.scalar '\t')
      ∧ ¬ ∃ h, LatestBefore (fun k => (beforeRule.after k).DelimitsRule) 10 h
        ∧ ∀ k, h < k → k < 10 → (beforeRule.after k).KeepsRule := by
  have started : Scanner.start (File.alone "" 16) {}
      [97, 58, 10, 9, 98, 10, 35, 99, 10, 9, 100, 10, 101, 10, 9, 102]
      = .ok beforeRule := rfl
  have recipe : (beforeRule.after 6).rest.head? = some (.scalar '\t')
      ∧ (beforeRule.after 6).dispatchDepth = 0
      ∧ (beforeRule.after 5).scan.1.token = .punct .lineEnd
      ∧ (beforeRule.after 6).scan.1.token = .literal .recipe := by
    decide +kernel
  have blank : (beforeRule.after 10).rest.head? = some (.scalar '\t')
      ∧ (beforeRule.after 10).dispatchDepth = 0
      ∧ (beforeRule.after 9).scan.1.token = .punct .lineEnd
      ∧ (beforeRule.after 10).scan.1.token ≠ .literal .recipe := by
    decide +kernel
  refine ⟨started, ⟨recipe.2.2.2, ?_⟩, blank.1, fun headed => ?_⟩
  · refine (recipe_iff_headers started recipe.1 recipe.2.1 ?_).1
      recipe.2.2.2
    rintro k ⟨rfl⟩
    exact recipe.2.2.1
  · refine blank.2.2.2 ((recipe_iff_headers started blank.1 blank.2.1 ?_).2
      headed)
    rintro k ⟨rfl⟩
    exact blank.2.2.1

end Scanner

end BuildLexer
