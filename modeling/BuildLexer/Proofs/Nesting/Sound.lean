/-
Every state that a scanner can be brought into is sound.

`keeps_next` puts the rules of `Steps` together: a step at a sound place
ends at a sound place. Three cases are told apart. Where an opening mark
is awaited, the mark is read and nothing else changes; where a call by a
bare name was just entered and a name follows, the name is read and the
call left; everywhere else the place is calm once a call without a name
has been given up (`settle`).

The mode is part of what is kept: hash signs are tokens at every level
or at none.
-/
import BuildLexer.Proofs.Nesting.Steps
import BuildLexer.Proofs.Scanner.Reachable

namespace BuildLexer

open Plan

variable {inherited : Context} {kinds : List Flag} {n : Nesting}

-- ================================================= text and code, calm

section Calm

variable (h : n.Calm inherited kinds)

include h

/-- The plan for a recipe keeps the layers, -/
theorem keeps_inRecipe (g : Glyph) (rest : List Glyph) :
    (inRecipe n g rest).Keeps inherited (g :: rest) := by
  unfold inRecipe
  split
  · exact (h.leave _ (by decide)).sound _
  split
  · unfold recipeEscape
    split
    · exact h.sound _
    · exact h.sound _
  split
  · exact keeps_referenceInText h _ g rest
  split
  · exact keeps_referenceInText h _ g rest
  · exact h.sound _

/-- the plan for a string does, -/
theorem keeps_inString (g : Glyph) (rest : List Glyph) :
    (inString n g rest).Keeps inherited (g :: rest) := by
  have closed := h.leave {.quoted} (by decide)
  unfold inString
  dsimp only
  split
  · split
    · exact closed.sound _
    split
    · exact closed.sound _
    · exact h.sound _
  split
  · exact closed.sound _
  split
  · unfold stringEscape
    split
    · exact h.sound _
    · exact h.sound _
    · exact h.sound _
  split
  · exact keeps_referenceInText h _ g rest
  split
  · exact keeps_referenceInText h _ g rest
  · exact h.sound _

/-- the plan at a special character, -/
theorem keeps_special (mode : Mode) (g : Glyph) (rest : List Glyph) :
    (special mode n g rest).Keeps inherited (g :: rest) := by
  unfold special
  dsimp only
  split
  · split
    next opens => exact (calm_recipe h opens rest).keeps _
    next => exact h.sound _
  · exact h.sound _
  · exact h.sound _
  · exact (calm_lineEnd h).keeps _
  · exact (calm_hash h mode _).keeps _
  · exact (calm_backslash h rest).keeps _
  · exact h.sound _
  · exact (calm_openString h _).keeps _
  · exact keeps_reference h _ g rest
  · exact keeps_reference h _ g rest
  · exact (calm_colon h _).keeps _
  · exact (calm_rightBracket h _).keeps _
  · exact (calm_leftParen h).keeps _
  · exact (h.leave _ (by decide)).sound _
  · exact (calm_leftBrace h).keeps _
  · exact (h.leave _ (by decide)).sound _
  · split
    · exact h.sound _
    · exact (calm_operator h g rest).keeps _
  · exact (calm_operator h g rest).keeps _

/-- the plan in plain code, -/
theorem keeps_inCode (mode : Mode) (g : Glyph) (rest : List Glyph) :
    (inCode mode n g rest).Keeps inherited (g :: rest) := by
  unfold inCode
  split
  · exact (calm_name h _).keeps _
  split
  · exact (calm_digits h _).keeps _
  · exact keeps_special h mode g rest

/-- and with that the plan at any glyph. -/
theorem keeps_atGlyph (mode : Mode) (g : Glyph) (rest : List Glyph) :
    (Plan.atGlyph mode n g rest).Keeps inherited (g :: rest) := by
  unfold Plan.atGlyph
  split
  · exact keeps_inRecipe h g rest
  split
  · exact keeps_inString h g rest
  · exact keeps_inCode (h.atGlyph g) mode g rest

end Calm

-- ============================================== right behind a sigil

namespace Nesting

/-- A call by a bare name is given up unless a name follows; what is
left is calm. -/
theorem calm_settle (hl : Layers inherited kinds n.stack)
    (ho : n.openerNext = false) (src : List Glyph)
    (hs : n.has .nameCall = true →
      ¬ src.head?.any Glyph.isLetter = true) :
    (n.settle src).Calm inherited (dropKind {.nameCall} kinds) := by
  have told := has_iff_of_layers hl (f := .nameCall) (by decide)
  unfold settle
  by_cases hn : n.has .nameCall = true
  · rw [if_pos (by simp [hn, hs hn])]
    exact ⟨hl.pop _ (by decide), hl.head_dropKind (fun _ => by decide), ho⟩
  · rw [if_neg (by simp [hn])]
    have head : kinds.head? ≠ some .nameCall := fun he => hn (told.2 he)
    have same : dropKind {.nameCall} kinds = kinds := by
      cases kinds with
      | nil => rfl
      | cons kind kinds =>
          refine dropKind_of_not_mem (fun hm => head ?_) kinds
          rw [Context.mem_singleton.1 hm, List.head?_cons]
    rw [same]
    exact ⟨hl, head, ho⟩

/-- Settling a call by a bare name keeps the layers. -/
theorem layers_settle (h : Layers inherited kinds n.stack)
    (src : List Glyph) :
    ∃ kinds, Layers inherited kinds (n.settle src).stack := by
  unfold settle
  split
  next =>
    have left := layers_leave h {.nameCall} (by decide)
    exact ⟨_, left⟩
  next => exact ⟨_, h⟩

/-- Settling changes nothing where no call by a bare name is open. -/
theorem settle_eq {src : List Glyph} (h : ¬ n.has .nameCall = true) :
    n.settle src = n := by
  unfold settle
  rw [if_neg (by simp [h])]

/-- Nor before a letter. -/
theorem settle_of_letter {g : Glyph} {rest : List Glyph}
    (h : g.isLetter = true) : n.settle (g :: rest) = n := by
  unfold settle
  rw [if_neg (by simp [h])]

/-- Before anything else such a call is left. -/
theorem settle_of_not_letter {g : Glyph} {rest : List Glyph}
    (h : g.isLetter = false) :
    n.settle (g :: rest) = n.leave {.nameCall} := by
  by_cases hn : n.has .nameCall = true
  · unfold settle
    rw [if_pos (by simp [hn, h])]
  · rw [settle_eq hn, leave_of_not_has hn]

/-- A flag of a construct holds only inside of one. -/
theorem isInside_of_has {f : Flag} (nested : f ∈ Context.nested)
    (h : n.has f = true) : n.isInside = true :=
  Context.meets_iff.2 ⟨f, has_iff.1 h, nested⟩

/-- Outside all constructs no flag of one holds. -/
theorem not_has_of_outside (outside : n.isInside = false) {f : Flag}
    (nested : f ∈ Context.nested) : ¬ n.has f = true := by
  intro held
  rw [isInside_of_has nested held] at outside
  cases outside

/-- Inside a construct a glyph ends no expectation. -/
theorem atGlyph_of_isInside (h : n.isInside = true) (g : Glyph) :
    n.atGlyph g = n := by
  unfold atGlyph
  rw [if_neg (by simp [h])]

/-- Where a flag of a construct holds, a glyph ends no expectation. -/
theorem atGlyph_of_has {f : Flag} (nested : f ∈ Context.nested)
    (h : n.has f = true) (g : Glyph) : n.atGlyph g = n :=
  atGlyph_of_isInside (isInside_of_has nested h) g

end Nesting

/-- Where neither a recipe line nor a string is innermost, the step is
one in code. -/
theorem atGlyph_of_code {mode : Mode} {g : Glyph} {rest : List Glyph}
    (hr : ¬ n.has .recipeLine = true) (hq : ¬ n.has .quoted = true) :
    Plan.atGlyph mode n g rest = inCode mode (n.atGlyph g) g rest := by
  unfold Plan.atGlyph
  rw [if_neg hr, if_neg hq]

/-- Calls and groups are code. -/
theorem next_of_code {mode : Mode} {g : Glyph} {rest : List Glyph}
    {kind : Flag} (hl : Layers inherited (kind :: kinds) n.stack)
    (hr : kind ≠ .recipeLine) (hq : kind ≠ .quoted)
    (hs : n.settle (g :: rest) = n) :
    next mode n (g :: rest) = inCode mode n g rest := by
  have other {f : Flag} (hf : f ∈ Context.kinds) (hk : kind ≠ f) :
      ¬ n.has f = true := by
    rw [Nesting.has_iff_of_layers hl hf, List.head?_cons]
    exact fun he => hk (Option.some.inj he)
  have inside : n.isInside = true :=
    (Nesting.isInside_iff_of_layers hl).2 (List.cons_ne_nil _ _)
  show Plan.atGlyph mode (n.settle (g :: rest)) g rest = _
  rw [hs, atGlyph_of_code (other (by decide) hr) (other (by decide) hq),
    n.atGlyph_of_isInside inside]

/-- The rule for each opening mark passes it when it is awaited. -/
theorem inCode_of_opener {g : Glyph} {flag : Flag}
    (hc : callAt (some g) = (flag, true)) :
    flag ≠ .recipeLine ∧ flag ≠ .quoted ∧ flag ≠ .nameCall
      ∧ ∀ (mode : Mode) (n : Nesting) (rest : List Glyph),
        n.openerNext = true → n.has flag = true →
        (inCode mode n g rest).nesting = n.passOpener := by
  unfold callAt at hc
  split at hc
  next hg =>
    cases hc
    obtain rfl := Option.some.inj hg
    refine ⟨nofun, nofun, nofun, fun mode n rest ho hf => ?_⟩
    show (leftParen n).nesting = n.passOpener
    simp [leftParen, mark, ho, hf]
  split at hc
  next hg =>
    cases hc
    obtain rfl := Option.some.inj hg
    refine ⟨nofun, nofun, nofun, fun mode n rest ho hf => ?_⟩
    show (leftBrace n).nesting = n.passOpener
    simp [leftBrace, mark, ho, hf]
  split at hc
  next hg =>
    cases hc
    obtain rfl := Option.some.inj hg
    refine ⟨nofun, nofun, nofun, fun mode n rest ho hf => ?_⟩
    show (colon n ((rest.take 2).map Glyph.char)).nesting = n.passOpener
    simp [colon, mark, ho, hf]
  next => cases hc

/-- The mark that opens the arguments of a call is passed, and nothing
else changes. -/
theorem next_of_opener {mode : Mode} {g : Glyph} {rest : List Glyph}
    (h : n.Sound inherited (g :: rest)) (ho : n.openerNext = true) :
    (next mode n (g :: rest)).nesting = n.passOpener := by
  obtain ⟨kinds, hl⟩ := h.layers
  obtain ⟨flag, hc, hf⟩ := h.opener ho
  obtain ⟨hrecipe, hquoted, hname, passes⟩ := inCode_of_opener hc
  have call := callAt_mem_call (some g)
  rw [show callAt (some g) = (flag, true) from hc] at call
  have head := (hl.mem_current_iff (mem_kinds_of_mem_call call)).1 hf
  obtain ⟨kinds, rfl⟩ := List.head?_eq_some_iff.1 head
  have unnamed : ¬ n.has .nameCall = true := by
    rw [Nesting.has_iff_of_layers hl (by decide), head]
    exact fun he => hname (Option.some.inj he)
  rw [next_of_code hl hrecipe hquoted (Nesting.settle_eq unnamed)]
  exact passes mode n rest ho (Nesting.has_iff.2 hf)

/-- The name that a call is by ends the call. -/
theorem next_of_name {mode : Mode} {g : Glyph} {rest : List Glyph}
    (hl : Layers inherited kinds n.stack) (hn : n.has .nameCall = true)
    (hg : g.isLetter = true) :
    next mode n (g :: rest) = name n (g :: rest) := by
  have head := (Nesting.has_iff_of_layers hl (by decide)).1 hn
  obtain ⟨kinds, rfl⟩ := List.head?_eq_some_iff.1 head
  rw [next_of_code hl (by decide) (by decide)
    (Nesting.settle_of_letter hg)]
  unfold inCode
  rw [if_pos hg]

/-- No opening mark is awaited at the end. -/
theorem Nesting.Sound.opener_nil (h : n.Sound inherited []) :
    n.openerNext = false := by
  cases ho : n.openerNext with
  | false => rfl
  | true =>
      obtain ⟨flag, hc, -⟩ := h.opener ho
      cases hc

/-- At the end all constructs are left. -/
theorem calm_next_nil {mode : Mode} (h : n.Sound inherited []) :
    (next mode n []).nesting.Calm inherited [] := by
  obtain ⟨kinds, hl⟩ := h.layers
  have calm := Nesting.calm_settle hl h.opener_nil [] (fun _ => by simp)
  exact ⟨calm.layers.unwind, by simp, calm.opener⟩

/-- A step at a sound place ends at a sound place. -/
theorem keeps_next {mode : Mode} {src : List Glyph}
    (h : n.Sound inherited src) :
    (next mode n src).Keeps inherited src := by
  obtain ⟨kinds, hl⟩ := h.layers
  cases src with
  | nil => exact (calm_next_nil h).sound _
  | cons g rest =>
      by_cases ho : n.openerNext = true
      · unfold Keeps
        rw [next_of_opener h ho]
        exact ⟨⟨kinds, hl⟩, nofun⟩
      · have hf : n.openerNext = false := Bool.eq_false_iff.2 ho
        by_cases hn : n.has .nameCall = true ∧ g.isLetter = true
        · rw [next_of_name hl hn.1 hn.2]
          have left := hl.pop {.nameCall} (by decide)
          refine ⟨⟨_, left⟩, fun ht => ?_⟩
          exact absurd (hf.symm.trans ht) Bool.false_ne_true
        · have calm := Nesting.calm_settle hl hf (g :: rest)
            (fun hc hg => hn ⟨hc, by simpa using hg⟩)
          exact keeps_atGlyph calm mode g rest

-- ============================================================ scanners

namespace Scanner

/-- The shape of the constructs around the place where a scanner stands,
with hash signs taken as its mode says. -/
def Sound (s : Scanner) : Prop :=
  ∃ inherited, s.nesting.Sound inherited s.rest
    ∧ (.commentsOff ∈ inherited ↔ s.mode.hashTokens = true)

/-- The context at the start is that of no construct. -/
theorem startContext_plain (mode : Mode) :
    startContext mode ∩ Context.nested = ∅ := by
  unfold startContext
  split
  · decide
  · decide

/-- Comments are off at the start exactly where hash signs are tokens. -/
theorem commentsOff_mem_startContext (mode : Mode) :
    .commentsOff ∈ startContext mode ∩ Context.inherited
      ↔ mode.hashTokens = true := by
  unfold startContext
  split
  next h => exact iff_of_true (by decide) h
  next h => exact iff_of_false (by decide) h

/-- At the start nothing is open. -/
theorem nesting_ofGlyphs (file : File) (mode : Mode) (src : List Glyph) :
    (ofGlyphs file mode src).nesting
        = { stack := { current := startContext mode } }
      ∧ (ofGlyphs file mode src).mode = mode := by
  rcases moved_ofGlyphs file mode src with ⟨-, moved⟩ | ⟨-, moved⟩
  · exact ⟨moved.nesting, moved.kin.mode⟩
  · exact ⟨moved.nesting, moved.kin.mode⟩

/-- A scanner at the start is sound. -/
theorem sound_ofGlyphs (file : File) (mode : Mode) (src : List Glyph) :
    (ofGlyphs file mode src).Sound := by
  obtain ⟨hn, hm⟩ := nesting_ofGlyphs file mode src
  refine ⟨startContext mode ∩ Context.inherited, ?_, ?_⟩
  · rw [hn]
    exact ⟨⟨[], Layers.ground (startContext_plain mode) rfl⟩, nofun⟩
  · rw [hm]
    exact commentsOff_mem_startContext mode

/-- A step keeps a scanner sound, -/
theorem Sound.perform {s : Scanner} (h : s.Sound) :
    (s.perform s.plan).Sound := by
  obtain ⟨inherited, hn, hm⟩ := h
  refine ⟨inherited, ?_, ?_⟩
  · rw [rest_perform, nesting_perform]
    exact keeps_next hn
  · rw [(s.kin_perform s.plan).mode]
    exact hm

/-- so does what follows on a token, -/
theorem Sound.afterToken {s : Scanner} (h : s.Sound) (endsLine : Bool) :
    Sound { s with nesting := s.nesting.afterToken endsLine } := by
  obtain ⟨inherited, hn, hm⟩ := h
  exact ⟨inherited, hn.afterToken endsLine, hm⟩

/-- The kind of a call that awaits its opening mark is not inherited. -/
theorem callAt_not_mem_inherited {next : Option Glyph} {flag : Flag}
    {opener : Bool} (h : callAt next = (flag, opener)) :
    flag ∉ Context.inherited := by
  have entered := callAt_mem_call next
  rw [h] at entered
  apply Context.not_mem_inherited
  exact Context.mem_nested.2 (Or.inl (mem_kinds_of_mem_call entered))

/-- Switching recipes does not change how hash signs are taken. -/
theorem commentsOff_mem_setFlags (c : Context) (on : Bool) :
    .commentsOff ∈ ContextStack.setFlags
        ({.recipesAllowed} ∩ Context.inherited) on c
      ↔ .commentsOff ∈ c := by
  have other : Flag.commentsOff
      ∉ ({.recipesAllowed} : Context) ∩ Context.inherited := by decide
  unfold ContextStack.setFlags
  cases on with
  | true =>
      rw [if_pos rfl, Context.mem_union]
      exact ⟨fun hc => hc.resolve_right other, Or.inl⟩
  | false =>
      rw [if_neg Bool.false_ne_true, Context.mem_sdiff]
      exact ⟨fun hc => hc.1, fun hc => ⟨hc, other⟩⟩

/-- switching recipes, -/
theorem Sound.setRecipes {s : Scanner} (h : s.Sound) (on : Bool) :
    (s.setRecipes on).Sound := by
  obtain ⟨inherited, hn, hm⟩ := h
  obtain ⟨kinds, hl⟩ := hn.layers
  have set := hl.setInherited {.recipesAllowed} on
  have same {f : Flag} (hf : f ∉ Context.inherited) :
      f ∈ (s.setRecipes on).nesting.stack.current
        ↔ f ∈ s.nesting.stack.current :=
    mem_setFlags hf
  refine ⟨_, ⟨⟨kinds, set⟩, ?_⟩, ?_⟩
  · intro ho
    obtain ⟨flag, hc, hf⟩ := hn.opener ho
    exact ⟨flag, hc, (same (callAt_not_mem_inherited hc)).2 hf⟩
  · rw [commentsOff_mem_setFlags]
    exact hm

/-- and with that a call. -/
theorem Sound.scan {s : Scanner} (h : s.Sound) : s.scan.2.Sound :=
  scan_preserves (fun _ hs => hs.perform)
    (fun _ ends hs => hs.afterToken ends) h

/-- Whatever a scanner was made to do, it is sound. -/
theorem Reachable.sound {s : Scanner} (h : Reachable s) : s.Sound :=
  h.invariant sound_ofGlyphs (fun _ hs => hs.perform)
    (fun _ endsLine hs => hs.afterToken endsLine)
    (fun _ on hs => hs.setRecipes on)

end Scanner

end BuildLexer
