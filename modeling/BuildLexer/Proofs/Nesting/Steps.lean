/-
Every step keeps the shape of the constructs around the place.

Between two steps the scanner can be right behind a sigil, with a call
just entered: either the mark that opens its arguments is next, or it is
a call by a bare name. Everywhere else it is calm (`Nesting.Calm`): the
innermost construct is no call by a bare name and no opening mark is
awaited. A step at a calm place is one operation on the shape, so each
rule of `Plan` gets a line here, and only the rule for sigils can end at
a place that is not calm (`Nesting.Sound`). A step at such a place makes
it calm again, whatever follows the sigil (`keeps_next`).
-/
import BuildLexer.Plan.Step
import BuildLexer.Proofs.Nesting.Layers
import BuildLexer.Proofs.Scanner.Effect

namespace BuildLexer

open Plan

-- ============================================================== places

/-- A place that is not right behind the sigil of a call. -/
structure Nesting.Calm (inherited : Context) (kinds : List Flag)
    (n : Nesting) : Prop where
  layers : Layers inherited kinds n.stack
  name : kinds.head? ≠ some .nameCall
  opener : n.openerNext = false

/-- A place between two steps: when an opening mark is awaited, it is the
next glyph and the innermost construct is the call it belongs to. -/
structure Nesting.Sound (inherited : Context) (src : List Glyph)
    (n : Nesting) : Prop where
  layers : ∃ kinds, Layers inherited kinds n.stack
  opener : n.openerNext = true →
    ∃ flag, callAt src.head? = (flag, true) ∧ flag ∈ n.stack.current

variable {inherited : Context} {kinds : List Flag} {n : Nesting}

/-- A calm place is sound, whatever is ahead. -/
theorem Nesting.Calm.sound (h : n.Calm inherited kinds)
    (src : List Glyph) : n.Sound inherited src where
  layers := ⟨kinds, h.layers⟩
  opener := by
    intro ho
    rw [h.opener] at ho
    cases ho

namespace Nesting

/-- A flag holds at a place when it is in the innermost context. -/
theorem has_iff {f : Flag} : n.has f = true ↔ f ∈ n.stack.current :=
  decide_eq_true_iff

/-- What holds at the place tells the innermost construct. -/
theorem has_iff_of_layers (h : Layers inherited kinds n.stack) {f : Flag}
    (hf : f ∈ Context.kinds) : n.has f = true ↔ kinds.head? = some f :=
  has_iff.trans (h.mem_current_iff hf)

/-- Nothing is left where there is nothing of the kind. -/
theorem leave_of_not_has {f : Flag} (h : ¬ n.has f = true) :
    n.leave {f} = n := by
  have misses : n.stack.current.meets {f} = false := by
    refine Context.meets_eq_false fun g hg hm => h ?_
    rw [Context.mem_singleton] at hm
    subst hm
    exact has_iff.2 hg
  simp [leave, ContextStack.pop, ContextStack.pop?, misses]

/-- A place is inside something when the shape has a kind. -/
theorem isInside_iff_of_layers (h : Layers inherited kinds n.stack) :
    n.isInside = true ↔ kinds ≠ [] := h.meets_nested_iff

-- ================================================= facts about the line

/-- A flag more at the place is one more in the innermost context. -/
theorem mem_insert {f g : Flag} :
    g ∈ (n.insert f).stack.current ↔ g ∈ n.stack.current ∨ g = f := by
  unfold insert ContextStack.insert
  rw [Context.mem_union, Context.mem_singleton]

theorem mem_remove {f g : Flag} :
    g ∈ (n.remove f).stack.current ↔ g ∈ n.stack.current ∧ g ≠ f := by
  unfold remove ContextStack.remove
  rw [Context.mem_sdiff, Context.mem_singleton]

/-- What has been read is only known as to the start of a line. -/
theorem mem_afterToken {f : Flag} (hf : f ≠ .lineStart) (endsLine : Bool) :
    f ∈ (n.afterToken endsLine).stack.current ↔ f ∈ n.stack.current := by
  unfold afterToken
  split
  · rw [mem_insert]
    exact ⟨fun h => h.resolve_right hf, Or.inl⟩
  · rw [mem_remove]
    exact ⟨fun h => h.1, fun h => ⟨h, hf⟩⟩

/-- What a sigil awaits is not changed by the token. -/
theorem opener_afterToken (n : Nesting) (endsLine : Bool) :
    (n.afterToken endsLine).openerNext = n.openerNext := by
  unfold afterToken
  split <;> rfl

/-- Leaving drops the innermost kind if it is one of those named. -/
theorem layers_leave (h : Layers inherited kinds n.stack)
    (flags : Context) (hf : flags ⊆ Context.kinds) :
    Layers inherited (dropKind flags kinds) (n.leave flags).stack :=
  h.pop flags hf

/-- A fact about the line may change at the place. -/
theorem layers_remove (h : Layers inherited kinds n.stack) {f : Flag}
    (hf : f = .lineStart ∨ f = .recipesExpected) :
    Layers inherited kinds (n.remove f).stack := by
  refine h.place ?_ ?_
  · intro g hl hr
    refine mem_remove.trans ⟨fun hc => hc.1, fun hc => ⟨hc, ?_⟩⟩
    intro he
    subst he
    exact hf.elim hl hr
  · intro _ he
    exact (mem_remove.1 he).1

/-- The shape is the same once a token has been read. -/
theorem layers_afterToken (h : Layers inherited kinds n.stack)
    (endsLine : Bool) :
    Layers inherited kinds (n.afterToken endsLine).stack := by
  cases endsLine with
  | true =>
      refine h.place (fun f hl _ => ?_) (fun _ he => ?_)
      · exact mem_afterToken hl true
      · exact (mem_afterToken (by decide) true).1 he
  | false => exact layers_remove h (Or.inl rfl)

/-- Once a token has been read the place is as sound as before. -/
theorem Sound.afterToken {src : List Glyph} (h : n.Sound inherited src)
    (endsLine : Bool) : (n.afterToken endsLine).Sound inherited src where
  layers := by
    obtain ⟨kinds, hl⟩ := h.layers
    exact ⟨kinds, layers_afterToken hl endsLine⟩
  opener := by
    intro ho
    rw [opener_afterToken] at ho
    obtain ⟨flag, hc, hf⟩ := h.opener ho
    refine ⟨flag, hc, (mem_afterToken ?_ endsLine).2 hf⟩
    intro he
    subst he
    unfold callAt at hc
    split at hc
    · cases hc
    split at hc
    · cases hc
    split at hc
    · cases hc
    · cases hc

-- ================================================ at a place that is calm

namespace Calm

theorem has_iff (h : n.Calm inherited kinds) {f : Flag}
    (hf : f ∈ Context.kinds) : n.has f = true ↔ kinds.head? = some f :=
  has_iff_of_layers h.layers hf

/-- A place that is not inside anything. -/
theorem eq_nil (h : n.Calm inherited kinds) (hi : ¬ n.isInside = true) :
    kinds = [] := by
  cases kinds with
  | nil => rfl
  | cons kind kinds =>
      exact absurd
        ((isInside_iff_of_layers h.layers).2 (List.cons_ne_nil _ _)) hi

/-- A call by a bare name is not innermost. -/
theorem not_nameCall (h : n.Calm inherited kinds) :
    ¬ n.has .nameCall = true := by
  rw [h.has_iff (by decide)]
  exact h.name

/-- A calm place is calm once a token has been read. -/
theorem afterToken (h : n.Calm inherited kinds) (endsLine : Bool) :
    (n.afterToken endsLine).Calm inherited kinds where
  layers := layers_afterToken h.layers endsLine
  name := h.name
  opener := (opener_afterToken n endsLine).trans h.opener

/-- Outside all constructs recipes may come to be expected. -/
theorem afterRule (h : n.Calm inherited kinds) :
    n.afterRule.Calm inherited kinds := by
  unfold Nesting.afterRule
  split
  next => exact h
  next hi =>
    have outside := h.eq_nil hi
    refine ⟨h.layers.place ?_ ?_, h.name, h.opener⟩
    · intro f _ hr
      exact mem_insert.trans ⟨fun hc => hc.resolve_right hr, Or.inl⟩
    · intro hk
      exact absurd outside hk

/-- They cease to be expected anywhere. -/
theorem atGlyph (h : n.Calm inherited kinds) (g : Glyph) :
    (n.atGlyph g).Calm inherited kinds := by
  unfold Nesting.atGlyph
  split
  · exact ⟨layers_remove h.layers (Or.inr rfl), h.name, h.opener⟩
  · exact h

/-- Entering a construct is calm, unless it is a call by a bare name. -/
theorem enter (h : n.Calm inherited kinds) {kind : Flag}
    {flags : Context} (opens : Opens kind flags)
    (recipe : kind = .recipeLine → kinds = [])
    (name : kind ≠ .nameCall) :
    (n.enter flags).Calm inherited (kind :: kinds) where
  layers := h.layers.push opens recipe h.name
  name := by
    rw [List.head?_cons]
    exact fun he => name (Option.some.inj he)
  opener := h.opener

/-- Leaving one is calm. -/
theorem leave (h : n.Calm inherited kinds) (flags : Context)
    (hf : flags ⊆ Context.kinds) :
    (n.leave flags).Calm inherited (dropKind flags kinds) where
  layers := layers_leave h.layers flags hf
  name := h.layers.head_dropKind fun hn => absurd hn h.name
  opener := h.opener

end Calm

end Nesting

-- =============================================================== groups

theorem opens_tripleQuoted : Opens .quoted {.quoted, .tripleQuoted} :=
  ⟨by decide, by decide, by decide⟩

theorem opens_group : Opens .group {.group} := opens_singleton (by decide)

/-- Whatever follows a sigil, what is entered is a call. -/
theorem callAt_mem_call (next : Option Glyph) :
    (callAt next).1 ∈ Context.call := by
  unfold callAt
  split
  · decide
  split
  · decide
  split
  · decide
  · decide

/-- What a call is opened by is a kind of construct. -/
theorem mem_kinds_of_mem_call {f : Flag} (h : f ∈ Context.call) :
    f ∈ Context.kinds := Context.mem_union.2 (Or.inl h)

-- ==================================================== rules, one by one

/-- A place from which the next step starts calm. -/
def Nesting.IsCalm (inherited : Context) (n : Nesting) : Prop :=
  ∃ kinds, n.Calm inherited kinds

/-- A plan that ends at a sound place. -/
def Plan.Keeps (inherited : Context) (src : List Glyph) (p : Plan) :
    Prop := p.nesting.Sound inherited (p.leaves src)

/-- A step that ends calm ends sound. -/
theorem Nesting.IsCalm.keeps {p : Plan} (h : p.nesting.IsCalm inherited)
    (src : List Glyph) : p.Keeps inherited src := by
  obtain ⟨kinds, h⟩ := h
  exact h.sound _

section Rules

variable (h : n.Calm inherited kinds)

include h

/-- A name ends the call that it names, and nothing else. -/
theorem calm_name (src : List Glyph) :
    (name n src).nesting.IsCalm inherited :=
  ⟨_, h.leave _ (by decide)⟩

/-- A literal of digits leaves the constructs as they are. -/
theorem calm_digits (src : List Glyph) :
    (digits n src).nesting.IsCalm inherited := by
  unfold digits
  split
  · exact ⟨_, h⟩
  · exact ⟨_, h⟩

/-- An opening quote enters a string. -/
theorem calm_openString (src : List Glyph) :
    (openString n src).nesting.IsCalm inherited := by
  unfold openString
  split
  · exact ⟨_, h.enter opens_tripleQuoted nofun (by decide)⟩
  · exact ⟨_, h.enter (opens_singleton (by decide)) nofun (by decide)⟩

/-- A line end leaves a call by colons, if it is in one. -/
theorem calm_lineEnd : (lineEnd n).nesting.IsCalm inherited := by
  unfold lineEnd
  split
  · exact ⟨_, h.leave _ (by decide)⟩
  · exact ⟨_, h⟩

/-- A hash sign leaves the constructs as they are, with or without a
comment. -/
theorem calm_hash (mode : Mode) (src : List Glyph) :
    (Plan.hash mode n src).nesting.IsCalm inherited := by
  unfold Plan.hash
  split
  · exact ⟨_, h⟩
  split
  · exact ⟨_, h⟩
  · exact ⟨_, h⟩

theorem calm_backslash (rest : List Glyph) :
    (backslash n rest).nesting.IsCalm inherited := by
  unfold backslash
  split
  · exact ⟨_, h⟩
  · exact ⟨_, h⟩

/-- So does an operator. -/
theorem calm_operator (g : Glyph) (rest : List Glyph) :
    (operator n g rest).nesting.IsCalm inherited := by
  unfold operator
  split
  · exact ⟨_, h⟩
  · exact ⟨_, h⟩

/-- A tab that opens a recipe line does so outside all constructs. -/
theorem calm_recipe (opens : n.opensRecipe = true) (rest : List Glyph) :
    (recipe n rest).nesting.IsCalm inherited := by
  have outside : kinds = [] := by
    refine h.eq_nil fun inside => ?_
    simp [Nesting.opensRecipe, inside] at opens
  have opened : Opens .recipeLine {.recipeLine} :=
    opens_singleton (by decide)
  exact ⟨_, h.enter opened (fun _ => outside) (by decide)⟩

/-- A colon outside calls opens a bracket, ends the head of a rule, or
assigns. -/
theorem calm_ruleColon (next : List Char) :
    (ruleColon n next).nesting.IsCalm inherited := by
  have bracket : (n.enter {.colonCallLeft}).IsCalm inherited :=
    ⟨_, h.enter (opens_singleton (by decide)) nofun (by decide)⟩
  unfold ruleColon
  split
  · exact ⟨_, h⟩
  · exact ⟨_, h⟩
  · exact ⟨_, h.afterRule⟩
  · exact bracket
  · exact bracket
  · exact bracket
  · exact ⟨_, h.afterRule⟩

/-- A colon in a call by colons leads to its second part or ends the
call. -/
theorem calm_colon (next : List Char) :
    (colon n next).nesting.IsCalm inherited := by
  unfold colon
  split
  next hl =>
    rw [if_neg (by rw [h.opener]; exact Bool.false_ne_true)]
    have left := (h.has_iff (by decide)).1 hl
    obtain ⟨rest, rfl⟩ : ∃ rest, kinds = .colonCallLeft :: rest :=
      List.head?_eq_some_iff.1 left
    exact ⟨_, h.layers.replace, by simp, h.opener⟩
  next =>
    split
    · exact ⟨_, h.leave _ (by decide)⟩
    · exact calm_ruleColon h next

/-- A closing bracket may end what a colon has opened. -/
theorem calm_rightBracket (next : List Char) :
    (rightBracket n next).nesting.IsCalm inherited := by
  unfold rightBracket
  split
  · exact ⟨_, (h.leave _ (by decide)).afterRule⟩
  · exact ⟨_, h⟩

/-- A parenthesis opens a group where no call awaits it. -/
theorem calm_leftParen : (leftParen n).nesting.IsCalm inherited := by
  unfold leftParen
  rw [h.opener, Bool.false_and, if_neg Bool.false_ne_true]
  exact ⟨_, h.enter opens_group nofun (by decide)⟩

/-- So does a brace, but only in a call. -/
theorem calm_leftBrace : (leftBrace n).nesting.IsCalm inherited := by
  unfold leftBrace
  rw [h.opener, Bool.false_and, if_neg Bool.false_ne_true]
  split
  · exact ⟨_, h.enter opens_group nofun (by decide)⟩
  · exact ⟨_, h⟩

/-- Behind a sigil the place may be anything but unsound. -/
theorem keeps_reference (sigil : Sigil) (g : Glyph) (rest : List Glyph) :
    (reference sigil n rest).Keeps inherited (g :: rest) := by
  unfold reference
  split
  next => exact h.sound _
  next =>
    have entered := callAt_mem_call rest.head?
    have opens := opens_singleton (mem_kinds_of_mem_call entered)
    constructor
    · refine ⟨_, h.layers.push opens ?_ h.name⟩
      intro he
      rw [he] at entered
      exact absurd entered (by decide)
    · intro ho
      refine ⟨(callAt rest.head?).1, ?_, ?_⟩
      · exact Prod.ext rfl ho
      · exact Context.mem_union.2 (Or.inr (Context.mem_singleton.2 rfl))

/-- In a text a doubled sigil is itself, and any other one refers. -/
theorem keeps_referenceInText (sigil : Sigil) (g : Glyph)
    (rest : List Glyph) :
    (referenceInText sigil n rest).Keeps inherited (g :: rest) := by
  unfold referenceInText
  split
  · exact h.sound _
  · exact keeps_reference h sigil g rest

end Rules

end BuildLexer
