/-
The shape of a stack of contexts.

Around every place there is a list of constructs, one inside the other,
and the stack of contexts says which: `Layers inherited kinds stack`
reads the list off the stack, innermost construct first. The context
outside all constructs has no flag of a construct, and each context
above it has the flag of exactly one kind; what is inherited is the same
at every level.

Two constructs are particular about where they stand. A recipe line is
opened outside everything, so it is always the outermost construct, and
a call by a bare name is over before anything else is opened, so it is
always the innermost. Both facts are part of the shape.

Pushing and popping contexts is then putting a kind in front of the list
and taking it off (`Layers.push`, `Layers.pop`), and a fact about lines
may change at the place without a change of shape (`Layers.place`).
-/
import BuildLexer.Context.Stack

namespace BuildLexer

namespace Context

-- ============================================================== groups

/-- What a construct is: one flag for each kind. -/
def kinds : Context := call ∪ {.group, .quoted, .recipeLine}

/-- The flags of constructs are the kinds and one that goes with a kind. -/
theorem mem_nested {f : Flag} :
    f ∈ nested ↔ f ∈ kinds ∨ f = .tripleQuoted := by
  cases f <;> decide

/-- No flag of a construct is inherited. -/
theorem not_mem_inherited {f : Flag} (h : f ∈ nested) :
    f ∉ inherited := by
  cases f <;> revert h <;> decide

/-- Facts about lines belong to no construct. -/
theorem lineStart_not_mem_nested : Flag.lineStart ∉ nested := by decide

theorem recipesExpected_not_mem_nested :
    Flag.recipesExpected ∉ nested := by decide

/-- Nothing meets what it has no flag of. -/
theorem meets_eq_false {a b : Context} (h : ∀ f : Flag, f ∈ a → f ∉ b) :
    a.meets b = false := by
  cases hm : a.meets b with
  | false => rfl
  | true =>
      obtain ⟨f, ha, hb⟩ := meets_iff.1 hm
      exact absurd hb (h f ha)

end Context

-- ========================================================== constructs

/-- A context inside a construct of some kind. -/
structure Construct (kind : Flag) (c : Context) : Prop where
  only : c ∩ Context.kinds = {kind}
  triple : .tripleQuoted ∈ c → kind = .quoted
  unexpecting : .recipesExpected ∉ c

namespace Construct

variable {kind : Flag} {c : Context}

/-- Of the flags for kinds, a construct has its own. -/
theorem mem_iff (h : Construct kind c) {f : Flag}
    (hf : f ∈ Context.kinds) : f ∈ c ↔ f = kind := by
  have member : f ∈ c ∩ Context.kinds ↔ f ∈ ({kind} : Context) := by
    rw [h.only]
  rw [Context.mem_inter, Context.mem_singleton] at member
  rw [← member]
  exact ⟨fun hc => ⟨hc, hf⟩, fun hc => hc.1⟩

theorem mem_kinds (h : Construct kind c) : kind ∈ Context.kinds := by
  have member : kind ∈ c ∩ Context.kinds := by
    rw [h.only, Context.mem_singleton]
  exact (Context.mem_inter.1 member).2

theorem mem (h : Construct kind c) : kind ∈ c :=
  (h.mem_iff h.mem_kinds).2 rfl

/-- A construct is told by flags for kinds exactly when its own is among
them. -/
theorem meets_iff (h : Construct kind c) {flags : Context}
    (hf : flags ⊆ Context.kinds) :
    c.meets flags = true ↔ kind ∈ flags := by
  rw [Context.meets_iff]
  constructor
  · intro h
    obtain ⟨f, hc, hm⟩ := h
    rw [← (h.mem_iff (Context.subset_iff.1 hf f hm)).1 hc]
    exact hm
  · intro hm
    exact ⟨kind, h.mem, hm⟩

theorem meets_nested (h : Construct kind c) :
    c.meets Context.nested = true :=
  Context.meets_iff.2
    ⟨kind, h.mem, Context.mem_nested.2 (Or.inl h.mem_kinds)⟩

end Construct

/-- The flags that a construct of some kind is opened with. -/
structure Opens (kind : Flag) (flags : Context) : Prop where
  only : flags ∩ Context.kinds = {kind}
  triple : .tripleQuoted ∈ flags → kind = .quoted
  nested : flags ⊆ Context.nested

/-- Most constructs are opened with the flag of their kind alone. -/
theorem opens_singleton {kind : Flag} (h : kind ∈ Context.kinds) :
    Opens kind {kind} where
  only := by
    apply Context.ext
    intro f
    rw [Context.mem_inter, Context.mem_singleton]
    constructor
    · intro hf
      exact hf.1
    · intro hf
      subst hf
      exact ⟨rfl, h⟩
  triple := by
    intro ht
    rw [Context.mem_singleton] at ht
    subst ht
    exact absurd h (by decide)
  nested := by
    rw [Context.subset_iff]
    intro f hf
    rw [Context.mem_singleton] at hf
    subst hf
    exact Context.mem_nested.2 (Or.inl h)

/-- What is opened is a construct of the kind, and inherits what was
inherited outside. -/
theorem Opens.construct {kind : Flag} {flags : Context}
    (h : Opens kind flags) (c : Context) :
    Construct kind (c ∩ Context.inherited ∪ flags)
      ∧ (c ∩ Context.inherited ∪ flags) ∩ Context.inherited
          = c ∩ Context.inherited := by
  have apart {f : Flag} (hf : f ∈ flags) : f ∉ Context.inherited :=
    Context.not_mem_inherited (Context.subset_iff.1 h.nested f hf)
  refine ⟨⟨?_, ?_, ?_⟩, ?_⟩
  · rw [← h.only]
    apply Context.ext
    intro f
    rw [Context.mem_inter, Context.mem_inter, Context.mem_union,
      Context.mem_inter]
    constructor
    · intro h
      rcases h with ⟨⟨-, hi⟩ | hf, hk⟩
      · exact absurd hi
          (Context.not_mem_inherited (Context.mem_nested.2 (Or.inl hk)))
      · exact ⟨hf, hk⟩
    · intro h
      obtain ⟨hf, hk⟩ := h
      exact ⟨Or.inr hf, hk⟩
  · intro ht
    rcases Context.mem_union.1 ht with hi | hf
    · exact absurd (Context.mem_inter.1 hi).2 (by decide)
    · exact h.triple hf
  · intro he
    rcases Context.mem_union.1 he with hi | hf
    · exact absurd (Context.mem_inter.1 hi).2 (by decide)
    · exact Context.recipesExpected_not_mem_nested
        (Context.subset_iff.1 h.nested _ hf)
  · apply Context.ext
    intro f
    rw [Context.mem_inter, Context.mem_union, Context.mem_inter]
    constructor
    · intro h
      rcases h with ⟨hc | hf, hi⟩
      · exact hc
      · exact absurd hi (apart hf)
    · intro hc
      exact ⟨Or.inl hc, hc.2⟩

-- ========================================================== inheritance

/-- Setting inherited flags leaves the others alone. -/
theorem mem_setFlags {flags c : Context} {on : Bool} {f : Flag}
    (hf : f ∉ Context.inherited) :
    f ∈ ContextStack.setFlags (flags ∩ Context.inherited) on c ↔ f ∈ c := by
  unfold ContextStack.setFlags
  cases on with
  | true =>
      rw [if_pos rfl, Context.mem_union, Context.mem_inter]
      exact ⟨fun h => h.elim id fun h => absurd h.2 hf, Or.inl⟩
  | false =>
      rw [if_neg Bool.false_ne_true, Context.mem_sdiff, Context.mem_inter]
      exact ⟨fun h => h.1, fun h => ⟨h, fun hi => hf hi.2⟩⟩

/-- So a group of flags that are not inherited stays the same. -/
theorem setFlags_inter {flags c group : Context} {on : Bool}
    (hg : ∀ f : Flag, f ∈ group → f ∉ Context.inherited) :
    ContextStack.setFlags (flags ∩ Context.inherited) on c ∩ group
      = c ∩ group := by
  apply Context.ext
  intro f
  rw [Context.mem_inter, Context.mem_inter]
  by_cases hf : f ∈ group
  · rw [mem_setFlags (hg f hf)]
  · exact iff_of_false (fun h => hf h.2) (fun h => hf h.2)

/-- Setting and inheriting commute. -/
theorem setFlags_inter_inherited (flags c : Context) (on : Bool) :
    ContextStack.setFlags (flags ∩ Context.inherited) on c
        ∩ Context.inherited
      = ContextStack.setFlags (flags ∩ Context.inherited) on
          (c ∩ Context.inherited) := by
  apply Context.ext
  intro f
  unfold ContextStack.setFlags
  cases on with
  | true =>
      rw [if_pos rfl, if_pos rfl]
      simp only [Context.mem_inter, Context.mem_union]
      constructor
      · intro h
        rcases h with ⟨hc | hf, hi⟩
        · exact Or.inl ⟨hc, hi⟩
        · exact Or.inr hf
      · intro h
        rcases h with ⟨hc, hi⟩ | hf
        · exact ⟨Or.inl hc, hi⟩
        · exact ⟨Or.inr hf, hf.2⟩
  | false =>
      rw [if_neg Bool.false_ne_true, if_neg Bool.false_ne_true]
      simp only [Context.mem_inter, Context.mem_sdiff]
      constructor
      · intro h
        obtain ⟨⟨hc, hn⟩, hi⟩ := h
        exact ⟨⟨hc, hi⟩, hn⟩
      · intro h
        obtain ⟨⟨hc, hi⟩, hn⟩ := h
        exact ⟨⟨hc, hn⟩, hi⟩

theorem Construct.setFlags {kind : Flag} {c : Context}
    (h : Construct kind c) (flags : Context) (on : Bool) :
    Construct kind
      (ContextStack.setFlags (flags ∩ Context.inherited) on c) where
  only := by
    rw [setFlags_inter fun f hf => Context.not_mem_inherited
      (Context.mem_nested.2 (Or.inl hf))]
    exact h.only
  triple := by
    rw [mem_setFlags (by decide)]
    exact h.triple
  unexpecting := by
    rw [mem_setFlags (by decide)]
    exact h.unexpecting

-- ============================================================== layers

/-- The kinds of the constructs that a stack is inside of, innermost
first, and what all its levels inherit. -/
inductive Layers (inherited : Context) : List Flag → ContextStack → Prop
  /-- Outside all constructs. -/
  | ground {c : Context} (plain : c ∩ Context.nested = ∅)
      (inherits : c ∩ Context.inherited = inherited) :
      Layers inherited [] { current := c }
  /-- Inside one more construct. -/
  | above {kind : Flag} {kinds : List Flag} {c : Context}
      {outer : ContextStack} (construct : Construct kind c)
      (inherits : c ∩ Context.inherited = inherited)
      (recipe : kind = .recipeLine → kinds = [])
      (name : kinds.head? ≠ some .nameCall)
      (below : Layers inherited kinds outer) :
      Layers inherited (kind :: kinds)
        { current := c, saved := outer.current :: outer.saved }

/-- The list without its first kind, when that is one of some flags. -/
def dropKind (flags : Context) : List Flag → List Flag
  | kind :: kinds => if kind ∈ flags then kinds else kind :: kinds
  | [] => []

theorem dropKind_of_mem {flags : Context} {kind : Flag}
    (h : kind ∈ flags) (kinds : List Flag) :
    dropKind flags (kind :: kinds) = kinds := if_pos h

theorem dropKind_of_not_mem {flags : Context} {kind : Flag}
    (h : kind ∉ flags) (kinds : List Flag) :
    dropKind flags (kind :: kinds) = kind :: kinds := if_neg h

namespace Layers

variable {inherited : Context} {kinds : List Flag} {s : ContextStack}

/-- There are as many constructs as saved contexts. -/
theorem depth_eq (h : Layers inherited kinds s) :
    s.depth = kinds.length := by
  induction h with
  | ground => rfl
  | above _ _ _ _ _ ih =>
      rw [List.length_cons, ← ih]
      rfl

theorem inherits_current (h : Layers inherited kinds s) :
    s.current ∩ Context.inherited = inherited := by
  cases h with
  | ground _ inherits => exact inherits
  | above _ inherits _ _ _ => exact inherits

/-- Outside all constructs no flag of one holds. -/
theorem not_mem_nested (h : Layers inherited [] s) {f : Flag}
    (hf : f ∈ Context.nested) : f ∉ s.current := by
  cases h with
  | ground plain _ =>
      intro hc
      exact Context.eq_empty_iff.1 plain f (Context.mem_inter.2 ⟨hc, hf⟩)

/-- Inside constructs the innermost has its context. -/
theorem construct_current {kind : Flag}
    (h : Layers inherited (kind :: kinds) s) :
    Construct kind s.current := by
  cases h with
  | above construct _ _ _ _ => exact construct

/-- A flag of a kind holds at the place exactly when the innermost
construct is of the kind. -/
theorem mem_current_iff (h : Layers inherited kinds s) {f : Flag}
    (hf : f ∈ Context.kinds) :
    f ∈ s.current ↔ kinds.head? = some f := by
  cases kinds with
  | nil =>
      refine iff_of_false (h.not_mem_nested ?_) (by simp)
      exact Context.mem_nested.2 (Or.inl hf)
  | cons kind kinds =>
      rw [h.construct_current.mem_iff hf, List.head?_cons,
        Option.some.injEq, eq_comm]

/-- Whether the place is inside a construct. -/
theorem meets_nested_iff (h : Layers inherited kinds s) :
    s.current.meets Context.nested = true ↔ kinds ≠ [] := by
  cases kinds with
  | nil =>
      refine iff_of_false ?_ (fun hn => hn rfl)
      rw [Context.meets_iff]
      intro h
      obtain ⟨f, hc, hf⟩ := h
      exact h.not_mem_nested hf hc
  | cons kind kinds =>
      exact iff_of_true h.construct_current.meets_nested
        (List.cons_ne_nil _ _)

-- ============================================================ the place

/-- Facts about lines may change at the place, as long as recipes are
not expected inside a construct all of a sudden. -/
theorem place (h : Layers inherited kinds s) {c : Context}
    (same : ∀ f : Flag, f ≠ .lineStart → f ≠ .recipesExpected →
      (f ∈ c ↔ f ∈ s.current))
    (less : kinds ≠ [] → .recipesExpected ∈ c →
      .recipesExpected ∈ s.current) :
    Layers inherited kinds { s with current := c } := by
  have agree {group : Context} (hl : Flag.lineStart ∉ group)
      (hr : Flag.recipesExpected ∉ group) :
      c ∩ group = s.current ∩ group := by
    apply Context.ext
    intro f
    rw [Context.mem_inter, Context.mem_inter]
    by_cases hf : f ∈ group
    · rw [same f (fun e => hl (e ▸ hf)) (fun e => hr (e ▸ hf))]
    · exact iff_of_false (fun h => hf h.2) (fun h => hf h.2)
  cases h with
  | ground plain inherits =>
      refine Layers.ground ?_ ?_
      · rw [agree (by decide) (by decide)]
        exact plain
      · rw [agree (by decide) (by decide)]
        exact inherits
  | above construct inherits recipe name below =>
      refine Layers.above ⟨?_, ?_, ?_⟩ ?_ recipe name below
      · rw [agree (by decide) (by decide)]
        exact construct.only
      · rw [same _ (by decide) (by decide)]
        exact construct.triple
      · intro he
        exact construct.unexpecting (less (List.cons_ne_nil _ _) he)
      · rw [agree (by decide) (by decide)]
        exact inherits

-- ================================================ entering and leaving

theorem push (h : Layers inherited kinds s) {kind : Flag}
    {flags : Context} (opens : Opens kind flags)
    (recipe : kind = .recipeLine → kinds = [])
    (name : kinds.head? ≠ some .nameCall) :
    Layers inherited (kind :: kinds) (s.push flags) := by
  obtain ⟨construct, inherits⟩ := opens.construct s.current
  exact Layers.above construct (inherits.trans h.inherits_current) recipe
    name h

/-- Leaving outside all constructs leaves nothing. -/
theorem pop_ground (h : Layers inherited [] s) {flags : Context}
    (hf : flags ⊆ Context.kinds) : s.pop flags = s := by
  have misses : s.current.meets flags = false := by
    refine Context.meets_eq_false fun f hc hm => ?_
    exact h.not_mem_nested
      (Context.mem_nested.2 (Or.inl (Context.subset_iff.1 hf f hm))) hc
  simp [ContextStack.pop, ContextStack.pop?, misses]

theorem pop (h : Layers inherited kinds s) (flags : Context)
    (hf : flags ⊆ Context.kinds) :
    Layers inherited (dropKind flags kinds) (s.pop flags) := by
  cases kinds with
  | nil =>
      rw [h.pop_ground hf]
      exact h
  | cons kind kinds =>
      have told := h.construct_current.meets_iff hf
      by_cases hk : kind ∈ flags
      · rw [dropKind_of_mem hk]
        have hits := told.2 hk
        cases h with
        | above _ _ _ _ below =>
            simp only [ContextStack.pop, ContextStack.pop?] at hits ⊢
            rw [if_pos hits]
            exact below
      · rw [dropKind_of_not_mem hk]
        have misses : ¬ s.current.meets flags = true := fun hm =>
          hk (told.1 hm)
        simp only [ContextStack.pop, ContextStack.pop?]
        rw [if_neg misses]
        exact h

/-- What is uncovered by leaving is no call by a bare name. -/
theorem head_dropKind (h : Layers inherited kinds s) {flags : Context}
    (hn : kinds.head? = some .nameCall → .nameCall ∈ flags) :
    (dropKind flags kinds).head? ≠ some .nameCall := by
  cases h with
  | ground => simp [dropKind]
  | @above kind kinds c outer construct inherits recipe name below =>
      by_cases hk : kind ∈ flags
      · rw [dropKind_of_mem hk]
        exact name
      · rw [dropKind_of_not_mem hk]
        intro he
        obtain rfl := Option.some.inj he
        exact hk (hn rfl)

/-- The separator of a call by colons leads from the first part to the
second. -/
theorem replace (h : Layers inherited (.colonCallLeft :: kinds) s) :
    Layers inherited (.colonCallRight :: kinds)
      (s.replace {.colonCallLeft} {.colonCallRight}) := by
  cases h with
  | above construct inherits recipe name below =>
      refine Layers.above ⟨?_, ?_, ?_⟩ ?_ (by simp) name below
      · apply Context.ext
        intro f
        rw [Context.mem_inter, Context.mem_union, Context.mem_sdiff,
          Context.mem_singleton, Context.mem_singleton]
        constructor
        · intro h
          rcases h with ⟨⟨hc, hne⟩ | hf, hk⟩
          · exact absurd ((construct.mem_iff hk).1 hc) hne
          · exact hf
        · intro he
          subst he
          exact ⟨Or.inr rfl, by decide⟩
      · intro ht
        simp only [Context.mem_union, Context.mem_sdiff,
          Context.mem_singleton, reduceCtorEq, or_false] at ht
        exact absurd (construct.triple ht.1) (by decide)
      · intro he
        simp only [Context.mem_union, Context.mem_sdiff,
          Context.mem_singleton, reduceCtorEq, or_false] at he
        exact construct.unexpecting he.1
      · rw [← inherits]
        apply Context.ext
        intro f
        rw [Context.mem_inter, Context.mem_inter, Context.mem_union,
          Context.mem_sdiff, Context.mem_singleton, Context.mem_singleton]
        constructor
        · intro h
          rcases h with ⟨⟨hc, -⟩ | rfl, hi⟩
          · exact ⟨hc, hi⟩
          · exact absurd hi (by decide)
        · intro h
          obtain ⟨hc, hi⟩ := h
          refine ⟨Or.inl ⟨hc, ?_⟩, hi⟩
          intro he
          subst he
          exact absurd hi (by decide)

-- ========================================================= all levels

/-- Inherited flags can be set without a change of shape. -/
theorem setInherited (h : Layers inherited kinds s) (flags : Context)
    (on : Bool) :
    Layers
      (ContextStack.setFlags (flags ∩ Context.inherited) on inherited)
      kinds (s.setInherited flags on) := by
  induction h with
  | ground plain inherits =>
      refine Layers.ground ?_ ?_
      · rw [setFlags_inter fun f => Context.not_mem_inherited]
        exact plain
      · rw [setFlags_inter_inherited, inherits]
  | @above _ _ c _ construct inherits recipe name below ih =>
      have inherits' := setFlags_inter_inherited flags c on
      rw [inherits] at inherits'
      have set := Layers.above (construct.setFlags flags on) inherits'
        recipe name ih
      exact set

/-- Inherited flags may be set before a construct is left or after. -/
theorem pop_setInherited (h : Layers inherited kinds s) {told : Context}
    (ht : told ⊆ Context.kinds) (flags : Context) (on : Bool) :
    (s.setInherited flags on).pop told
      = (s.pop told).setInherited flags on := by
  have set := h.setInherited flags on
  cases h with
  | ground plain inherits =>
      rw [set.pop_ground ht, (Layers.ground plain inherits).pop_ground ht]
  | @above kind kinds c outer construct _ _ _ _ =>
      have left := construct.meets_iff ht
      have left' := set.construct_current.meets_iff ht
      unfold ContextStack.setInherited at left'
      unfold ContextStack.setInherited ContextStack.pop ContextStack.pop?
      by_cases hk : kind ∈ told
      · rw [if_pos (left.2 hk), if_pos (left'.2 hk)]
        rfl
      · rw [if_neg fun hm => hk (left.1 hm),
          if_neg fun hm => hk (left'.1 hm)]
        rfl

/-- Leaving all constructs ends outside of them. -/
theorem unwind (h : Layers inherited kinds s) :
    Layers inherited [] s.unwind.1 := by
  induction h with
  | ground plain inherits => exact Layers.ground plain inherits
  | above construct inherits recipe name below ih =>
      unfold ContextStack.unwind ContextStack.unwindFrom
      rw [if_pos construct.meets_nested]
      exact ih

end Layers

end BuildLexer
