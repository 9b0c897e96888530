/-
What the stack of contexts looks like in every state that a scanner can
be brought into, said of the levels themselves: level 0 is the active
context and level `depth` the one outside all constructs.

The facts are read off `Layers`, which says the same once and for all:
a level below the depth is the context of a construct, the level at the
depth is that of plain code (`Layers.level`), and two kinds stand where
they must (`Layers.recipe_outermost`, `Layers.name_innermost`).
-/
import BuildLexer.Proofs.Nesting.Sound

namespace BuildLexer

/-- The contexts of a stack, from the active one outwards. -/
def ContextStack.levels (s : ContextStack) : List Context :=
  s.current :: s.saved

/-- What each level of a stack may hold. -/
structure ContextStack.WellLayered (s : ContextStack) : Prop where
  /-- The bottom has no flag of a construct. -/
  bottom : ∀ c : Context, s.levels[s.depth]? = some c →
    ∀ f : Flag, f ∈ Context.nested → f ∉ c
  /-- Every level above has exactly one of the kinds. -/
  kind : ∀ (j : Nat) (c : Context), j < s.depth →
    s.levels[j]? = some c →
    ∃ k : Flag, k ∈ Context.kinds ∧ ∀ f : Flag, f ∈ Context.kinds →
      (f ∈ c ↔ f = k)
  /-- Three quotes are a way for a string to be opened. -/
  triple : ∀ (j : Nat) (c : Context), s.levels[j]? = some c →
    Flag.tripleQuoted ∈ c → Flag.quoted ∈ c
  /-- Inherited flags are the same everywhere. -/
  agree : ∀ (j : Nat) (c : Context), s.levels[j]? = some c →
    ∀ f : Flag, f ∈ Context.inherited → (f ∈ c ↔ f ∈ s.current)
  /-- Recipes are expected at the bottom only. -/
  expected : ∀ (j : Nat) (c : Context), s.levels[j]? = some c →
    Flag.recipesExpected ∈ c → j = s.depth
  /-- A recipe line is directly above the bottom. -/
  recipe : ∀ (j : Nat) (c : Context), s.levels[j]? = some c →
    Flag.recipeLine ∈ c → j + 1 = s.depth
  /-- A call by a bare name is active. -/
  name : ∀ (j : Nat) (c : Context), s.levels[j]? = some c →
    Flag.nameCall ∈ c → j = 0

/-- When the opening mark of a call is awaited, the active context is of
that call and the mark is the next glyph. -/
def Scanner.OpenerAhead (s : Scanner) : Prop :=
  s.nesting.openerNext = true →
    (.parenCall ∈ s.context ∧ s.rest.head? = some (.scalar '('))
      ∨ (.braceCall ∈ s.context ∧ s.rest.head? = some (.scalar '\x7b'))
      ∨ (.colonCallLeft ∈ s.context ∧ s.rest.head? = some (.scalar ':'))

namespace Layers

variable {inherited : Context} {kinds : List Flag} {s : ContextStack}

/-- Each level is the context of the construct at its place in the list,
or the one outside all of them. -/
theorem level (h : Layers inherited kinds s) {j : Nat} {c : Context}
    (hj : s.levels[j]? = some c) :
    c ∩ Context.inherited = inherited
      ∧ ((∃ k, kinds[j]? = some k ∧ Construct k c)
        ∨ (j = kinds.length ∧ c ∩ Context.nested = ∅)) := by
  induction h generalizing j with
  | ground plain inherits =>
      cases j with
      | zero =>
          obtain rfl := Option.some.inj hj
          exact ⟨inherits, Or.inr ⟨rfl, plain⟩⟩
      | succ j => cases hj
  | above construct inherits _ _ _ ih =>
      cases j with
      | zero =>
          obtain rfl := Option.some.inj hj
          exact ⟨inherits, Or.inl ⟨_, rfl, construct⟩⟩
      | succ j =>
          obtain ⟨hi, hc⟩ := ih hj
          refine ⟨hi, ?_⟩
          rcases hc with hc | ⟨hlen, hp⟩
          · exact Or.inl hc
          · exact Or.inr ⟨congrArg (· + 1) hlen, hp⟩

theorem recipe_outermost (h : Layers inherited kinds s) {j : Nat}
    (hj : kinds[j]? = some .recipeLine) : j + 1 = kinds.length := by
  induction h generalizing j with
  | ground => cases hj
  | above _ _ recipe _ _ ih =>
      cases j with
      | zero =>
          rw [recipe (Option.some.inj hj)]
          rfl
      | succ j => exact congrArg (· + 1) (ih hj)

theorem name_innermost (h : Layers inherited kinds s) {j : Nat}
    (hj : kinds[j]? = some .nameCall) : j = 0 := by
  induction h generalizing j with
  | ground => cases hj
  | above _ _ _ name _ ih =>
      cases j with
      | zero => rfl
      | succ j =>
          obtain rfl := ih hj
          rw [List.head?_eq_getElem?] at name
          exact absurd hj name

/-- A flag of a kind is at the level of a construct of that kind. -/
theorem level_of_mem (h : Layers inherited kinds s) {j : Nat}
    {c : Context} (hj : s.levels[j]? = some c) {f : Flag}
    (hf : f ∈ Context.kinds) (hc : f ∈ c) : kinds[j]? = some f := by
  rcases (h.level hj).2 with ⟨k, hk, construct⟩ | ⟨-, plain⟩
  · rw [(construct.mem_iff hf).1 hc]
    exact hk
  · have nested := Context.mem_nested.2 (Or.inl hf)
    exact absurd (Context.mem_inter.2 ⟨hc, nested⟩)
      (Context.eq_empty_iff.1 plain f)

/-- A stack of that shape is well layered. -/
theorem wellLayered (h : Layers inherited kinds s) : s.WellLayered where
  bottom := by
    intro c hj f hf hc
    rcases (h.level hj).2 with ⟨k, hk, -⟩ | ⟨-, plain⟩
    · rw [h.depth_eq, List.getElem?_eq_none (Nat.le_refl _)] at hk
      cases hk
    · exact Context.eq_empty_iff.1 plain f (Context.mem_inter.2 ⟨hc, hf⟩)
  kind := by
    intro j c hlt hj
    rcases (h.level hj).2 with ⟨k, -, construct⟩ | ⟨hlen, -⟩
    · exact ⟨k, construct.mem_kinds, fun f hf => construct.mem_iff hf⟩
    · rw [h.depth_eq, hlen] at hlt
      exact absurd hlt (Nat.lt_irrefl _)
  triple := by
    intro j c hj ht
    rcases (h.level hj).2 with ⟨k, -, construct⟩ | ⟨-, plain⟩
    · rw [← construct.triple ht]
      exact construct.mem
    · exact absurd (Context.mem_inter.2 ⟨ht, by decide⟩)
        (Context.eq_empty_iff.1 plain _)
  agree := by
    intro j c hj f hf
    have same : c ∩ Context.inherited
        = s.current ∩ Context.inherited := by
      rw [(h.level hj).1, h.inherits_current]
    have member : f ∈ c ∩ Context.inherited
        ↔ f ∈ s.current ∩ Context.inherited := by rw [same]
    rw [Context.mem_inter, Context.mem_inter] at member
    exact ⟨fun hc => (member.1 ⟨hc, hf⟩).1, fun hc => (member.2 ⟨hc, hf⟩).1⟩
  expected := by
    intro j c hj he
    rcases (h.level hj).2 with ⟨k, -, construct⟩ | ⟨hlen, -⟩
    · exact absurd he construct.unexpecting
    · rw [h.depth_eq]
      exact hlen
  recipe := by
    intro j c hj hr
    rw [h.depth_eq]
    exact h.recipe_outermost (h.level_of_mem hj (by decide) hr)
  name := by
    intro j c hj hn
    exact h.name_innermost (h.level_of_mem hj (by decide) hn)

end Layers

namespace Scanner

/-- What is awaited is what follows the sigil. -/
theorem Sound.openerAhead {s : Scanner} (h : s.Sound) :
    s.OpenerAhead := by
  intro ho
  obtain ⟨inherited, hn, -⟩ := h
  obtain ⟨flag, hc, hf⟩ := hn.opener ho
  unfold Plan.callAt at hc
  split at hc
  next hg =>
    cases hc
    exact Or.inl ⟨hf, hg⟩
  split at hc
  next hg =>
    cases hc
    exact Or.inr (Or.inl ⟨hf, hg⟩)
  split at hc
  next hg =>
    cases hc
    exact Or.inr (Or.inr ⟨hf, hg⟩)
  next => cases hc

/-- In every state that a scanner can be brought into, its stack is well
layered and an opening mark that is awaited comes next. -/
theorem wellLayered_of_reachable {s : Scanner} (h : Reachable s) :
    s.nesting.stack.WellLayered ∧ s.OpenerAhead := by
  obtain ⟨inherited, hn, -⟩ := h.sound
  obtain ⟨kinds, hl⟩ := hn.layers
  exact ⟨hl.wellLayered, h.sound.openerAhead⟩

/-- Behind `\t$("&` in `\t$("&{`, where the tab opens a recipe. -/
def inFourConstructs : Scanner :=
  let source : List UInt8 := [9, 36, 40, 34, 38, 123]
  let s := ofGlyphs (File.alone "" 6) {} (Glyph.ofBytes source)
  (s.setRecipes true).scan.2.scan.2.scan.2.scan.2.scan.2

/-- The place is inside a recipe line, a call in parentheses, a string
and a call whose brace is next. -/
theorem wellLayered_inFourConstructs :
    inFourConstructs.nesting.stack.depth = 4
      ∧ inFourConstructs.nesting.openerNext = true
      ∧ inFourConstructs.nesting.stack.WellLayered
      ∧ inFourConstructs.OpenerAhead := by
  let source : List UInt8 := [9, 36, 40, 34, 38, 123]
  have started : Scanner.start (File.alone "" 6) {} source
      = .ok (ofGlyphs (File.alone "" 6) {} (Glyph.ofBytes source)) := rfl
  have recipe := ((Reachable.start started).setRecipes true).scan
  have reached : Reachable inFourConstructs := recipe.scan.scan.scan.scan
  have state : inFourConstructs.nesting.stack.depth = 4
      ∧ inFourConstructs.nesting.openerNext = true := by
    decide +kernel
  exact ⟨state.1, state.2, wellLayered_of_reachable reached⟩

end Scanner

end BuildLexer
