/-
Where the messages of a merged tree come from.

A message in a tree has a way to it: the positions of the trees it is
in, outermost first (`Diagnostic.traces`). Merging keeps ways: what is
in the tree afterwards was in it before, by the same way, or is one of
the diagnostics merged, by the way it has under the root
(`traces_merge`). Under a limit something may be missing, but nothing
is moved.

There is one thing in the way of that. The place of a part is looked up
before the oldest parts of its tree are dropped and used after, and then
another tree may stand there. That takes a tree with more parts than the
limit, in which some tree, after the drop, has the number that a tree at
another position had before. Trees without that are `Aligned`, all trees
within the limit among them; in a merge of aligned trees all trees stay
aligned, since each tree that something is merged into is within the
limit from then on.
-/
import BuildLexer.Proofs.Merge.Recursion

namespace BuildLexer

-- ================================================================ ways

namespace Diagnostic

mutual

/-- The messages in a diagnostic, each with the positions of the trees
on the way to it, outermost first. -/
def traces : Diagnostic → List (List Position × String)
  | leaf m => [([], m)]
  | node p parts =>
    (tracesAll parts).map fun e => (p :: e.1, e.2)

/-- The messages in some diagnostics with the ways to them. -/
def tracesAll : List Diagnostic → List (List Position × String)
  | [] => []
  | d :: ds => traces d ++ tracesAll ds

end

theorem mem_tracesAll {e : List Position × String}
    {ds : List Diagnostic} :
    e ∈ tracesAll ds ↔ ∃ d ∈ ds, e ∈ d.traces := by
  induction ds with
  | nil => simp [tracesAll]
  | cons d ds ih => simp [tracesAll, ih]

/-- The way to a message in a tree begins at the tree. -/
theorem mem_traces_toDiagnostic {e : List Position × String} {t : Tree} :
    e ∈ t.toDiagnostic.traces
      ↔ ∃ inner ∈ tracesAll t.parts,
        (t.position :: inner.1, inner.2) = e :=
  List.mem_map

end Diagnostic

-- ============================================================== limits

section Newest

variable {α : Type} {limit : Nat} {items others : List α}

theorem newest_eq_self_iff :
    newest limit items = items
      ↔ limit = noLimit ∨ items.length ≤ limit := by
  unfold newest
  split
  next h => exact iff_of_true rfl (Or.inl h)
  next h =>
    constructor
    · intro same
      have lengths := congrArg List.length same
      rw [List.length_drop] at lengths
      omega
    · intro within
      rw [Nat.sub_eq_zero_of_le (within.resolve_left h), List.drop_zero]

theorem mem_of_mem_newest {a : α} (h : a ∈ newest limit items) :
    a ∈ items := by
  unfold newest at h
  split at h
  · exact h
  · exact List.mem_of_mem_drop h

/-- What is dropped at once would be dropped later. -/
theorem newest_append :
    newest limit (newest limit items ++ others)
      = newest limit (items ++ others) := by
  unfold newest
  split
  next => rfl
  next =>
    have inside : items.length - limit ≤ items.length := Nat.sub_le _ _
    rw [← List.drop_append_of_le_length inside, List.drop_drop,
      List.length_drop, List.length_append]
    congr 1
    omega

theorem newest_newest :
    newest limit (newest limit items) = newest limit items := by
  have none : newest limit (newest limit items ++ [])
      = newest limit (items ++ []) := newest_append
  rwa [List.append_nil, List.append_nil] at none

end Newest

-- ============================================================= aligned

namespace Tree

/-- Where the oldest parts are dropped, the number that a tree had among
the parts leads to no tree at another position. -/
def Aligned (limit : Nat) (t : Tree) : Prop :=
  ∀ p ∈ t.parts.filterMap Diagnostic.position?, ∀ i ∈ t.find? p,
    ∀ q ∈ (newest limit t.parts)[i]?.bind Diagnostic.position?, q = p

instance (limit : Nat) (t : Tree) : Decidable (t.Aligned limit) :=
  inferInstanceAs (Decidable (∀ p ∈ t.parts.filterMap _, ∀ i ∈ t.find? p,
    ∀ q ∈ (newest limit t.parts)[i]?.bind Diagnostic.position?, q = p))

/-- What stands at the number of a tree afterwards is at its position. -/
theorem Aligned.position_eq {limit i : Nat} {t u : Tree} {p : Position}
    (h : t.Aligned limit) (hf : t.find? p = some i)
    (hu : (newest limit t.parts)[i]? = some u.toDiagnostic) :
    u.position = p := by
  obtain ⟨a, b, v, cut, -, rfl, -⟩ := eq_append_of_find? hf
  have known : v.position
      ∈ t.parts.filterMap Diagnostic.position? := by
    rw [List.mem_filterMap, cut]
    exact ⟨v.toDiagnostic, List.mem_append_right a List.mem_cons_self,
      rfl⟩
  refine h v.position known i hf u.position ?_
  rw [hu]
  rfl

/-- A tree with no more parts than the limit is aligned. -/
theorem aligned_of_within {limit : Nat} {t : Tree}
    (h : newest limit t.parts = t.parts) : t.Aligned limit := by
  intro p _ i hi q hq
  obtain ⟨a, b, u, cut, rfl, rfl, -⟩ := eq_append_of_find? hi
  rw [h, cut, List.getElem?_append_right (Nat.le_refl _), Nat.sub_self]
    at hq
  exact (Option.some.inj hq).symm

end Tree

/-- All trees in a diagnostic are aligned. -/
def Diagnostic.Aligned (limit : Nat) (d : Diagnostic) : Prop :=
  ∀ t ∈ d.trees, t.Aligned limit

instance (limit : Nat) (d : Diagnostic) : Decidable (d.Aligned limit) :=
  inferInstanceAs (Decidable (∀ t ∈ d.trees, t.Aligned limit))

/-- A diagnostic is aligned when all its trees are within the limit, and
so without a limit always. -/
theorem Diagnostic.aligned_of_within {limit : Nat} {d : Diagnostic}
    (h : ∀ t ∈ d.trees, newest limit t.parts = t.parts) :
    d.Aligned limit :=
  fun t ht => Tree.aligned_of_within (h t ht)

namespace Tree

open Diagnostic

variable {limit : Nat} {d e : Diagnostic} {ds : List Diagnostic}
  {t : Tree}

/-- The parts of a diagnostic are aligned with it. -/
theorem aligned_of_mem (h : t.toDiagnostic.Aligned limit)
    (hd : d ∈ t.parts) : d.Aligned limit :=
  fun u hu => h u (mem_trees_of_mem hd hu)

-- =========================================================== one insertion

/-- Whatever is merged into a tree, it is within the limit then. -/
theorem newest_parts_insert (d : Diagnostic) (t : Tree) :
    newest limit (insert limit d t).parts = (insert limit d t).parts := by
  cases d with
  | leaf m =>
      rw [insert_leaf]
      exact newest_newest
  | node p parts =>
      cases hf : t.find? p with
      | none =>
          rw [insert_of_find?_none hf]
          exact newest_newest
      | some i =>
          rw [insert_of_find? hf]
          have within : newest limit (t.truncate limit).parts
              = (t.truncate limit).parts := newest_newest
          rcases (t.truncate limit).exists_tree_or i with
            ⟨u, hu⟩ | nowhere
          · rw [modify_cons hu, newest_eq_self_iff, List.length_set]
            exact newest_eq_self_iff.1 within
          · rw [(nowhere [] _).2]
            exact within

/-- A part of a tree after a diagnostic was merged into it: a part from
before, the diagnostic itself, or a part from before into which the
parts of the diagnostic were merged, and that one is at the position of
the diagnostic if the tree is aligned. -/
theorem mem_parts_insert (h : e ∈ (insert limit d t).parts) :
    e ∈ t.parts ∨ e = d
      ∨ ∃ (u : Tree) (p : Position) (parts : List Diagnostic),
        u.toDiagnostic ∈ t.parts ∧ d = .node p parts
          ∧ (t.Aligned limit → u.position = p)
          ∧ e = (insertAll limit parts u).toDiagnostic := by
  cases d with
  | leaf m =>
      rw [insert_leaf] at h
      have added : e ∈ (t.addMessage m).parts := mem_of_mem_newest h
      unfold addMessage at added
      split at added
      · exact Or.inl added
      · rcases List.mem_append.1 added with old | new
        · exact Or.inl old
        · exact Or.inr (Or.inl (List.mem_singleton.1 new))
  | node p parts =>
      cases hf : t.find? p with
      | none =>
          rw [insert_of_find?_none hf] at h
          have adopted : e ∈ (t.adopt ⟨p, parts⟩).parts :=
            mem_of_mem_newest h
          rcases List.mem_append.1 adopted with old | new
          · exact Or.inl (List.mem_filter.1 old).1
          · exact Or.inr (Or.inl (List.mem_singleton.1 new))
      | some i =>
          rw [insert_of_find? hf] at h
          rcases (t.truncate limit).exists_tree_or i with
            ⟨u, hu⟩ | nowhere
          · rw [modify_cons hu] at h
            rcases List.mem_or_eq_of_mem_set h with old | new
            · exact Or.inl (mem_of_mem_newest old)
            · have part : u.toDiagnostic ∈ t.parts :=
                mem_of_mem_newest (List.mem_of_getElem? hu)
              exact Or.inr (Or.inr ⟨u, p, parts, part, rfl,
                fun aligned => aligned.position_eq hf hu, new⟩)
          · rw [(nowhere [] _).2] at h
            exact Or.inl (mem_of_mem_newest h)

/-- Merging does not move a tree. -/
theorem position_insert (limit : Nat) (d : Diagnostic) (t : Tree) :
    (insert limit d t).position = t.position := by
  cases d with
  | leaf m =>
      rw [insert_leaf]
      unfold addMessage truncate
      split <;> rfl
  | node p parts =>
      cases hf : t.find? p with
      | none =>
          rw [insert_of_find?_none hf]
          rfl
      | some i =>
          rw [insert_of_find? hf]
          rcases (t.truncate limit).exists_tree_or i with
            ⟨u, hu⟩ | nowhere
          · rw [modify_cons hu]
            rfl
          · rw [(nowhere [] _).2]
            rfl

theorem position_insertAll (limit : Nat) (ds : List Diagnostic)
    (t : Tree) : (insertAll limit ds t).position = t.position := by
  induction ds generalizing t with
  | nil => rw [insertAll]
  | cons d ds ih => rw [insertAll, ih, position_insert]

-- ========================================================= all insertions

/-- What merging does to the ways of messages: all trees stay aligned,
and every way inside the tree was there or is one of the new ones. -/
structure KeepsWays (limit : Nat) (new : List (List Position × String))
    (t u : Tree) : Prop where
  aligned : u.toDiagnostic.Aligned limit
  ways : ∀ e ∈ tracesAll u.parts, e ∈ tracesAll t.parts ∨ e ∈ new

/-- If merging each of some diagnostics keeps ways, merging all does. -/
theorem keepsWays_insertAll
    (each : ∀ d ∈ ds, ∀ t : Tree, t.toDiagnostic.Aligned limit →
      KeepsWays limit d.traces t (insert limit d t))
    (ht : t.toDiagnostic.Aligned limit) :
    KeepsWays limit (tracesAll ds) t (insertAll limit ds t) := by
  induction ds generalizing t with
  | nil =>
      rw [insertAll]
      exact ⟨ht, fun e he => Or.inl he⟩
  | cons d ds ih =>
      have first := each d List.mem_cons_self t ht
      have later := ih (fun e he => each e (List.mem_cons_of_mem d he))
        first.aligned
      rw [insertAll]
      refine ⟨later.aligned, fun e he => ?_⟩
      rcases later.ways e he with old | new
      · rcases first.ways e old with old | new
        · exact Or.inl old
        · exact Or.inr (List.mem_append_left _ new)
      · exact Or.inr (List.mem_append_right _ new)

/-- Merging a diagnostic keeps ways, if merging its parts does. -/
theorem keepsWays_insert_of_parts
    (inside : ∀ p parts, d = .node p parts → ∀ u : Tree,
      u.toDiagnostic.Aligned limit →
        KeepsWays limit (tracesAll parts) u (insertAll limit parts u))
    (hd : d.Aligned limit) (ht : t.toDiagnostic.Aligned limit) :
    KeepsWays limit d.traces t (insert limit d t) where
  aligned := by
    intro v hv
    rcases mem_trees_toDiagnostic.1 hv with rfl | hv
    · exact aligned_of_within (newest_parts_insert d t)
    · obtain ⟨part, hp, there⟩ := mem_treesAll.1 hv
      rcases mem_parts_insert hp with
        old | rfl | ⟨u, p, parts, hu, new, -, rfl⟩
      · exact aligned_of_mem ht old v there
      · exact hd v there
      · have kept := inside p parts new u (aligned_of_mem ht hu)
        exact kept.aligned v there
  ways := by
    intro e he
    obtain ⟨part, hp, there⟩ := mem_tracesAll.1 he
    rcases mem_parts_insert hp with
      old | rfl | ⟨u, p, parts, hu, rfl, same, rfl⟩
    · exact Or.inl (mem_tracesAll.2 ⟨part, old, there⟩)
    · exact Or.inr there
    · have top : t.Aligned limit := ht t List.mem_cons_self
      obtain ⟨inner, hi, rfl⟩ := mem_traces_toDiagnostic.1 there
      have kept := inside p parts rfl u (aligned_of_mem ht hu)
      rw [position_insertAll, same top]
      rcases kept.ways inner hi with old | new
      · rw [← same top]
        exact Or.inl (mem_tracesAll.2 ⟨_, hu,
          mem_traces_toDiagnostic.2 ⟨inner, old, rfl⟩⟩)
      · exact Or.inr (List.mem_map.2 ⟨inner, new, rfl⟩)

theorem keepsWays_insert (d : Diagnostic) :
    ∀ t : Tree, d.Aligned limit → t.toDiagnostic.Aligned limit →
      KeepsWays limit d.traces t (insert limit d t) := by
  induction d using Diagnostic.induction with
  | leaf m =>
      intro t hd ht
      exact keepsWays_insert_of_parts nofun hd ht
  | node p parts ih =>
      intro t hd ht
      refine keepsWays_insert_of_parts ?_ hd ht
      rintro _ _ ⟨⟩ u hu
      refine keepsWays_insertAll (fun d hp t ht => ih d hp t ?_ ht) hu
      exact aligned_of_mem (t := ⟨p, parts⟩) hd hp

/-- After a merge of aligned trees every message is where it was or
where it came in, under the root. -/
theorem traces_merge (ht : t.toDiagnostic.Aligned limit)
    (hd : ∀ d ∈ ds, d.Aligned limit) :
    ∀ e ∈ (t.merge limit ds).toDiagnostic.traces,
      e ∈ t.toDiagnostic.traces
        ∨ ∃ d ∈ ds, e ∈ (Diagnostic.node t.position [d]).traces := by
  rw [merge_eq_insertAll]
  intro e he
  obtain ⟨inner, hi, rfl⟩ := mem_traces_toDiagnostic.1 he
  have kept := keepsWays_insertAll
    (fun d hp t ht => keepsWays_insert d t (hd d hp) ht) ht
  rw [position_insertAll]
  rcases kept.ways inner hi with old | new
  · exact Or.inl (mem_traces_toDiagnostic.2 ⟨inner, old, rfl⟩)
  · obtain ⟨d, hp, new⟩ := mem_tracesAll.1 new
    have alone : inner ∈ tracesAll [d] :=
      mem_tracesAll.2 ⟨d, List.mem_singleton.2 rfl, new⟩
    exact Or.inr ⟨d, hp, List.mem_map.2 ⟨inner, alone, rfl⟩⟩

/-- A tree with three parts, of which the oldest is a tree. -/
def threeParts : Tree where
  position := ⟨"a", 0, 1, 1⟩
  parts := [.node ⟨"b", 0, 1, 1⟩ [.leaf "x"], .leaf "y", .leaf "z"]

/-- Under a limit of two it is aligned: what is meant for the oldest part
is lost with it, and what is meant for a new part gets there. -/
theorem traces_merge_threeParts :
    let ds : List Diagnostic :=
      [.node ⟨"b", 0, 1, 1⟩ [.leaf "u"], .node ⟨"c", 0, 1, 1⟩ [.leaf "v"],
        .node ⟨"c", 0, 1, 1⟩ [.leaf "w"]]
    threeParts.toDiagnostic.Aligned 2 ∧ (∀ d ∈ ds, d.Aligned 2)
      ∧ ([⟨"a", 0, 1, 1⟩, ⟨"c", 0, 1, 1⟩], "w")
        ∈ (threeParts.merge 2 ds).toDiagnostic.traces
      ∧ ∀ e ∈ (threeParts.merge 2 ds).toDiagnostic.traces,
        e ∈ threeParts.toDiagnostic.traces
          ∨ ∃ d ∈ ds,
            e ∈ (Diagnostic.node threeParts.position [d]).traces := by
  intro ds
  have tree : threeParts.toDiagnostic.Aligned 2 := by decide +kernel
  have new : ∀ d ∈ ds, d.Aligned 2 := by decide +kernel
  refine ⟨tree, new, ?_, traces_merge tree new⟩
  rw [merge_eq_insertAll]
  decide +kernel

/-- Two trees in one, and room for one: a message for the first gets to
the second. -/
theorem not_traces_merge_all :
    ¬ ∀ (limit : Nat) (t : Tree) (ds : List Diagnostic),
      ∀ e ∈ (t.merge limit ds).toDiagnostic.traces,
        e ∈ t.toDiagnostic.traces
          ∨ ∃ d ∈ ds, e ∈ (Diagnostic.node t.position [d]).traces := by
  intro h
  have moved := h 1
    ⟨⟨"a", 0, 1, 1⟩,
      [.node ⟨"b", 0, 1, 1⟩ [], .node ⟨"c", 0, 1, 1⟩ []]⟩
    [.node ⟨"b", 0, 1, 1⟩ [.leaf "m"]]
    ([⟨"a", 0, 1, 1⟩, ⟨"c", 0, 1, 1⟩], "m")
  rw [merge_eq_insertAll] at moved
  revert moved
  decide +kernel

end Tree

end BuildLexer
