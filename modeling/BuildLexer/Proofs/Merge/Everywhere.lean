/-
What merging keeps of the trees at every depth.

A merge changes trees and makes none: each tree in the result is one of
those merged, one that was there before, or one that was there and had
something merged into it. So what a single insertion keeps at the tree
it is made into is kept everywhere, by trees (`Tree.everywhere_merge`)
and by collections (`Diagnostics.everywhere_merge`), for as long as what
comes in has it too. No more is asked, in particular not where a piece
comes to stand: that the place of a part is used after the oldest parts
were dropped does not matter here.
-/
import BuildLexer.Diagnostic.Collection
import BuildLexer.Proofs.Merge.Provenance

namespace BuildLexer

namespace Diagnostic

/-- Something that holds of every tree in a diagnostic. -/
def Everywhere (P : Tree → Prop) (d : Diagnostic) : Prop :=
  ∀ t ∈ d.trees, P t

instance (P : Tree → Prop) [DecidablePred P] (d : Diagnostic) :
    Decidable (d.Everywhere P) :=
  inferInstanceAs (Decidable (∀ t ∈ d.trees, P t))

end Diagnostic

namespace Tree

open Diagnostic

variable {P : Tree → Prop} {limit : Nat} {t : Tree} {d : Diagnostic}
  {ds : List Diagnostic}

/-- It holds of a tree and of all trees in its parts. -/
theorem everywhere_iff :
    t.toDiagnostic.Everywhere P ↔ P t ∧ ∀ d ∈ t.parts, d.Everywhere P := by
  constructor
  · intro h
    refine ⟨h t List.mem_cons_self, fun d hd u hu => ?_⟩
    exact h u (mem_trees_of_mem hd hu)
  · rintro ⟨root, parts⟩ u hu
    rcases mem_trees_toDiagnostic.1 hu with rfl | hu
    · exact root
    · obtain ⟨d, hd, there⟩ := mem_treesAll.1 hu
      exact parts d hd u there

-- ============================================================== merging

/-- If merging each of some diagnostics keeps something everywhere,
merging all does. -/
theorem everywhere_insertAll
    (each : ∀ d ∈ ds, ∀ t : Tree, t.toDiagnostic.Everywhere P →
      (insert limit d t).toDiagnostic.Everywhere P)
    (ht : t.toDiagnostic.Everywhere P) :
    (insertAll limit ds t).toDiagnostic.Everywhere P := by
  induction ds generalizing t with
  | nil =>
      rw [insertAll]
      exact ht
  | cons d ds ih =>
      rw [insertAll]
      exact ih (fun e he => each e (List.mem_cons_of_mem d he))
        (each d List.mem_cons_self t ht)

/-- What an insertion keeps at the root it keeps everywhere. -/
theorem everywhere_insert
    (root : ∀ (d : Diagnostic) (t : Tree), P t → P (insert limit d t))
    (d : Diagnostic) :
    ∀ t : Tree, d.Everywhere P → t.toDiagnostic.Everywhere P →
      (insert limit d t).toDiagnostic.Everywhere P := by
  induction d using Diagnostic.induction with
  | leaf m =>
      intro t hd ht
      obtain ⟨top, parts⟩ := everywhere_iff.1 ht
      refine everywhere_iff.2 ⟨root _ t top, fun e he => ?_⟩
      rcases mem_parts_insert he with old | rfl | ⟨u, p, new, -, hn, -⟩
      · exact parts e old
      · exact hd
      · cases hn
  | node p new ih =>
      intro t hd ht
      obtain ⟨top, parts⟩ := everywhere_iff.1 ht
      refine everywhere_iff.2 ⟨root _ t top, fun e he => ?_⟩
      rcases mem_parts_insert he with
        old | rfl | ⟨u, _, _, hu, ⟨⟩, -, rfl⟩
      · exact parts e old
      · exact hd
      · have inside := (everywhere_iff (t := ⟨p, new⟩)).1 hd
        exact everywhere_insertAll
          (fun d hd t => ih d hd t (inside.2 d hd)) (parts _ hu)

/-- So does a merge. -/
theorem everywhere_merge
    (root : ∀ (d : Diagnostic) (t : Tree), P t → P (insert limit d t))
    (ht : t.toDiagnostic.Everywhere P) (hd : ∀ d ∈ ds, d.Everywhere P) :
    (t.merge limit ds).toDiagnostic.Everywhere P := by
  rw [merge_eq_insertAll]
  exact everywhere_insertAll
    (fun d hp t => everywhere_insert root d t (hd d hp)) ht

theorem position_merge (limit : Nat) (ds : List Diagnostic) (t : Tree) :
    (t.merge limit ds).position = t.position := by
  rw [merge_eq_insertAll, position_insertAll]

end Tree

-- =========================================================== collections

namespace Diagnostics

variable {P : Tree → Prop} {d : Diagnostics} {t e : Tree}
  {ts : List Tree} {limit : Nat}

/-- Something that holds of every tree in a collection. -/
def Everywhere (P : Tree → Prop) (d : Diagnostics) : Prop :=
  ∀ t ∈ d.entries, t.toDiagnostic.Everywhere P

instance (P : Tree → Prop) [DecidablePred P] (d : Diagnostics) :
    Decidable (d.Everywhere P) :=
  inferInstanceAs (Decidable (∀ t ∈ d.entries, _))

/-- An entry after a merge: one from before, the tree that came in, or
the one at its position with the parts of that tree merged into it. -/
theorem mem_mergeInto (h : e ∈ mergeInto limit t ts) :
    e ∈ ts ∨ e = t ∨ ∃ u ∈ ts, e = u.merge limit t.parts := by
  induction ts with
  | nil => exact Or.inr (Or.inl (List.mem_singleton.1 h))
  | cons u ts ih =>
      rw [mergeInto] at h
      split at h
      · rcases List.mem_cons.1 h with rfl | h
        · exact Or.inr (Or.inr ⟨u, List.mem_cons_self, rfl⟩)
        · exact Or.inl (List.mem_cons_of_mem u h)
      · rcases List.mem_cons.1 h with rfl | h
        · exact Or.inl List.mem_cons_self
        · rcases ih h with old | new | ⟨v, hv, new⟩
          · exact Or.inl (List.mem_cons_of_mem u old)
          · exact Or.inr (Or.inl new)
          · exact Or.inr (Or.inr ⟨v, List.mem_cons_of_mem u hv, new⟩)

theorem everywhere_truncate (h : d.Everywhere P) :
    d.truncate.Everywhere P :=
  fun t ht => h t (mem_of_mem_newest ht)

theorem everywhere_mergeTree
    (root : ∀ (e : Diagnostic) (t : Tree), P t → P (t.insert d.limit e))
    (hd : d.Everywhere P) (ht : t.toDiagnostic.Everywhere P) :
    (d.mergeTree t).Everywhere P := by
  refine everywhere_truncate fun e he => ?_
  rcases mem_mergeInto he with old | rfl | ⟨u, hu, rfl⟩
  · exact hd e old
  · exact ht
  · exact Tree.everywhere_merge root (hd u hu)
      (Tree.everywhere_iff.1 ht).2

theorem everywhere_merge
    (root : ∀ (e : Diagnostic) (t : Tree), P t → P (t.insert d.limit e))
    (hd : d.Everywhere P) (ht : ∀ t ∈ ts, t.toDiagnostic.Everywhere P) :
    (d.merge ts).Everywhere P := by
  unfold merge
  induction ts generalizing d with
  | nil => exact hd
  | cons t ts ih =>
      rw [List.foldl_cons]
      exact ih (d := d.mergeTree t) root
        (everywhere_mergeTree root hd (ht t List.mem_cons_self))
        fun u hu => ht u (List.mem_cons_of_mem t hu)

/-- Merging leaves the limit alone. -/
theorem limit_merge (d : Diagnostics) (ts : List Tree) :
    (d.merge ts).limit = d.limit := by
  unfold merge
  induction ts generalizing d with
  | nil => rfl
  | cons t ts ih =>
      rw [List.foldl_cons, ih]
      rfl

end Diagnostics

end BuildLexer
