/-
Trees without repetitions.

A tree is normal when no tree in it has one message twice or two trees at
one position among its parts. Merging keeps that under every limit. What
becomes a part has a key that no part had; what goes into a part leaves
its key alone, wherever the number of that part leads by then; and what
is dropped takes its key along. So each insertion keeps the parts
distinct at the tree it is made into (`distinct_insert`), and with it
everywhere.

In a collection that is only merged into, the entries too are at
positions of their own, since a tree at the position of an entry goes
into that entry (`map_position_mergeInto`).
-/
import BuildLexer.Proofs.Merge.Everywhere
import BuildLexer.Proofs.Merge.Idempotence

namespace BuildLexer

open Diagnostic

/-- What is left under a limit, in its order. -/
theorem newest_sublist {α : Type} (limit : Nat) (items : List α) :
    (newest limit items).Sublist items := by
  unfold newest
  split
  · exact List.Sublist.refl items
  · exact List.drop_sublist _ items

/-- No tree in a diagnostic has two parts with one key. -/
def Diagnostic.Normal (d : Diagnostic) : Prop := d.Everywhere Tree.Distinct

instance (d : Diagnostic) : Decidable d.Normal :=
  inferInstanceAs (Decidable (d.Everywhere _))

namespace Tree

variable {t : Tree} {d : Diagnostic} {limit i : Nat}

-- ========================================================= distinct parts

/-- The parts are distinct when their keys are. -/
theorem distinct_iff_nodup : t.Distinct ↔ (t.parts.map key).Nodup :=
  List.pairwise_map.symm

theorem Distinct.truncate (h : t.Distinct) (limit : Nat) :
    (t.truncate limit).Distinct :=
  h.sublist (newest_sublist limit t.parts)

/-- A part with a key of its own may come behind some of the parts. -/
theorem Distinct.append (h : t.Distinct) (fresh : ∀ e ∈ t.parts, e.key ≠ d.key)
    {kept : List Diagnostic} (sub : kept.Sublist t.parts) :
    Distinct ⟨t.position, kept ++ [d]⟩ := by
  refine List.pairwise_append.2 ⟨h.sublist sub, ?_, ?_⟩
  · exact List.pairwise_singleton _ _
  · intro e he f hf
    rw [List.mem_singleton.1 hf]
    exact fresh e (sub.subset he)

/-- A change inside a part leaves the keys alone. -/
theorem Distinct.modify {change : Tree → Tree} (h : t.Distinct)
    (stays : ∀ u : Tree, (change u).position = u.position) (i : Nat) :
    (t.modify change [i]).Distinct := by
  rcases t.exists_tree_or i with ⟨u, hu⟩ | nowhere
  · have keys : (t.parts.map key)[i]?
        = some (change u).toDiagnostic.key := by
      rw [List.getElem?_map, hu, Option.map_some]
      exact congrArg (fun p => some (Key.position p)) (stays u).symm
    rw [modify_cons hu, distinct_iff_nodup]
    dsimp only
    rw [List.map_set]
    exact (set_of_getElem? keys).symm ▸ distinct_iff_nodup.1 h
  · rw [(nowhere [] change).2]
    exact h

-- =========================================================== one insertion

theorem distinct_addMessage (m : String) (h : t.Distinct) :
    (t.addMessage m).Distinct := by
  unfold addMessage
  split
  next => exact h
  next unknown =>
    refine h.append (d := .leaf m) (fun e he hk => unknown ?_)
      (List.Sublist.refl _)
    refine List.any_eq_true.2 ⟨e, he, ?_⟩
    exact beq_iff_eq.2 (key_eq_message_iff.1 hk)

/-- Whatever is merged into a tree with distinct parts, they are distinct
afterwards. -/
theorem distinct_insert (d : Diagnostic) (t : Tree) (h : t.Distinct) :
    (insert limit d t).Distinct := by
  cases d with
  | leaf m =>
      rw [insert_leaf]
      exact (distinct_addMessage m h).truncate limit
  | node p parts =>
      cases hf : t.find? p with
      | none =>
          have fresh : ∀ e ∈ t.parts, e.key ≠ (node p parts).key := by
            intro e he hk
            exact find?_eq_none_iff.1 hf e he (key_eq_position_iff.1 hk)
          have adopted := h.append fresh
            (List.filter_sublist (p := fun e => !carries ⟨p, parts⟩ e))
          rw [insert_of_find?_none hf]
          exact Distinct.truncate adopted limit
      | some i =>
          rw [insert_of_find? hf]
          exact (h.truncate limit).modify
            (position_insertAll limit parts) i

end Tree

-- =========================================================== collections

namespace Diagnostics

variable {limit : Nat} {d : Diagnostics} {t : Tree} {ts : List Tree}

/-- No two entries are at one position. -/
def Apart (d : Diagnostics) : Prop :=
  d.entries.Pairwise fun a b => a.position ≠ b.position

instance (d : Diagnostics) : Decidable d.Apart :=
  inferInstanceAs (Decidable (List.Pairwise _ _))

theorem apart_iff_nodup :
    d.Apart ↔ (d.entries.map Tree.position).Nodup :=
  List.pairwise_map.symm

/-- A merge adds a position where it is not yet, and changes none. -/
theorem map_position_mergeInto :
    (mergeInto limit t ts).map Tree.position
      = if t.position ∈ ts.map Tree.position then ts.map Tree.position
        else ts.map Tree.position ++ [t.position] := by
  induction ts with
  | nil => rfl
  | cons u ts ih =>
      rw [mergeInto, List.map_cons]
      by_cases here : u.position = t.position
      · rw [if_pos here, List.map_cons, Tree.position_merge, here,
          if_pos List.mem_cons_self]
      · rw [if_neg here, List.map_cons, ih]
        by_cases later : t.position ∈ ts.map Tree.position
        · rw [if_pos later, if_pos (List.mem_cons_of_mem _ later)]
        · have nowhere : t.position ∉ u.position :: ts.map Tree.position :=
            fun h => (List.mem_cons.1 h).elim (fun he => here he.symm) later
          rw [if_neg later, if_neg nowhere, List.cons_append]

theorem apart_mergeTree (t : Tree) (h : d.Apart) :
    (d.mergeTree t).Apart := by
  have merged :
      ((mergeInto d.limit t d.entries).map Tree.position).Nodup := by
    rw [map_position_mergeInto]
    split
    next => exact apart_iff_nodup.1 h
    next fresh =>
      refine List.nodup_append.2 ⟨apart_iff_nodup.1 h, ?_, ?_⟩
      · exact List.pairwise_singleton _ _
      · rintro p hp q hq rfl
        exact fresh (List.mem_singleton.1 hq ▸ hp)
  exact apart_iff_nodup.2
    (merged.sublist ((newest_sublist _ _).map Tree.position))

theorem apart_merge (h : d.Apart) (ts : List Tree) :
    (d.merge ts).Apart := by
  unfold merge
  induction ts generalizing d with
  | nil => exact h
  | cons t ts ih =>
      rw [List.foldl_cons]
      exact ih (apart_mergeTree t h)

/-- Merging normal trees keeps the entries normal and apart. -/
theorem normal_calls (calls : List (List Tree))
    (hc : ∀ ts ∈ calls, ∀ t ∈ ts, t.toDiagnostic.Normal)
    (hd : d.Everywhere Tree.Distinct) (apart : d.Apart) :
    (calls.foldl merge d).Everywhere Tree.Distinct
      ∧ (calls.foldl merge d).Apart := by
  induction calls generalizing d with
  | nil => exact ⟨hd, apart⟩
  | cons ts calls ih =>
      have merged := everywhere_merge Tree.distinct_insert hd
        (hc ts List.mem_cons_self)
      rw [List.foldl_cons]
      exact ih (fun us hu => hc us (List.mem_cons_of_mem ts hu)) merged
        (apart_merge apart ts)

end Diagnostics

/-- Under every limit, merging normal diagnostics into a normal tree
gives a normal tree, and merging normal trees into an empty collection,
in any number of calls, gives normal entries at positions of their
own. -/
theorem Tree.normal_merge (limit : Nat) :
    (∀ (t : Tree) (ds : List Diagnostic), t.toDiagnostic.Normal →
        (∀ d ∈ ds, d.Normal) → (t.merge limit ds).toDiagnostic.Normal)
      ∧ ∀ calls : List (List Tree),
        (∀ ts ∈ calls, ∀ t ∈ ts, t.toDiagnostic.Normal) →
          let d := calls.foldl Diagnostics.merge { entries := [], limit }
          (∀ t ∈ d.entries, t.toDiagnostic.Normal)
            ∧ d.entries.Pairwise fun a b => a.position ≠ b.position := by
  refine ⟨fun t ds ht hd => ?_, fun calls hc => ?_⟩
  · exact everywhere_merge distinct_insert ht hd
  · exact Diagnostics.normal_calls calls hc nofun .nil

/-- Two trees and a message, with room for two: the tree at `b` is
dropped, and what was meant for it goes into the tree at `c`. -/
theorem Tree.normal_merge_moved :
    let t : Tree := ⟨⟨"a", 0, 1, 1⟩, [.node ⟨"b", 0, 1, 1⟩ [.leaf "x"],
      .node ⟨"c", 0, 1, 1⟩ [.leaf "x"], .leaf "y"]⟩
    let new : List Diagnostic :=
      [.node ⟨"b", 0, 1, 1⟩ [.leaf "x", .leaf "z"]]
    t.toDiagnostic.Normal ∧ (∀ d ∈ new, d.Normal)
      ∧ (t.merge 2 new).toDiagnostic.Normal
      ∧ (let d := [[t], [t, ⟨⟨"a", 0, 1, 1⟩, new⟩]].foldl
            Diagnostics.merge { entries := [], limit := 2 }
        (∀ t ∈ d.entries, t.toDiagnostic.Normal)
          ∧ d.entries.Pairwise fun a b => a.position ≠ b.position) := by
  intro t new
  have tree : t.toDiagnostic.Normal := by decide +kernel
  have incoming : ∀ d ∈ new, d.Normal := by decide +kernel
  have calls : ∀ ts ∈ [[t], [t, ⟨⟨"a", 0, 1, 1⟩, new⟩]], ∀ u ∈ ts,
      u.toDiagnostic.Normal := by
    decide +kernel
  exact ⟨tree, incoming, (normal_merge 2).1 t new tree incoming,
    (normal_merge 2).2 _ calls⟩

end BuildLexer
