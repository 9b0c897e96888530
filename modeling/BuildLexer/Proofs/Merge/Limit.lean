/-
How far a limit reaches.

A collection never has more entries than its limit: whatever is put into
it, the oldest entries are dropped right behind that. The parts of a tree
are dropped only where something is merged into that tree. So a tree over
the limit may stand in a collection, as an entry or at any depth of one,
but only as it came in, with nothing merged into it (`limit_updates`); and
where no tree comes in over the limit, none is there. A tree of two parts
in a collection with room for one is enough for the other case.
-/
import BuildLexer.Proofs.Merge.Everywhere

namespace BuildLexer

open Diagnostic

/-- What fills a collection. -/
inductive Update where
  | add (p : Position) (message : String)
  /-- A message filed by the handler of the collection. -/
  | report (p : Position) (message : String)
  | merge (ts : List Tree)

/-- The trees that come in to be merged. -/
def Update.incoming : Update → List Tree
  | merge ts => ts
  | _ => []

/-- A collection after an update. The handler adds what is reported. -/
def Diagnostics.update (d : Diagnostics) : Update → Diagnostics
  | .add p m | .report p m => d.add p m
  | .merge ts => d.merge ts

-- =============================================================== lengths

/-- A limit leaves no more than it allows. -/
theorem length_newest_le {α : Type} {limit : Nat} (hl : 0 < limit)
    (items : List α) : (newest limit items).length ≤ limit := by
  have limited : limit ≠ noLimit := Nat.ne_of_gt hl
  unfold newest
  rw [if_neg limited, List.length_drop]
  omega

/-- A tree into which something was merged is within the limit. -/
theorem Tree.length_parts_insert_le {limit : Nat} (hl : 0 < limit)
    (d : Diagnostic) (t : Tree) :
    (insert limit d t).parts.length ≤ limit := by
  rw [← newest_parts_insert d t]
  exact length_newest_le hl _

namespace Diagnostics

variable {d : Diagnostics} {ts : List Tree} {came : Tree → Prop}

-- ============================================================ collections

/-- A tree within a limit, or one that came in as it is. -/
def WithinOr (limit : Nat) (came : Tree → Prop) (t : Tree) : Prop :=
  t.parts.length ≤ limit ∨ came t

/-- A collection within its limit, in which every tree over the limit
came in as it is. -/
structure Limited (came : Tree → Prop) (d : Diagnostics) : Prop where
  entries : d.entries.length ≤ d.limit
  trees : d.Everywhere (WithinOr d.limit came)

/-- Merging keeps a collection within its limit. -/
theorem length_merge_le (h : d.entries.length ≤ d.limit)
    (hl : 0 < d.limit) (ts : List Tree) :
    (d.merge ts).entries.length ≤ d.limit := by
  unfold merge
  induction ts generalizing d with
  | nil => exact h
  | cons t ts ih =>
      rw [List.foldl_cons]
      exact ih (d := d.mergeTree t) (length_newest_le hl _) hl

/-- Merging keeps the trees limited, but for those that come in too
large, -/
theorem Limited.merge (h : d.Limited came) (hl : 0 < d.limit)
    (hc : ∀ t ∈ ts, ∀ u ∈ t.toDiagnostic.trees, came u) :
    (d.merge ts).Limited came := by
  constructor
  · rw [limit_merge]
    exact length_merge_le h.entries hl ts
  · rw [limit_merge]
    refine everywhere_merge (fun e t _ => ?_) h.trees fun t ht u hu => ?_
    · exact Or.inl (Tree.length_parts_insert_le hl e t)
    · exact Or.inr (hc t ht u hu)

/-- adding a message does, -/
theorem Limited.add (h : d.Limited came) (hl : 0 < d.limit)
    (p : Position) (message : String) : (d.add p message).Limited came where
  entries := length_newest_le hl _
  trees := by
    refine everywhere_truncate fun t ht => ?_
    rcases List.mem_append.1 ht with old | new
    · exact h.trees t old
    · rw [List.mem_singleton.1 new, Tree.everywhere_iff]
      refine ⟨Or.inl hl, fun e he => ?_⟩
      rw [List.mem_singleton.1 he]
      exact nofun

/-- so does any update, -/
theorem Limited.update (h : d.Limited came) (hl : 0 < d.limit)
    {u : Update}
    (hc : ∀ t ∈ u.incoming, ∀ v ∈ t.toDiagnostic.trees, came v) :
    (d.update u).Limited came ∧ (d.update u).limit = d.limit := by
  cases u with
  | add p message => exact ⟨h.add hl p message, rfl⟩
  | report p message => exact ⟨h.add hl p message, rfl⟩
  | merge ts => exact ⟨h.merge hl hc, limit_merge d ts⟩

/-- and with that any number of them. -/
theorem Limited.updates (us : List Update) (h : d.Limited came)
    (hl : 0 < d.limit)
    (hc : ∀ u ∈ us, ∀ t ∈ u.incoming, ∀ v ∈ t.toDiagnostic.trees,
      came v) :
    (us.foldl Diagnostics.update d).Limited came
      ∧ (us.foldl Diagnostics.update d).limit = d.limit := by
  induction us generalizing d with
  | nil => exact ⟨h, rfl⟩
  | cons u us ih =>
      obtain ⟨first, same⟩ := h.update hl (hc u List.mem_cons_self)
      rw [← same] at hl ⊢
      rw [List.foldl_cons]
      exact ih first hl fun v hv => hc v (List.mem_cons_of_mem u hv)

/-- After any updates of an empty collection it has no more entries than
the limit, and a tree with more parts than the limit, at whatever depth,
is there as it came in. -/
theorem limit_updates (limit : Nat) (hl : 0 < limit) (us : List Update) :
    let d := us.foldl update { entries := [], limit }
    d.size ≤ limit
      ∧ ∀ e ∈ d.entries, ∀ t ∈ e.toDiagnostic.trees,
        limit < t.parts.length →
          ∃ u ∈ us, ∃ new ∈ u.incoming, t ∈ new.toDiagnostic.trees := by
  let came (t : Tree) : Prop :=
    ∃ u ∈ us, ∃ new ∈ u.incoming, t ∈ new.toDiagnostic.trees
  have start : Limited came { entries := [], limit } :=
    ⟨Nat.zero_le limit, nofun⟩
  obtain ⟨after, same⟩ := start.updates us hl
    fun u hu new hn t ht => ⟨u, hu, new, hn, ht⟩
  refine ⟨?_, fun e he t ht exceeds => ?_⟩
  · exact Nat.le_trans after.entries (Nat.le_of_eq same)
  · have kept := after.trees e he t ht
    rw [same] at kept
    exact kept.resolve_left (Nat.not_le_of_gt exceeds)

/-- A tree of two messages at `a`. -/
def wide : Tree := ⟨⟨"a", 0, 1, 1⟩, [.leaf "x", .leaf "y"]⟩

/-- With room for one, a tree of two messages stays as it came in until
something is merged into it, and only the newest entry stays. -/
theorem limit_updates_wide :
    let us : List Update := [.add ⟨"b", 0, 1, 1⟩ "z", .merge [wide]]
    let d := us.foldl update { entries := [], limit := 1 }
    0 < 1 ∧ d.entries = [wide] ∧ d.size ≤ 1
      ∧ ∀ e ∈ d.entries, ∀ t ∈ e.toDiagnostic.trees, 1 < t.parts.length →
        ∃ u ∈ us, ∃ new ∈ u.incoming, t ∈ new.toDiagnostic.trees := by
  intro us
  have one : 0 < 1 := Nat.one_pos
  exact ⟨one, rfl, limit_updates 1 one us⟩

/-- There it has more parts than the limit. -/
theorem not_limit_everywhere :
    ¬ ∀ (limit : Nat), 0 < limit → ∀ us : List Update,
      let d := us.foldl update { entries := [], limit }
      d.size ≤ limit
        ∧ ∀ e ∈ d.entries, ∀ t ∈ e.toDiagnostic.trees,
          t.parts.length ≤ limit := by
  intro h
  have within := (h 1 Nat.one_pos [.merge [wide]]).2 wide
    List.mem_cons_self wide List.mem_cons_self
  exact absurd within (by decide)

end Diagnostics

end BuildLexer
