/-
Merging twice.

A part is found by its key: a message by itself, a tree by its position.
Without a limit a diagnostic goes into the first part with its key, or
comes to stand behind the others, in place of those that it replaces
(`insert_noLimit_cases`). So nothing but the part with its key matters
for whether a diagnostic is in a tree already, that is, for whether
merging it changes nothing; and what has another key and does not replace
that part leaves it as it is (`insert_eq_self_insert`).

A diagnostic of which all parts are distinct is in itself (`absorb_self`),
so it is in a tree that it became a part of. Where it went into another
part its own parts were merged there one by one, and each of them is
there then by the same argument, unless it went again for a later one.
Where no part is replaced by a part behind it, all of them are there when
the last of them is (`absorb_absorb`). Then the first merge brings all
messages to where they belong (`traces_of_insert_eq_self`) and the second
one changes nothing (`merge_merge_eq`).
-/
import BuildLexer.Diagnostic.Collection
import BuildLexer.Proofs.Merge.Provenance

namespace BuildLexer

-- ================================================================ keys

/-- What a part of a tree is found by. -/
inductive Key where
  | message (text : String)
  | position (place : Position)
  deriving DecidableEq

namespace Diagnostic

/-- The key of a part. -/
def key : Diagnostic → Key
  | leaf m => .message m
  | node p _ => .position p

/-- Whether a diagnostic, when it becomes a part of a tree, takes the
place of another. -/
def replaces : Diagnostic → Diagnostic → Bool
  | leaf _, _ => false
  | node p parts, d => Tree.carries ⟨p, parts⟩ d

/-- A part after another diagnostic with its key was merged into it. -/
def absorb : Diagnostic → Diagnostic → Diagnostic
  | node p parts, node _ new =>
    (Tree.insertAll noLimit new ⟨p, parts⟩).toDiagnostic
  | d, _ => d

variable {d e : Diagnostic}

theorem key_eq_message_iff {m : String} :
    d.key = .message m ↔ d.message? = some m := by
  cases d <;> simp [key, message?]

theorem key_eq_position_iff {p : Position} :
    d.key = .position p ↔ d.position? = some p := by
  cases d <;> simp [key, position?]

theorem position?_congr (h : d.key = e.key) :
    d.position? = e.position? := by
  cases d <;> cases e <;> simp_all [key, position?]

/-- What is replaced is a matter of the key. -/
theorem replaces_congr {x y : Diagnostic} (h : x.key = y.key) :
    d.replaces x = d.replaces y := by
  cases d with
  | leaf m => rfl
  | node p parts => exact Tree.carries_congr (position?_congr h)

theorem absorb_leaf (x : Diagnostic) (m : String) :
    x.absorb (leaf m) = x := by
  cases x <;> rfl

theorem key_absorb (x d : Diagnostic) : (x.absorb d).key = x.key := by
  cases x with
  | leaf m => rfl
  | node p parts =>
      cases d with
      | leaf m => rfl
      | node q new =>
          exact congrArg Key.position (Tree.position_insertAll noLimit new _)

end Diagnostic

namespace Tree

open Diagnostic

variable {t : Tree} {d e x : Diagnostic} {ds a b : List Diagnostic}

theorem toDiagnostic_inj {u : Tree} (h : t.toDiagnostic = u.toDiagnostic) :
    t = u := by
  cases t
  cases u
  obtain ⟨rfl, rfl⟩ := node.inj h
  rfl

/-- The first part with a key. -/
def part? (t : Tree) (k : Key) : Option Diagnostic :=
  t.parts.find? (·.key == k)

/-- No two parts are the same message, and no two are trees at one
position. -/
def Distinct (t : Tree) : Prop :=
  t.parts.Pairwise fun a b => a.key ≠ b.key

/-- No part is replaced by a part behind it. -/
def Lasting (t : Tree) : Prop :=
  t.parts.Pairwise fun a b => b.replaces a = false

instance (t : Tree) : Decidable t.Distinct :=
  inferInstanceAs (Decidable (List.Pairwise _ _))

instance (t : Tree) : Decidable t.Lasting :=
  inferInstanceAs (Decidable (List.Pairwise _ _))

-- ======================================================= one insertion

theorem mem_of_part? {k : Key} (h : t.part? k = some x) :
    x ∈ t.parts ∧ x.key = k := by
  unfold part? at h
  have found := List.find?_some h
  exact ⟨List.mem_of_find?_eq_some h, beq_iff_eq.1 found⟩

theorem part?_of_cut (cut : t.parts = a ++ x :: b) (hx : x.key = d.key)
    (first : ∀ y ∈ a, y.key ≠ d.key) : t.part? d.key = some x := by
  refine List.find?_eq_some_iff_append.2 ⟨beq_iff_eq.2 hx, a, b, cut, ?_⟩
  intro y hy
  simpa using first y hy

/-- Without a limit a diagnostic goes into the first part with its key,
or comes to stand behind the parts it does not replace. -/
theorem insert_noLimit_cases (d : Diagnostic) (t : Tree) :
    (∃ (a b : List Diagnostic) (x : Diagnostic),
      t.parts = a ++ x :: b ∧ x.key = d.key ∧ (∀ y ∈ a, y.key ≠ d.key)
        ∧ insert noLimit d t = ⟨t.position, a ++ x.absorb d :: b⟩)
      ∨ ((∀ y ∈ t.parts, y.key ≠ d.key)
        ∧ insert noLimit d t
          = ⟨t.position, t.parts.filter (!d.replaces ·) ++ [d]⟩) := by
  cases d with
  | leaf m =>
      rw [insert_leaf_noLimit]
      cases hf : t.parts.find? (·.message? == some m) with
      | some x =>
          obtain ⟨hx, a, b, cut, first⟩ :=
            List.find?_eq_some_iff_append.1 hf
          have known : t.hasMessage m = true := by
            refine List.any_eq_true.2 ⟨x, ?_, hx⟩
            rw [cut]
            exact List.mem_append_right a List.mem_cons_self
          refine Or.inl ⟨a, b, x, cut, key_eq_message_iff.2 (beq_iff_eq.1 hx),
            fun y hy h => ?_, ?_⟩
          · have other := first y hy
            rw [key_eq_message_iff.1 h] at other
            simp at other
          · rw [addMessage, if_pos known, absorb_leaf, ← cut]
      | none =>
          have fresh := List.find?_eq_none.1 hf
          have unknown : ¬ t.hasMessage m = true := fun h =>
            let ⟨x, hx, there⟩ := List.any_eq_true.1 h
            fresh x hx there
          have all : t.parts.filter (!(leaf m).replaces ·) = t.parts :=
            List.filter_eq_self.2 fun _ _ => rfl
          refine Or.inr ⟨fun y hy h => ?_, ?_⟩
          · exact fresh y hy (beq_iff_eq.2 (key_eq_message_iff.1 h))
          · rw [addMessage, if_neg unknown, all]
  | node p parts =>
      rcases insert_node_noLimit p parts t with
        ⟨a, b, u, cut, rfl, first, same⟩ | ⟨fresh, same⟩
      · exact Or.inl ⟨a, b, u.toDiagnostic, cut, rfl,
          fun y hy h => first y hy (key_eq_position_iff.1 h), same⟩
      · exact Or.inr
          ⟨fun y hy h => fresh y hy (key_eq_position_iff.1 h), same⟩

/-- What stands at the key of a diagnostic after merging it: what stood
there before, with the diagnostic in it, or the diagnostic. -/
theorem part?_insert_self (d : Diagnostic) (t : Tree) :
    (insert noLimit d t).part? d.key = some d
      ∨ ∃ x : Diagnostic,
        (insert noLimit d t).part? d.key = some (x.absorb d) := by
  rcases insert_noLimit_cases d t with
    ⟨a, b, x, -, hx, first, same⟩ | ⟨fresh, same⟩
  · refine Or.inr ⟨x, ?_⟩
    rw [same]
    exact part?_of_cut rfl ((key_absorb x d).trans hx) first
  · rw [same]
    exact Or.inl (part?_of_cut rfl rfl
      fun y hy => fresh y (List.mem_filter.1 hy).1)

/-- What stands at another key stays, unless it is replaced. -/
theorem part?_insert_of_ne (other : e.key ≠ d.key)
    (kept : e.replaces d = false) :
    (insert noLimit e t).part? d.key = t.part? d.key := by
  rcases insert_noLimit_cases e t with
    ⟨a, b, x, cut, hx, -, same⟩ | ⟨-, same⟩
  · have before : (x.key == d.key) = false :=
      beq_eq_false_iff_ne.2 (hx ▸ other)
    have after : ((x.absorb e).key == d.key) = false := by
      rw [key_absorb]
      exact before
    rw [same, part?, part?, cut, List.find?_append, List.find?_append,
      List.find?_cons, List.find?_cons, before, after]
  · have alone : [e].find? (·.key == d.key) = none := by
      rw [List.find?_cons, beq_eq_false_iff_ne.2 other]
      rfl
    have stays (y : Diagnostic) :
        ((!e.replaces y) = true ∧ (y.key == d.key) = true)
          ↔ (y.key == d.key) = true := by
      refine and_iff_right_of_imp fun hy => ?_
      rw [replaces_congr (beq_iff_eq.1 hy), kept]
      rfl
    rw [same, part?, part?, List.find?_append, alone, Option.or_none,
      List.find?_filter]
    simp only [stays, Bool.decide_eq_true]

/-- A diagnostic is in a tree already when it is in the part with its
key. -/
theorem insert_eq_self_iff :
    insert noLimit d t = t
      ↔ ∃ x, t.part? d.key = some x ∧ x.absorb d = x := by
  rcases insert_noLimit_cases d t with
    ⟨a, b, x, cut, hx, first, same⟩ | ⟨fresh, same⟩
  · have there := part?_of_cut cut hx first
    rw [same]
    constructor
    · intro h
      have parts := congrArg Tree.parts h
      rw [cut] at parts
      exact ⟨x, there, (List.cons.inj (List.append_cancel_left parts)).1⟩
    · rintro ⟨y, hy, still⟩
      obtain rfl := Option.some.inj (there.symm.trans hy)
      rw [still, ← cut]
  · constructor
    · intro h
      refine absurd rfl (fresh d ?_)
      rw [← h, same]
      exact List.mem_append_right _ List.mem_cons_self
    · rintro ⟨y, there, -⟩
      obtain ⟨hy, found⟩ := mem_of_part? there
      exact absurd found (fresh y hy)

/-- A diagnostic in a tree stays in it while others are merged that do
not replace it. -/
theorem insert_eq_self_insert (h : insert noLimit d t = t)
    (other : e.key ≠ d.key) (kept : e.replaces d = false) :
    insert noLimit d (insert noLimit e t) = insert noLimit e t := by
  obtain ⟨x, there, still⟩ := insert_eq_self_iff.1 h
  refine insert_eq_self_iff.2 ⟨x, ?_, still⟩
  rw [part?_insert_of_ne other kept, there]

-- ====================================================== all insertions

theorem insert_eq_self_insertAll (h : insert noLimit d t = t)
    (others : ∀ e ∈ ds, d.key ≠ e.key)
    (kept : ∀ e ∈ ds, e.replaces d = false) :
    insert noLimit d (insertAll noLimit ds t)
      = insertAll noLimit ds t := by
  induction ds generalizing t with
  | nil =>
      rw [insertAll]
      exact h
  | cons e ds ih =>
      rw [insertAll]
      have first := insert_eq_self_insert h
        (others e List.mem_cons_self).symm (kept e List.mem_cons_self)
      exact ih first (fun e he => others e (List.mem_cons_of_mem _ he))
        (fun e he => kept e (List.mem_cons_of_mem _ he))

/-- Merging what is in a tree changes nothing. -/
theorem insertAll_eq_self (h : ∀ d ∈ ds, insert noLimit d t = t) :
    insertAll noLimit ds t = t := by
  induction ds with
  | nil => rw [insertAll]
  | cons d ds ih =>
      rw [insertAll, h d List.mem_cons_self]
      exact ih fun e he => h e (List.mem_cons_of_mem d he)

/-- Each of some diagnostics is in the tree they were all merged into, if
it is in every tree it was merged into and none behind it replaces
it. -/
theorem insert_insertAll
    (each : ∀ d ∈ ds, ∀ t : Tree,
      insert noLimit d (insert noLimit d t) = insert noLimit d t)
    (distinct : ds.Pairwise fun a b => a.key ≠ b.key)
    (lasting : ds.Pairwise fun a b => b.replaces a = false) (t : Tree) :
    ∀ d ∈ ds, insert noLimit d (insertAll noLimit ds t)
      = insertAll noLimit ds t := by
  induction ds generalizing t with
  | nil => exact fun d hd => absurd hd List.not_mem_nil
  | cons e ds ih =>
      obtain ⟨apart, distinct⟩ := List.pairwise_cons.1 distinct
      obtain ⟨kept, lasting⟩ := List.pairwise_cons.1 lasting
      intro d hd
      rw [insertAll]
      rcases List.mem_cons.1 hd with rfl | hd
      · exact insert_eq_self_insertAll (each d List.mem_cons_self t)
          apart kept
      · exact ih (fun d hd => each d (List.mem_cons_of_mem e hd))
          distinct lasting _ d hd

-- ============================================================== twice

/-- A diagnostic is in itself. -/
theorem absorb_self (d : Diagnostic)
    (distinct : ∀ u ∈ d.trees, u.Distinct) : d.absorb d = d := by
  induction d using Diagnostic.induction with
  | leaf m => rfl
  | node p parts ih =>
      have apart : List.Pairwise _ parts :=
        distinct ⟨p, parts⟩ List.mem_cons_self
      refine congrArg toDiagnostic
        (insertAll_eq_self (t := ⟨p, parts⟩) fun d hd => ?_)
      have still := ih d hd fun u hu => distinct u (mem_trees_of_mem hd hu)
      obtain ⟨a, b, rfl⟩ := List.append_of_mem hd
      refine insert_eq_self_iff.2 ⟨d, part?_of_cut rfl rfl ?_, still⟩
      intro y hy
      exact (List.pairwise_append.1 apart).2.2 y hy d List.mem_cons_self

/-- A diagnostic that is in itself and in the parts it was merged into is
in every tree it was merged into. -/
theorem insert_insert_of_absorb (self : d.absorb d = d)
    (twice : ∀ x : Diagnostic, (x.absorb d).absorb d = x.absorb d)
    (t : Tree) :
    insert noLimit d (insert noLimit d t) = insert noLimit d t := by
  rcases part?_insert_self d t with there | ⟨x, there⟩
  · exact insert_eq_self_iff.2 ⟨d, there, self⟩
  · exact insert_eq_self_iff.2 ⟨x.absorb d, there, twice x⟩

/-- A diagnostic is in the parts it was merged into. -/
theorem absorb_absorb (d : Diagnostic) :
    (∀ u ∈ d.trees, u.Distinct) → (∀ u ∈ d.trees, u.Lasting) →
      ∀ x : Diagnostic, (x.absorb d).absorb d = x.absorb d := by
  induction d using Diagnostic.induction with
  | leaf m =>
      intro _ _ x
      rw [absorb_leaf, absorb_leaf]
  | node p parts ih =>
      intro distinct lasting x
      cases x with
      | leaf m => rfl
      | node q old =>
          refine congrArg toDiagnostic (insertAll_eq_self
            (insert_insertAll (fun d hd => ?_)
              (distinct ⟨p, parts⟩ List.mem_cons_self)
              (lasting ⟨p, parts⟩ List.mem_cons_self) ⟨q, old⟩))
          have apart := fun u hu => distinct u (mem_trees_of_mem hd hu)
          exact insert_insert_of_absorb (absorb_self d apart)
            (ih d hd apart fun u hu => lasting u (mem_trees_of_mem hd hu))

/-- A diagnostic is in every tree it was merged into. -/
theorem insert_insert (distinct : ∀ u ∈ d.trees, u.Distinct)
    (lasting : ∀ u ∈ d.trees, u.Lasting) (t : Tree) :
    insert noLimit d (insert noLimit d t) = insert noLimit d t :=
  insert_insert_of_absorb (absorb_self d distinct)
    (absorb_absorb d distinct lasting) t

/-- The messages of a diagnostic that is in a tree are there, by the ways
they have in the diagnostic. -/
theorem traces_of_insert_eq_self (d : Diagnostic) :
    (∀ u ∈ d.trees, u.Distinct) → (∀ u ∈ d.trees, u.Lasting) →
      ∀ t : Tree, insert noLimit d t = t →
        ∀ e ∈ d.traces, e ∈ tracesAll t.parts := by
  induction d using Diagnostic.induction with
  | leaf m =>
      intro _ _ t h e he
      obtain ⟨x, there, -⟩ := insert_eq_self_iff.1 h
      obtain ⟨hx, same⟩ := mem_of_part? there
      cases x with
      | leaf m' =>
          obtain rfl := Key.message.inj same
          exact mem_tracesAll.2 ⟨_, hx, he⟩
      | node q old => cases same
  | node p parts ih =>
      intro distinct lasting t h e he
      obtain ⟨x, there, still⟩ := insert_eq_self_iff.1 h
      obtain ⟨hx, same⟩ := mem_of_part? there
      cases x with
      | leaf m => cases same
      | node q old =>
          obtain rfl := Key.position.inj same
          obtain ⟨inner, hi, rfl⟩ := List.mem_map.1 he
          obtain ⟨d, hd, hi⟩ := mem_tracesAll.1 hi
          have apart := fun d hd u hu =>
            distinct u (mem_trees_of_mem (d := d) hd hu)
          have last := fun d hd u hu =>
            lasting u (mem_trees_of_mem (d := d) hd hu)
          -- All parts are in the tree after they were merged into it, and
          -- merging them changed nothing, so they are in it.
          have inside := insert_insertAll
            (fun d hd => insert_insert (apart d hd) (last d hd))
            (distinct ⟨q, parts⟩ List.mem_cons_self)
            (lasting ⟨q, parts⟩ List.mem_cons_self) ⟨q, old⟩ d hd
          have unchanged : insertAll noLimit parts ⟨q, old⟩ = ⟨q, old⟩ :=
            toDiagnostic_inj still
          rw [unchanged] at inside
          have found := ih d hd (apart d hd) (last d hd) _ inside inner hi
          exact mem_tracesAll.2 ⟨_, hx, List.mem_map.2 ⟨inner, found, rfl⟩⟩

end Tree

-- ======================================================== whole merges

namespace Diagnostics

variable {r : Tree} {entries : List Tree}

/-- Into entries the second merge of a tree changes nothing, if none of
the entries is changed by its parts when they are merged again. -/
theorem mergeInto_mergeInto
    (self : r.merge noLimit r.parts = r)
    (twice : ∀ t : Tree, (t.merge noLimit r.parts).merge noLimit r.parts
      = t.merge noLimit r.parts) :
    mergeInto noLimit r (mergeInto noLimit r entries)
      = mergeInto noLimit r entries := by
  induction entries with
  | nil => rw [mergeInto, mergeInto, if_pos rfl, self]
  | cons t rest ih =>
      by_cases here : t.position = r.position
      · have still : (t.merge noLimit r.parts).position = r.position := by
          rw [Tree.merge_eq_insertAll, Tree.position_insertAll]
          exact here
        rw [mergeInto, if_pos here, mergeInto, if_pos still, twice]
      · rw [mergeInto, if_neg here, mergeInto, if_neg here, ih]

theorem merge_singleton {c : Diagnostics} (h : c.limit = noLimit)
    (r : Tree) :
    c.merge [r] = { c with entries := mergeInto noLimit r c.entries } := by
  obtain ⟨entries, limit⟩ := c
  obtain rfl := h
  rfl

end Diagnostics

namespace Tree

open Diagnostic

/-- Merging a diagnostic twice is merging it once, into a tree and into
a collection, if its trees have no two parts with one key and no part
that is replaced by a part behind it. And once is enough: all its
messages are in the tree then, by the ways they have under the root. -/
theorem merge_merge_eq (d : Diagnostic)
    (distinct : ∀ u ∈ d.trees, u.Distinct)
    (lasting : ∀ u ∈ d.trees, u.Lasting) :
    (∀ t : Tree, (t.merge noLimit [d]).merge noLimit [d]
        = t.merge noLimit [d])
      ∧ (∀ t : Tree, ∀ e ∈ (Diagnostic.node t.position [d]).traces,
          e ∈ (t.merge noLimit [d]).toDiagnostic.traces)
      ∧ ∀ r : Tree, r.toDiagnostic = d →
        ∀ c : Diagnostics, c.limit = noLimit →
          (c.merge [r]).merge [r] = c.merge [r] := by
  have alone (t : Tree) : t.merge noLimit [d] = insert noLimit d t := by
    simp only [merge_eq_insertAll, insertAll]
  refine ⟨fun t => ?_, fun t e he => ?_, ?_⟩
  · rw [alone, alone]
    exact insert_insert distinct lasting t
  · obtain ⟨inner, hi, rfl⟩ := List.mem_map.1 he
    obtain ⟨d', hd, new⟩ := mem_tracesAll.1 hi
    obtain rfl := List.mem_singleton.1 hd
    rw [alone, ← position_insert noLimit d' t]
    exact mem_traces_toDiagnostic.2 ⟨inner, traces_of_insert_eq_self d'
      distinct lasting _ (insert_insert distinct lasting t) inner new, rfl⟩
  · rintro r rfl c unlimited
    have again : (c.merge [r]).limit = noLimit := by
      rw [Diagnostics.merge_singleton unlimited]
      exact unlimited
    rw [Diagnostics.merge_singleton again,
      Diagnostics.merge_singleton unlimited,
      Diagnostics.mergeInto_mergeInto]
    · rw [merge_eq_insertAll]
      exact toDiagnostic_inj (absorb_self _ distinct)
    · intro t
      simp only [merge_eq_insertAll]
      exact toDiagnostic_inj
        (absorb_absorb _ distinct lasting t.toDiagnostic)

/-- A tree with a part that holds a message and a tree. -/
def outer : Tree where
  position := ⟨"a", 0, 1, 1⟩
  parts := [.node ⟨"b", 0, 1, 1⟩
    [.leaf "m", .node ⟨"c", 0, 1, 1⟩ [.leaf "x"]]]

/-- A tree at the position of the part of `outer`, with a given first
part and one behind it that carries the tree in that part. -/
def update (first : Diagnostic) : Tree where
  position := ⟨"b", 0, 1, 1⟩
  parts := [first,
    .node ⟨"d", 0, 1, 1⟩ [.leaf "y", .node ⟨"c", 0, 1, 1⟩ [.leaf "x"]],
    .leaf "z"]

/-- The first merge replaces a tree and adds a message, the second
changes nothing. -/
theorem merge_merge_update :
    let r := update (.leaf "m")
    let d := r.toDiagnostic
    let c : Diagnostics := ⟨[outer], noLimit⟩
    (∀ u ∈ d.trees, u.Distinct) ∧ (∀ u ∈ d.trees, u.Lasting)
      ∧ outer.merge noLimit [d] = ⟨outer.position, [d]⟩
      ∧ (outer.merge noLimit [d]).merge noLimit [d]
        = outer.merge noLimit [d]
      ∧ (∀ e ∈ (Diagnostic.node outer.position [d]).traces,
        e ∈ (outer.merge noLimit [d]).toDiagnostic.traces)
      ∧ (c.merge [r]).merge [r] = c.merge [r] := by
  intro r d c
  have distinct : ∀ u ∈ d.trees, u.Distinct := by decide +kernel
  have lasting : ∀ u ∈ d.trees, u.Lasting := by decide +kernel
  have twice := merge_merge_eq d distinct lasting
  refine ⟨distinct, lasting, ?_, twice.1 outer, twice.2.1 outer,
    twice.2.2 r rfl c rfl⟩
  rw [merge_eq_insertAll]
  decide +kernel

/-- A part that was replaced comes back with the second merge. -/
theorem not_merge_merge_all :
    ¬ ∀ (d : Diagnostic) (t : Tree), (∀ u ∈ d.trees, u.Distinct) →
      (t.merge noLimit [d]).merge noLimit [d] = t.merge noLimit [d] := by
  intro h
  have same := h (update (.node ⟨"c", 0, 1, 1⟩ [.leaf "x"])).toDiagnostic
    outer (by decide +kernel)
  rw [merge_eq_insertAll, merge_eq_insertAll] at same
  revert same
  decide +kernel

end Tree

end BuildLexer
