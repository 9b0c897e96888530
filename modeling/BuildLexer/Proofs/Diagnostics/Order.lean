/-
What the order of diagnostics is, and what sorting by it does.

Trees are ordered by their lines and, on one line, by their ranks
(`order_eq`): that is a total preorder in which two trees are level when
they agree in both. So the sorted entries are determined by the entries
as far as lines and ranks go, in whatever order they came
(`map_key_sort`); and since the sort is stable, trees that are level
with each other stay in the order they came (`filter_sort`).
-/
import BuildLexer.Diagnostic.Collection
import BuildLexer.Proofs.Encoding.Order

namespace BuildLexer

-- =============================================================== keys

namespace Tree

/-- The line that a tree is on: the name of its file, and its number. -/
def line (t : Tree) : String × Nat :=
  (t.position.filename, t.position.line)

/-- What ranks the trees of a line: the column, whether the tree holds
trees, and its first message. -/
def rank (t : Tree) : Nat × Bool × Option String :=
  (t.position.column, t.hasNodes, t.firstMessage)

/-- All that trees are ordered by. -/
def key (t : Tree) : (String × Nat) × (Nat × Bool × Option String) :=
  (t.line, t.rank)

/-- A tree is on a line before that of another, by the bytes of the names
of their files and then by number. -/
def LineBefore (a b : Tree) : Prop :=
  Prod.Lex Utf8.Before (· < ·) a.line b.line

/-- A tree ranks before another: it begins further left, or there too and
it alone holds no trees, or they are alike in this too and it alone has
no message or the bytes of its first message come before. -/
def RankBefore (a b : Tree) : Prop :=
  Prod.Lex (· < ·) (Prod.Lex (· < ·) (Option.lt Utf8.Before)) a.rank b.rank

end Tree

namespace Diagnostics

attribute [local instance] lexOrd

variable {a b : Tree}

-- =========================================================== the order

/-- The order is that of the keys, compared one after the other. -/
theorem order_eq_compare_key (a b : Tree) :
    order a b = compare a.key b.key :=
  (Ordering.then_assoc _ _ _).symm

/-- Trees on different lines are ordered by line, others by rank. -/
theorem order_eq (a b : Tree) :
    order a b = (compare a.line b.line).then (compare a.rank b.rank) :=
  order_eq_compare_key a b

instance : Std.TransCmp order where
  eq_swap {a b} := by
    rw [order_eq_compare_key, order_eq_compare_key]
    exact Std.OrientedCmp.eq_swap
  isLE_trans {a b c} hab hbc := by
    rw [order_eq_compare_key] at hab hbc ⊢
    exact Std.TransCmp.isLE_trans hab hbc

/-- Being on one line is having the same line. -/
theorem sameLine_iff : sameLine a b = true ↔ a.line = b.line := by
  simp only [sameLine, Bool.and_eq_true, beq_iff_eq, Tree.line,
    Prod.mk.injEq]

/-- Lines are ordered by the bytes of file names, and then by number. -/
theorem compare_line_eq_lt :
    compare a.line b.line = .lt ↔ a.LineBefore b := by
  unfold Tree.LineBefore
  rw [Prod.lex_def, ← Utf8.compare_eq_lt, ← Nat.compare_eq_lt,
    ← Std.compare_eq_iff_eq (a := a.line.1)]
  exact Ordering.then_eq_lt

/-- Messages are ordered by their bytes, and none comes before any. -/
theorem compare_message_eq_lt {m n : Option String} :
    compare m n = .lt ↔ Option.lt Utf8.Before m n := by
  match m, n with
  | none, none => exact ⟨nofun, nofun⟩
  | none, some n => exact ⟨fun _ => trivial, fun _ => rfl⟩
  | some m, none => exact ⟨nofun, nofun⟩
  | some m, some n => exact Utf8.compare_eq_lt

/-- Ranks are ordered by column, by what is held, and by first message. -/
theorem compare_rank_eq_lt :
    compare a.rank b.rank = .lt ↔ a.RankBefore b := by
  have kinds {x y : Bool} : compare x y = .lt ↔ x < y := by
    cases x <;> cases y <;> decide
  unfold Tree.RankBefore
  rw [Prod.lex_def, Prod.lex_def, ← compare_message_eq_lt, ← kinds,
    ← Nat.compare_eq_lt, ← Std.compare_eq_iff_eq (a := a.rank.1),
    ← Std.compare_eq_iff_eq (a := a.rank.2.1)]
  exact Ordering.then_eq_lt.trans
    (or_congr_right (and_congr_right fun _ => Ordering.then_eq_lt))

/-- Trees in order. -/
def InOrder (trees : List Tree) : Prop :=
  trees.Pairwise fun a b => (order a b).isLE = true

/-- Trees in order are on lines in order. -/
theorem compare_line_isLE (h : (order a b).isLE = true) :
    (compare a.line b.line).isLE = true := by
  rw [order_eq, Ordering.isLE_then_iff_and] at h
  exact h.1

/-- On one line the order is by rank. -/
theorem compare_rank_isLE (h : (order a b).isLE = true)
    (line : a.line = b.line) : (compare a.rank b.rank).isLE = true := by
  rwa [order_eq, Std.compare_eq_iff_eq.2 line] at h

-- ============================================================ sorting

/-- The order is transitive. -/
theorem order_isLE_trans (a b c : Tree) (hab : (order a b).isLE = true)
    (hbc : (order b c).isLE = true) : (order a c).isLE = true :=
  Std.TransCmp.isLE_trans hab hbc

/-- The order is total. -/
theorem order_isLE_total (a b : Tree) :
    ((order a b).isLE || (order b a).isLE) = true := by
  have swap : order b a = (order a b).swap := Std.OrientedCmp.eq_swap
  rw [swap]
  cases order a b <;> rfl

/-- Sorting keeps the entries. -/
theorem sort_perm (d : Diagnostics) : d.sort.entries.Perm d.entries :=
  List.mergeSort_perm _ _

/-- It puts them in order. -/
theorem inOrder_sort (d : Diagnostics) : InOrder d.sort.entries :=
  List.pairwise_mergeSort order_isLE_trans order_isLE_total _

/-- What is in order is left as it is. -/
theorem sort_of_inOrder {d : Diagnostics} (h : InOrder d.entries) :
    d.sort = d := by
  unfold sort
  rw [List.mergeSort_of_pairwise h]

/-- The sort is stable: entries that may stand in any order among each
other stay in the order they came. -/
theorem filter_sort {d : Diagnostics} {p : Tree → Bool}
    (level : ∀ a b, p a = true → p b = true → (order a b).isLE = true) :
    d.sort.entries.filter p = d.entries.filter p := by
  have sorted : InOrder (d.entries.filter p) :=
    List.pairwise_of_forall_mem_list fun a ha b hb =>
      level a b (List.mem_filter.1 ha).2 (List.mem_filter.1 hb).2
  have kept : (d.entries.filter p).Sublist d.sort.entries :=
    List.sublist_mergeSort order_isLE_trans order_isLE_total sorted
      List.filter_sublist
  have inside := kept.filter p
  rw [List.filter_filter] at inside
  simp only [Bool.and_self] at inside
  exact (inside.eq_of_length ((sort_perm d).filter p).length_eq.symm).symm

/-- The sorted lines and ranks do not depend on the order that the
entries came in. -/
theorem map_key_sort {d e : Diagnostics} (h : e.entries.Perm d.entries) :
    e.sort.entries.map Tree.key = d.sort.entries.map Tree.key := by
  have sorted (d : Diagnostics) : (d.sort.entries.map Tree.key).Pairwise
      fun x y => (compare x y).isLE = true := by
    rw [List.pairwise_map]
    refine (inOrder_sort d).imp fun {a b} hab => ?_
    rwa [← order_eq_compare_key]
  refine List.Perm.eq_of_pairwise ?_ (sorted e) (sorted d) ?_
  · intro x y _ _ hxy hyx
    exact Std.compare_eq_iff_eq.1 (Std.OrientedCmp.isLE_antisymm hxy hyx)
  · exact (((sort_perm e).trans h).trans (sort_perm d).symm).map Tree.key

end Diagnostics

end BuildLexer
