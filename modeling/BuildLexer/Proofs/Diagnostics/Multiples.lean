/-
Of the diagnostics on a line, the least is kept.

What is kept is found by comparing neighbours only. In sorted entries
this is enough: the trees of one line stand together, so an entry is
kept exactly when it is the first of its line there
(`mem_eraseRepsBy_iff`), and the lines of those kept increase
(`pairwise_eraseRepsBy`). The induction that carries both goes along the
entries by the one that was kept last and its neighbour
(`neighbours_induction`).

The first of a line in sorted entries is the least of it by rank, and
among those of least rank the one that came first, as the sort is stable
(`leastOfLine_of_find?`).
-/
import BuildLexer.Proofs.Diagnostics.Order

namespace BuildLexer

/-- A tree is the least of its line among some: it ranks before those of
the line that came earlier, and none that came later ranks before it. -/
def Tree.LeastOfLine (t : Tree) (trees : List Tree) : Prop :=
  ∃ earlier later, trees = earlier ++ t :: later
    ∧ (∀ u ∈ earlier, u.line = t.line → t.RankBefore u)
    ∧ ∀ u ∈ later, u.line = t.line → ¬ u.RankBefore t

namespace Diagnostics

attribute [local instance] lexOrd

-- ========================================================== neighbours

section

variable {α β : Type} {same : α → α → Bool}

/-- What is kept already stays in front. -/
theorem eraseRepsBy_loop (a : α) (l acc : List α) :
    List.eraseRepsBy.loop same a l acc
      = acc.reverse ++ List.eraseRepsBy.loop same a l [] := by
  induction l generalizing a acc with
  | nil => exact List.reverse_cons
  | cons b l ih =>
      unfold List.eraseRepsBy.loop
      cases same a b with
      | true => exact ih a acc
      | false =>
          dsimp only
          rw [ih b (a :: acc), ih b [a], List.reverse_cons,
            List.append_assoc]
          rfl

/-- Of two neighbours that are the same the first stays in question, and
otherwise it is kept and the second is in question. -/
theorem eraseRepsBy_cons_cons (a b : α) (l : List α) :
    (a :: b :: l).eraseRepsBy same
      = if same a b then (a :: l).eraseRepsBy same
        else a :: (b :: l).eraseRepsBy same := by
  rw [List.eraseRepsBy, List.eraseRepsBy.loop]
  cases same a b with
  | true => rfl
  | false => exact eraseRepsBy_loop b l [a]

/-- Induction by the tree in question and its neighbour. -/
theorem neighbours_induction (same : α → α → Bool) {motive : List α → Prop}
    (nil : motive []) (single : ∀ a, motive [a])
    (drop : ∀ a b l, same a b = true → motive (a :: l) →
      motive (a :: b :: l))
    (keep : ∀ a b l, same a b = false → motive (b :: l) →
      motive (a :: b :: l)) (l : List α) : motive l := by
  cases l with
  | nil => exact nil
  | cons a l =>
      induction l generalizing a with
      | nil => exact single a
      | cons b l ih =>
          cases h : same a b with
          | true => exact drop a b l h (ih a)
          | false => exact keep a b l h (ih b)

/-- Of two that are the same the first one stays for both. -/
theorem eraseRepsBy_of_same {a b : α} (h : same a b = true) (l : List α) :
    (a :: b :: l).eraseRepsBy same = (a :: l).eraseRepsBy same := by
  rw [eraseRepsBy_cons_cons, if_pos h]

/-- Of two that are not, the first one is kept. -/
theorem eraseRepsBy_of_different {a b : α} (h : same a b = false)
    (l : List α) :
    (a :: b :: l).eraseRepsBy same = a :: (b :: l).eraseRepsBy same := by
  rw [eraseRepsBy_cons_cons, h, if_neg Bool.false_ne_true]

/-- Nothing is added and the order is kept. -/
theorem eraseRepsBy_sublist (l : List α) :
    (l.eraseRepsBy same).Sublist l := by
  induction l using neighbours_induction same with
  | nil => exact List.Sublist.refl _
  | single a => exact List.Sublist.refl _
  | drop a b l h ih =>
      rw [eraseRepsBy_of_same h]
      exact ih.trans ((List.sublist_cons_self b l).cons_cons a)
  | keep a b l h ih =>
      rw [eraseRepsBy_of_different h]
      exact ih.cons_cons a

/-- Where no two are the same all are kept. -/
theorem eraseRepsBy_of_pairwise {l : List α}
    (apart : l.Pairwise fun a b => same a b = false) :
    l.eraseRepsBy same = l := by
  induction l using neighbours_induction same with
  | nil => rfl
  | single a => rfl
  | drop a b l h =>
      have neighbours := List.rel_of_pairwise_cons apart List.mem_cons_self
      rw [h] at neighbours
      cases neighbours
  | keep a b l h ih => rw [eraseRepsBy_of_different h, ih apart.tail]

/-- What decides whether two are the same may be all that is looked at. -/
theorem map_eraseRepsBy {f : α → β} {r : β → β → Bool}
    (seen : ∀ a b, same a b = r (f a) (f b)) (l : List α) :
    (l.eraseRepsBy same).map f = (l.map f).eraseRepsBy r := by
  induction l using neighbours_induction same with
  | nil => rfl
  | single a => rfl
  | drop a b l h ih =>
      rw [eraseRepsBy_of_same h, ih]
      exact (eraseRepsBy_of_same ((seen a b).symm.trans h) _).symm
  | keep a b l h ih =>
      rw [eraseRepsBy_of_different h, List.map_cons, ih]
      exact (eraseRepsBy_of_different ((seen a b).symm.trans h) _).symm

end

-- ====================================================== first of a line

variable {a b u : Tree} {l : List Tree}

/-- A tree that is before another by its line is on another line. -/
theorem line_ne_of_lineBefore (h : a.LineBefore b) : a.line ≠ b.line := by
  intro line
  rw [← compare_line_eq_lt, Std.compare_eq_iff_eq.2 line] at h
  cases h

/-- Without its second tree a list in order stays in order. -/
theorem InOrder.dropSecond (h : InOrder (a :: b :: l)) :
    InOrder (a :: l) :=
  h.sublist ((List.sublist_cons_self b l).cons_cons a)

/-- In order, what is on another line than its neighbour is on a line
before those of all that follow. -/
theorem lineBefore_of_neighbour (h : InOrder (a :: b :: l))
    (different : sameLine a b = false) (hu : u ∈ b :: l) :
    a.LineBefore u := by
  have hab := compare_line_isLE
    (List.rel_of_pairwise_cons h List.mem_cons_self)
  have hbu : (compare b.line u.line).isLE = true := by
    rcases List.mem_cons.1 hu with rfl | hu
    · exact Std.ReflCmp.isLE_rfl
    · exact compare_line_isLE (List.rel_of_pairwise_cons h.tail hu)
  have strict : compare a.line b.line = .lt := by
    rw [Ordering.isLE_iff_eq_lt_or_eq_eq] at hab
    refine hab.resolve_right fun line => ?_
    rw [sameLine_iff.2 (Std.compare_eq_iff_eq.1 line)] at different
    cases different
  exact compare_line_eq_lt.1 (Std.TransCmp.lt_of_lt_of_isLE strict hbu)

/-- What is kept of trees in order is on lines that increase. -/
theorem pairwise_eraseRepsBy (h : InOrder l) :
    (l.eraseRepsBy sameLine).Pairwise Tree.LineBefore := by
  induction l using neighbours_induction sameLine with
  | nil => exact List.Pairwise.nil
  | single a => exact List.pairwise_singleton _ _
  | drop a b l same ih =>
      rw [eraseRepsBy_of_same same]
      exact ih h.dropSecond
  | keep a b l different ih =>
      rw [eraseRepsBy_of_different different]
      refine List.pairwise_cons.2 ⟨fun u hu => ?_, ih h.tail⟩
      exact lineBefore_of_neighbour h different
        ((eraseRepsBy_sublist _).subset hu)

/-- What is kept of trees in order is the first on each line. -/
theorem mem_eraseRepsBy_iff (h : InOrder l) :
    u ∈ l.eraseRepsBy sameLine ↔ l.find? (sameLine u) = some u := by
  have self : sameLine u u = true := sameLine_iff.2 rfl
  induction l using neighbours_induction sameLine with
  | nil => exact ⟨nofun, nofun⟩
  | single a =>
      rw [show [a].eraseRepsBy sameLine = [a] from rfl,
        List.mem_singleton, List.find?_singleton]
      constructor
      · rintro rfl
        rw [if_pos self]
      · intro found
        split at found
        · exact (Option.some.inj found).symm
        · cases found
  | drop a b l same ih =>
      have both : sameLine u b = sameLine u a := by
        rw [Bool.eq_iff_iff, sameLine_iff, sameLine_iff,
          sameLine_iff.1 same]
      rw [eraseRepsBy_of_same same]
      refine (ih h.dropSecond).trans ?_
      rw [List.find?_cons, List.find?_cons, List.find?_cons, both]
      cases sameLine u a <;> rfl
  | keep a b l different ih =>
      rw [eraseRepsBy_of_different different, List.mem_cons,
        List.find?_cons]
      refine (or_congr_right (ih h.tail)).trans ?_
      cases hu : sameLine u a with
      | true =>
          -- the line of `u` is that of the first, so nothing behind is on it
          rw [Option.some.injEq, eq_comm]
          refine or_iff_left fun found => ?_
          refine line_ne_of_lineBefore (lineBefore_of_neighbour h
            different (List.mem_of_find?_eq_some found)) ?_
          exact (sameLine_iff.1 hu).symm
      | false =>
          refine or_iff_right fun same => ?_
          rw [← same, self] at hu
          cases hu

-- ============================================================= the least

/-- In order, the first of a line has the least rank on it. -/
theorem rank_isLE_of_find? (h : InOrder l)
    (found : l.find? (sameLine u) = some u) {v : Tree} (hv : v ∈ l)
    (line : u.line = v.line) : (compare u.rank v.rank).isLE = true := by
  obtain ⟨-, before, behind, rfl, others⟩ :=
    List.find?_eq_some_iff_append.1 found
  rcases List.mem_append.1 hv with hv | hv
  · have other := others v hv
    rw [sameLine_iff.2 line] at other
    cases other
  rcases List.mem_cons.1 hv with rfl | hv
  · exact Std.ReflCmp.isLE_rfl
  · exact compare_rank_isLE (List.rel_of_pairwise_cons
      (List.pairwise_append.1 h).2.1 hv) line

/-- The entries that are level with the first of a line in the sorted
entries begin with it. -/
theorem filter_level_of_find? {d : Diagnostics}
    (found : d.sort.entries.find? (sameLine u) = some u) :
    ∃ more, d.entries.filter (fun v => order u v == .eq) = u :: more := by
  obtain ⟨-, before, behind, entries, others⟩ :=
    List.find?_eq_some_iff_append.1 found
  have none : before.filter (fun v => order u v == .eq) = [] := by
    refine List.filter_eq_nil_iff.2 fun v hv level => ?_
    have other := others v hv
    rw [beq_iff_eq, order_eq, Ordering.then_eq_eq] at level
    rw [sameLine_iff.2 (Std.compare_eq_iff_eq.1 level.1)] at other
    cases other
  have self : (order u u == .eq) = true :=
    beq_iff_eq.2 Std.ReflCmp.compare_self
  refine ⟨behind.filter (fun v => order u v == .eq), ?_⟩
  rw [← filter_sort fun a b ha hb => ?_, entries, List.filter_append,
    none, List.nil_append, List.filter_cons, if_pos self]
  rw [← Std.TransCmp.congr_left (beq_iff_eq.1 ha), beq_iff_eq.1 hb]
  rfl

/-- The first of a line in the sorted entries is the least of it. -/
theorem leastOfLine_of_find? {d : Diagnostics}
    (found : d.sort.entries.find? (sameLine u) = some u) :
    u.LeastOfLine d.entries := by
  have least {v : Tree} (hv : v ∈ d.entries) (line : u.line = v.line) :
      (compare u.rank v.rank).isLE = true :=
    rank_isLE_of_find? (inOrder_sort d) found
      ((sort_perm d).mem_iff.2 hv) line
  obtain ⟨more, level⟩ := filter_level_of_find? found
  obtain ⟨earlier, later, came, unlevel, -⟩ :=
    List.filter_eq_cons_iff.1 level
  refine ⟨earlier, later, came, fun v hv line => ?_, fun v hv line => ?_⟩
  · -- what came earlier is not level, so it ranks behind
    have ranks := least (by simp [came, hv]) line.symm
    rw [Ordering.isLE_iff_eq_lt_or_eq_eq] at ranks
    refine compare_rank_eq_lt.1 (ranks.resolve_right fun rank => ?_)
    refine unlevel v hv (beq_iff_eq.2 ?_)
    rw [order_eq, Std.compare_eq_iff_eq.2 line.symm, rank]
    rfl
  · intro before
    have ranks := least (by simp [came, hv]) line.symm
    have swap : compare u.rank v.rank = (compare v.rank u.rank).swap :=
      Std.OrientedCmp.eq_swap
    rw [swap, compare_rank_eq_lt.2 before] at ranks
    cases ranks

-- ==================================================== removing multiples

/-- Removing multiples leaves the first of each line in order. -/
theorem mem_removeMultiples_iff {d : Diagnostics} :
    u ∈ d.removeMultiples.entries
      ↔ d.sort.entries.find? (sameLine u) = some u :=
  mem_eraseRepsBy_iff (inOrder_sort d)

/-- What is kept is in the order of the lines. -/
theorem pairwise_removeMultiples (d : Diagnostics) :
    d.removeMultiples.entries.Pairwise Tree.LineBefore :=
  pairwise_eraseRepsBy (inOrder_sort d)

/-- Each line that there was is there once. -/
theorem count_line_removeMultiples {d : Diagnostics} {t : Tree}
    (ht : t ∈ d.entries) :
    (d.removeMultiples.entries.map Tree.line).count t.line = 1 := by
  have once : (d.removeMultiples.entries.map Tree.line).Nodup :=
    List.pairwise_map.2
      ((pairwise_removeMultiples d).imp line_ne_of_lineBefore)
  have self : sameLine t t = true := sameLine_iff.2 rfl
  obtain ⟨u, found⟩ := Option.isSome_iff_exists.1 (List.find?_isSome.2
    ⟨t, (sort_perm d).mem_iff.2 ht, self⟩)
  have line : t.line = u.line :=
    sameLine_iff.1 (List.find?_some found)
  have alike : sameLine t = sameLine u := by
    funext v
    rw [Bool.eq_iff_iff, sameLine_iff, sameLine_iff, line]
  rw [alike] at found
  rw [line]
  rw [once.count,
    if_pos (List.mem_map_of_mem (mem_removeMultiples_iff.2 found))]

/-- Removing multiples again changes nothing. -/
theorem removeMultiples_removeMultiples (d : Diagnostics) :
    d.removeMultiples.removeMultiples = d.removeMultiples := by
  have sorted : InOrder d.removeMultiples.entries :=
    (inOrder_sort d).sublist (eraseRepsBy_sublist _)
  have alone : d.removeMultiples.entries.eraseRepsBy sameLine
      = d.removeMultiples.entries := by
    refine eraseRepsBy_of_pairwise
      ((pairwise_removeMultiples d).imp fun {a b} before => ?_)
    rw [← Bool.not_eq_true, sameLine_iff]
    exact line_ne_of_lineBefore before
  unfold removeMultiples at sorted alone ⊢
  rw [sort_of_inOrder sorted, alone]

/-- In whichever order trees come in, the same keys are kept. -/
theorem map_key_removeMultiples {d e : Diagnostics}
    (h : e.entries.Perm d.entries) :
    e.removeMultiples.entries.map Tree.key
      = d.removeMultiples.entries.map Tree.key := by
  have kept (l : List Tree) : (l.eraseRepsBy sameLine).map Tree.key
      = (l.map Tree.key).eraseRepsBy fun x y => x.1 == y.1 := by
    refine map_eraseRepsBy (fun a b => ?_) l
    rw [Bool.eq_iff_iff, sameLine_iff, beq_iff_eq]
    rfl
  unfold removeMultiples
  rw [kept, kept, map_key_sort h]

/-- Of the entries on each line the one that is kept is the least: what
is kept is on lines that increase, is the least of its line among the
entries, and is once on each line that an entry is on. Once multiples are
removed there are none to remove, and the lines and ranks of what is kept
do not depend on the order that the entries came in. -/
theorem removeMultiples_keeps_least (d : Diagnostics) :
    d.removeMultiples.entries.Pairwise Tree.LineBefore
    ∧ (∀ t ∈ d.removeMultiples.entries, t.LeastOfLine d.entries)
    ∧ (∀ t ∈ d.entries,
        (d.removeMultiples.entries.map Tree.line).count t.line = 1)
    ∧ d.removeMultiples.removeMultiples = d.removeMultiples
    ∧ ∀ e : Diagnostics, e.entries.Perm d.entries →
        e.removeMultiples.entries.map Tree.key
          = d.removeMultiples.entries.map Tree.key :=
  ⟨pairwise_removeMultiples d,
    fun _ ht => leastOfLine_of_find? (mem_removeMultiples_iff.1 ht),
    fun _ ht => count_line_removeMultiples ht,
    removeMultiples_removeMultiples d,
    fun _ h => map_key_removeMultiples h⟩

/-- A message on the first line and three on the second, two of them at
one place. -/
def fourMessages : List Tree :=
  [.single ⟨"BUILD", 0, 1, 1⟩ "a", .single ⟨"BUILD", 12, 2, 4⟩ "b",
    .single ⟨"BUILD", 12, 2, 4⟩ "c", .single ⟨"BUILD", 16, 2, 8⟩ "a"]

/-- The least of each line is kept from the reversed list, too. -/
theorem removeMultiples_keeps_least_reversed :
    fourMessages.reverse.Perm fourMessages
    ∧ (removeMultiples { entries := fourMessages.reverse }).entries.map
        Tree.key
      = [(("BUILD", 1), 1, false, some "a"),
        (("BUILD", 2), 4, false, some "b")] := by
  have turned := List.reverse_perm fourMessages
  have sorted : InOrder fourMessages := by
    unfold InOrder
    decide +kernel
  have kept : removeMultiples { entries := fourMessages }
      = { entries := fourMessages.eraseRepsBy sameLine } := by
    rw [removeMultiples, sort_of_inOrder sorted]
  refine ⟨turned, ?_⟩
  rw [(removeMultiples_keeps_least
    { entries := fourMessages }).2.2.2.2 _ turned, kept]
  decide +kernel

end Diagnostics

end BuildLexer
