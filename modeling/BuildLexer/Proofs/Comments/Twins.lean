/-
Two scanners in sources that differ inside discarded comments only.

They stay at the same place, inside the same constructs, and report the
same but for reports that are not looked at (`Twins`). A step that
begins no comment looks at nothing that differs. A step that discards
one passes over its line unread, as many bytes in both sources, except
that it comes to the character right behind the hash sign before it
knows: that one is looked at, and reported if anything is wrong with its
encoding.
-/
import BuildLexer.Proofs.Comments.Discarded
import BuildLexer.Proofs.Comments.Modes
import BuildLexer.Proofs.Positions.Lines
import BuildLexer.Proofs.Scanner.Reports
import Mathlib.Data.List.TakeWhile

namespace BuildLexer

open Glyph Plan

-- ================================================================ runs

/-- A run is as long as its items show and the one behind it. -/
theorem length_takeWhile_eq_iff {α : Type} {p : α → Bool} {items : List α}
    {count : Nat} :
    (items.takeWhile p).length = count
      ↔ (∀ i < count, ∃ x, items[i]? = some x ∧ p x = true)
        ∧ ∀ x, items[count]? = some x → p x = false := by
  induction items generalizing count with
  | nil =>
      cases count with
      | zero => simp
      | succ count =>
          refine iff_of_false nofun fun h => ?_
          obtain ⟨x, hx, -⟩ := h.1 0 (Nat.succ_pos count)
          cases hx
  | cons x items ih =>
      cases hp : p x with
      | false =>
          rw [List.takeWhile_cons_of_neg (by simp [hp])]
          cases count with
          | zero => simp [hp]
          | succ count =>
              refine iff_of_false nofun fun h => ?_
              obtain ⟨y, hy, passes⟩ := h.1 0 (Nat.succ_pos count)
              obtain rfl := Option.some.inj hy
              rw [hp] at passes
              cases passes
      | true =>
          rw [List.takeWhile_cons_of_pos hp, List.length_cons]
          cases count with
          | zero => simp [hp]
          | succ count =>
              rw [Nat.add_right_cancel_iff, ih]
              refine and_congr ⟨fun run i hi => ?_, fun run i hi => ?_⟩ .rfl
              · cases i with
                | zero => exact ⟨x, rfl, hp⟩
                | succ i => exact run i (Nat.lt_of_succ_lt_succ hi)
              · exact run (i + 1) (Nat.succ_lt_succ hi)

/-- What is wrong with the encoding of the first character of a comment,
behind its hash sign. -/
def Comment.firstFault? (c : Comment) (source : List UInt8) :
    Option Fault :=
  (ofBytes (source.drop (c.hash + 1))).head?.bind (fault? (c.hash + 1))

namespace Scanner

-- ========================================================== two scanners

/-- Two scanners at the same place that have reported the same, as far as
reports are kept. What is ahead of them may differ. -/
structure Abreast (kept : Report → Bool) (s t : Scanner) : Prop where
  file : t.file = s.file
  mode : t.mode = s.mode
  offset : t.offset = s.offset
  nesting : t.nesting = s.nesting
  log : t.log.filter kept = s.log.filter kept

namespace Abreast

variable {kept : Report → Bool} {s t : Scanner}

theorem symm (h : Abreast kept s t) : Abreast kept t s :=
  ⟨h.file.symm, h.mode.symm, h.offset.symm, h.nesting.symm, h.log.symm⟩

theorem report (h : Abreast kept s t) (offset : Nat) (fault : Fault) :
    Abreast kept (s.report offset fault) (t.report offset fault) := by
  refine ⟨h.file, h.mode, h.offset, h.nesting, ?_⟩
  unfold Scanner.report
  dsimp only
  rw [List.filter_cons, List.filter_cons, h.file, h.log]

theorem reportAll (h : Abreast kept s t) (start : Nat)
    (fs : List Finding) :
    Abreast kept (s.reportAll start fs) (t.reportAll start fs) := by
  unfold Scanner.reportAll
  induction fs generalizing s t with
  | nil => exact h
  | cons f fs ih => exact ih (h.report _ _)

theorem look (h : Abreast kept s t)
    (front : t.rest.head? = s.rest.head?) : Abreast kept s.look t.look := by
  unfold Scanner.look
  rw [front, h.offset]
  split
  next fault _ => exact h.report _ _
  next => exact h

/-- A scanner moves on by itself where what it finds wrong is not kept. -/
theorem look_left (h : Abreast kept s t)
    (muted : ∀ fault, s.rest.head?.bind (fault? s.offset) = some fault →
      kept ⟨s.file.position (s.file.handle s.offset), fault⟩ = false) :
    Abreast kept s.look t := by
  unfold Scanner.look
  split
  next fault hf =>
    refine ⟨h.file, h.mode, h.offset, h.nesting, ?_⟩
    unfold Scanner.report
    rw [List.filter_cons, muted fault hf]
    exact h.log
  next => exact h

/-- Both pass a glyph. -/
theorem pass (h : Abreast kept s t) (g : Glyph) (rest rest' : List Glyph) :
    Abreast kept
      { s with
        rest := rest
        offset := s.offset + g.width
        file :=
          if g = newline then s.file.addLine (s.offset + g.width)
          else s.file }
      { t with
        rest := rest'
        offset := t.offset + g.width
        file :=
          if g = newline then t.file.addLine (t.offset + g.width)
          else t.file } := by
  refine ⟨?_, h.mode, ?_, h.nesting, h.log⟩
  · dsimp only
    rw [h.file, h.offset]
  · dsimp only
    rw [h.offset]

theorem advance (h : Abreast kept s t)
    (same : t.rest.take 2 = s.rest.take 2) :
    Abreast kept s.advance t.advance := by
  unfold Scanner.advance
  cases hs : s.rest with
  | nil =>
      rw [hs, List.take_nil, List.take_eq_nil_iff] at same
      rw [same.resolve_left (by decide)]
      exact h
  | cons g rest =>
      cases ht : t.rest with
      | nil =>
          rw [hs, ht] at same
          cases same
      | cons g' rest' =>
          rw [hs, ht, List.take_succ_cons, List.take_succ_cons] at same
          obtain ⟨rfl, behind⟩ := List.cons.inj same
          refine (h.pass g' rest rest').look ?_
          have := congrArg List.head? behind
          rwa [List.head?_take, List.head?_take] at this

theorem walk (h : Abreast kept s t) {count : Nat}
    (same : t.rest.take (count + 1) = s.rest.take (count + 1)) :
    Abreast kept (Scanner.walk count s) (Scanner.walk count t) := by
  induction count generalizing s t with
  | zero => exact h
  | succ count ih =>
      refine ih (h.advance ?_) ?_
      · have := congrArg (List.take 2) same
        rwa [List.take_take, List.take_take,
          Nat.min_eq_left (by omega)] at this
      · have := congrArg (List.drop 1) same
        rw [List.drop_take, List.drop_take] at this
        rw [rest_advance, rest_advance]
        exact this

/-- A step that passes over no line. -/
theorem perform (h : Abreast kept s t) {p : Plan}
    (counted : p.skipsLine = false)
    (same : t.rest.take (p.more + 2) = s.rest.take (p.more + 2)) :
    Abreast kept (s.perform p) (t.perform p) := by
  have same : (t.reportAll s.offset p.early).rest.take (p.more + 1 + 1)
      = (s.reportAll s.offset p.early).rest.take (p.more + 1 + 1) := by
    rw [rest_reportAll, rest_reportAll]
    exact same
  have walked := (h.reportAll s.offset p.early).walk same
  unfold Scanner.perform
  rw [h.offset, counted]
  have all := walked.reportAll s.offset p.late
  exact ⟨all.file, all.mode, all.offset, rfl, all.log⟩

/-- A step that discards a comment: what it finds wrong with the
character behind the hash sign is not kept. -/
theorem discard (h : Abreast kept s t) {x y : List Glyph}
    (hs : s.rest = .scalar '#' :: x) (ht : t.rest = .scalar '#' :: y)
    (width : totalWidth (y.takeWhile (· != newline))
      = totalWidth (x.takeWhile (· != newline)))
    (muted : ∀ rest, rest = x ∨ rest = y → ∀ fault,
      rest.head?.bind (fault? (s.offset + 1)) = some fault →
        kept ⟨s.file.position (s.file.handle (s.offset + 1)), fault⟩
          = false)
    (n : Nesting) :
    Abreast kept (s.perform (.discard n)) (t.perform (.discard n)) := by
  have reached : Abreast kept s.advance t.advance := by
    unfold Scanner.advance
    rw [hs, ht]
    have passed := h.pass (.scalar '#') x y
    have looked := (passed.look_left (muted x (Or.inl rfl))).symm
    refine (looked.look_left fun fault hf => ?_).symm
    rw [passed.offset] at hf
    rw [passed.file, passed.offset]
    exact muted y (Or.inr rfl) fault hf
  refine ⟨reached.file, reached.mode, ?_, rfl, reached.log⟩
  show t.advance.skipLine.offset = s.advance.skipLine.offset
  unfold skipLine
  dsimp only
  rw [rest_advance, rest_advance, hs, ht, List.drop_one, List.drop_one,
    List.tail_cons, List.tail_cons, width, reached.offset]

/-- A step for which the plan is the same, and the token it may make. -/
theorem step (plan : t.plan = s.plan) (offset : t.offset = s.offset)
    (h : Abreast kept (s.perform s.plan) (t.perform s.plan)) :
    Abreast kept s.step t.step := by
  cases hp : s.plan.token with
  | none =>
      rw [step_of_skip hp, step_of_skip (plan.symm ▸ hp), plan]
      exact h
  | some token =>
      rw [step_of_token hp, step_of_token (plan.symm ▸ hp), plan, offset]
      exact ⟨h.file, h.mode, h.offset, rfl, h.log⟩

end Abreast

/-- Two scanners in sources that differ inside the comments only which
the one discards from where it stands on. -/
structure Twins (kept : Report → Bool) (a b : List UInt8)
    (s t : Scanner) : Prop where
  abreast : Abreast kept s t
  plain : s.mode.commentTokens = false
  size : s.file.size = a.length
  left : s.StandsIn a
  right : t.StandsIn b
  length : b.length = a.length
  differ : s.DifferInComments a b
  lines : ∀ i : Nat, a[i]? ≠ b[i]? → b[i]? ≠ some 10
  muted : ∀ c ∈ s.discarded, ∀ source, source = a ∨ source = b →
    ∀ fault, c.firstFault? source = some fault →
      ∀ r : Report, r.position.offset = c.hash + 1 → r.fault = fault →
        kept r = false

namespace Twins

variable {kept : Report → Bool} {a b : List UInt8} {s t : Scanner}

theorem ahead (h : Twins kept a b s t) :
    s.rest = ofBytes (a.drop s.offset)
      ∧ t.rest = ofBytes (b.drop s.offset) := by
  refine ⟨h.left, ?_⟩
  rw [← h.abreast.offset]
  exact h.right

/-- Where a comment ends that is discarded. -/
theorem offset_step_of_atComment (h : Twins kept a b s t)
    (comment : s.nesting.AtComment s.rest) {x : List UInt8}
    (hx : a.drop s.offset = 35 :: x) :
    s.step.offset = s.offset + 1 + (x.takeWhile (· != 10)).length := by
  have rest : s.rest = .scalar '#' :: ofBytes x := by
    rw [h.ahead.1, hx, ← List.nil_append (35 :: x), ofBytes_hash, ofBytes,
      List.nil_append]
  rw [offset_step, (discarded_of_atComment h.plain comment).1, rest]
  show s.offset + (1 + totalWidth ((ofBytes x).takeWhile (· != newline))) = _
  rw [takeWhile_ofBytes, totalWidth_ofBytes, Nat.add_assoc]

/-- A comment is as long in both sources. -/
theorem length_comment (h : Twins kept a b s t)
    (comment : s.nesting.AtComment s.rest) {x y : List UInt8}
    (hx : a.drop s.offset = 35 :: x) (hy : b.drop s.offset = 35 :: y) :
    (y.takeWhile (· != 10)).length = (x.takeWhile (· != 10)).length := by
  have stop := h.offset_step_of_atComment comment hx
  have left (i : Nat) : x[i]? = a[s.offset + 1 + i]? := by
    rw [Nat.add_assoc, ← List.getElem?_drop, hx, Nat.add_comm 1,
      List.getElem?_cons_succ]
  have right (i : Nat) : y[i]? = b[s.offset + 1 + i]? := by
    rw [Nat.add_assoc, ← List.getElem?_drop, hy, Nat.add_comm 1,
      List.getElem?_cons_succ]
  rw [length_takeWhile_eq_iff]
  obtain ⟨run, stops⟩ :=
    length_takeWhile_eq_iff.1 (rfl : (x.takeWhile (· != 10)).length = _)
  refine ⟨fun i hi => ?_, fun e he => stops e ?_⟩
  · obtain ⟨e, he, hp⟩ := run i hi
    rw [left] at he
    rw [right]
    by_cases same : a[s.offset + 1 + i]? = b[s.offset + 1 + i]?
    · exact ⟨e, same ▸ he, hp⟩
    · have inside : s.offset + 1 + i < b.length := by
        rw [h.length]
        exact (List.getElem?_eq_some_iff.1 he).1
      have some := List.getElem?_eq_getElem inside
      refine ⟨_, some, bne_iff_ne.2 fun line => ?_⟩
      exact h.lines _ same (line ▸ some)
  · rw [right, ← stop] at he
    rw [left, ← stop, ← he]
    refine Decidable.not_not.1 fun other => ?_
    obtain ⟨c, hc, before, inside⟩ := h.differ _ (by omega) other
    rw [(discarded_of_atComment h.plain comment).2] at hc
    rcases List.mem_cons.1 hc with rfl | hc
    · exact Nat.lt_irrefl _ inside
    · exact Nat.not_lt.2 (offset_le_hash hc) before

/-- At a comment both sources have the hash sign. -/
theorem hash_ahead (h : Twins kept a b s t)
    (comment : s.nesting.AtComment s.rest) :
    ∃ x y, a.drop s.offset = 35 :: x ∧ b.drop s.offset = 35 :: y
      ∧ s.rest = .scalar '#' :: ofBytes x
      ∧ t.rest = .scalar '#' :: ofBytes y := by
  obtain ⟨x, y, hx, hy, -⟩ := front_of_atComment h.left h.differ comment
  rw [List.nil_append] at hx hy
  have hash (z : List UInt8) :
      ofBytes (35 :: z) = .scalar '#' :: ofBytes z :=
    ofBytes_ascii z (by decide)
  obtain ⟨left, right⟩ := h.ahead
  rw [hx, hash] at left
  rw [hy, hash] at right
  exact ⟨x, y, hx, hy, left, right⟩

/-- That a comment begins does not depend on what is in it. -/
theorem plan_of_atComment (h : Twins kept a b s t)
    (comment : s.nesting.AtComment s.rest) : t.plan = s.plan := by
  obtain ⟨x, y, -, -, left, right⟩ := h.hash_ahead comment
  rw [left] at comment
  have other : s.nesting.AtComment (.scalar '#' :: ofBytes y) :=
    ⟨rfl, comment.recipe, comment.text, comment.comments⟩
  unfold Scanner.plan
  rw [left, right, h.abreast.mode, h.abreast.nesting,
    next_of_atComment comment, next_of_atComment other, h.plain]
  rfl

/-- The step that discards a comment. -/
theorem discard (h : Twins kept a b s t)
    (comment : s.nesting.AtComment s.rest) :
    Abreast kept (s.perform s.plan) (t.perform s.plan) := by
  obtain ⟨x, y, hx, hy, left, right⟩ := h.hash_ahead comment
  obtain ⟨plan, discarded⟩ := discarded_of_atComment h.plain comment
  rw [plan]
  refine h.abreast.discard left right ?_ ?_ _
  · rw [takeWhile_ofBytes, takeWhile_ofBytes, totalWidth_ofBytes,
      totalWidth_ofBytes]
    exact h.length_comment comment hx hy
  · have behindLeft : a.drop (s.offset + 1) = x := by
      rw [← List.drop_drop, hx]
      rfl
    have behindRight : b.drop (s.offset + 1) = y := by
      rw [← List.drop_drop, hy]
      rfl
    have inside : s.offset + 1 ≤ s.file.size := by
      have := congrArg List.length hx
      rw [List.length_drop, List.length_cons] at this
      rw [h.size]
      omega
    intro rest either fault hf
    refine h.muted ⟨s.offset, s.step.offset⟩ ?_
      (if rest = ofBytes x then a else b) ?_ fault ?_ _ ?_ rfl
    · rw [discarded]
      exact List.mem_cons_self
    · split
      · exact Or.inl rfl
      · exact Or.inr rfl
    · show (ofBytes (List.drop (s.offset + 1) _)).head?.bind _ = _
      rw [← hf]
      split
      next he => rw [behindLeft, he]
      next he => rw [behindRight, either.resolve_left he]
    · show (s.file.position (s.file.handle _)).offset = _
      rw [File.offset_position, Nat.min_eq_left inside]

/-- One step of both. -/
theorem step (h : Twins kept a b s t) :
    t.plan = s.plan ∧ Twins kept a b s.step t.step := by
  have performed : t.plan = s.plan
      ∧ Abreast kept (s.perform s.plan) (t.perform s.plan) := by
    by_cases comment : s.nesting.AtComment s.rest
    · exact ⟨h.plan_of_atComment comment, h.discard comment⟩
    · obtain ⟨plan, same⟩ :=
        plan_eq_of_differInComments h.plain h.left h.differ comment
      rw [← h.ahead.2] at plan same
      have counted := (discarded_of_not_atComment comment).1
      refine ⟨?_, h.abreast.perform counted same⟩
      unfold Scanner.plan
      rw [h.abreast.mode, h.abreast.nesting]
      exact plan
  obtain ⟨plan, abreast⟩ := performed
  have fewer : ∀ c ∈ s.step.discarded, c ∈ s.discarded := by
    intro c hc
    by_cases comment : s.nesting.AtComment s.rest
    · rw [(discarded_of_atComment h.plain comment).2]
      exact List.mem_cons_of_mem _ hc
    · rw [(discarded_of_not_atComment comment).2]
      exact hc
  refine ⟨plan, abreast.step plan h.abreast.offset, ?_, ?_, h.left.step,
    h.right.step, h.length, ?_, h.lines, fun c hc => h.muted c (fewer c hc)⟩
  · rw [mode_step]
    exact h.plain
  · rw [size_step]
    exact h.size
  · intro i hi other
    have ahead := s.offset_step
    obtain ⟨c, hc, covers⟩ := h.differ i (by omega) other
    refine ⟨c, ?_, covers⟩
    by_cases comment : s.nesting.AtComment s.rest
    · rw [(discarded_of_atComment h.plain comment).2] at hc
      rcases List.mem_cons.1 hc with rfl | hc
      · exact absurd covers.2 (Nat.not_lt.2 hi)
      · exact hc
    · rw [(discarded_of_not_atComment comment).2] at hc
      exact hc

end Twins

end Scanner

end BuildLexer
