/-
The comments that a scanner discards from some place on, and two sources
that differ in nothing but their texts.

The comments are found by stepping to the end of the source
(`Scanner.discarded`): where a step passes over a line and makes no
token it discards a comment, which reaches from the hash sign to the end
of the line. All of them are ahead, in order, so two sources that differ
in their texts only are the same up to the first hash sign of theirs
(`same_or_front`), and a step that stops before it has the same plan in
both (`plan_eq_of_differInComments`).
-/
import BuildLexer.Proofs.Comments.Hash
import BuildLexer.Proofs.Join.Lines
import BuildLexer.Proofs.Lookahead.Plans
import BuildLexer.Proofs.Scanner.Passage

namespace BuildLexer

open Glyph Plan

/-- A comment of a source: where its hash sign is, and where its line
ends or the source does. -/
structure Comment where
  hash : Nat
  stop : Nat
  deriving DecidableEq

/-- The places of a comment behind its hash sign. -/
def Comment.Covers (c : Comment) (i : Nat) : Prop := c.hash < i ∧ i < c.stop

namespace Scanner

-- ============================================================ one step

/-- A scanner behind a step, and behind the token if it makes one. -/
def step (s : Scanner) : Scanner :=
  match s.plan.token with
  | some token => ((s.perform s.plan).deliver s.offset token s.plan.text).2
  | none => s.perform s.plan

theorem step_of_token {s : Scanner} {token : Token}
    (h : s.plan.token = some token) :
    s.step = ((s.perform s.plan).deliver s.offset token s.plan.text).2 := by
  unfold step
  rw [h]

theorem step_of_skip {s : Scanner} (h : s.plan.token = none) :
    s.step = s.perform s.plan := by
  unfold step
  rw [h]

/-- Making a token changes nothing but the constructs. -/
theorem step_eq (s : Scanner) :
    ∃ n, s.step = { s.perform s.plan with nesting := n } := by
  cases h : s.plan.token with
  | none => exact ⟨_, step_of_skip h⟩
  | some token => exact ⟨_, step_of_token h⟩

theorem rest_step (s : Scanner) : s.step.rest = s.plan.leaves s.rest := by
  obtain ⟨n, h⟩ := s.step_eq
  rw [h]
  exact s.rest_perform s.plan

theorem offset_step (s : Scanner) :
    s.step.offset = s.offset + totalWidth (s.plan.reads s.rest) := by
  obtain ⟨n, h⟩ := s.step_eq
  rw [h]
  exact s.offset_perform s.plan

theorem mode_step (s : Scanner) : s.step.mode = s.mode := by
  obtain ⟨n, h⟩ := s.step_eq
  rw [h]
  exact (s.kin_perform s.plan).mode

theorem size_step (s : Scanner) : s.step.file.size = s.file.size := by
  obtain ⟨n, h⟩ := s.step_eq
  rw [h]
  exact (s.kin_perform s.plan).size

theorem length_step {s : Scanner} (h : s.rest ≠ []) :
    s.step.rest.length < s.rest.length := by
  obtain ⟨n, hn⟩ := s.step_eq
  rw [hn]
  exact length_perform s s.plan h

theorem StandsIn.step {s : Scanner} {source : List UInt8}
    (h : s.StandsIn source) : s.step.StandsIn source := by
  obtain ⟨n, hn⟩ := s.step_eq
  rw [hn]
  exact h.perform s.plan

-- ============================================================ comments

/-- The comments that a scanner discards on its way to the end of the
source. -/
def discarded (s : Scanner) : List Comment :=
  if s.rest = [] then []
  else if s.plan.token = none ∧ s.plan.skipsLine = true then
    ⟨s.offset, s.step.offset⟩ :: discarded s.step
  else discarded s.step
termination_by s.rest.length
decreasing_by all_goals exact length_step ‹_›

variable {s : Scanner} {a b : List UInt8}

theorem discarded_of_nil (h : s.rest = []) : s.discarded = [] := by
  rw [discarded, if_pos h]

/-- Where comments are no tokens, one that begins is discarded. -/
theorem discarded_of_atComment (plain : s.mode.commentTokens = false)
    (h : s.nesting.AtComment s.rest) :
    s.plan = discard (s.nesting.settle s.rest)
      ∧ s.discarded = ⟨s.offset, s.step.offset⟩ :: s.step.discarded := by
  have discards : s.plan = discard (s.nesting.settle s.rest) := by
    unfold plan
    rw [next_of_atComment h, plain]
    rfl
  have more : s.rest ≠ [] := by
    intro done
    have front := h.front
    rw [done] at front
    cases front
  refine ⟨discards, ?_⟩
  rw [discarded, if_neg more, if_pos]
  rw [discards]
  exact ⟨rfl, rfl⟩

/-- Anywhere else a step discards nothing. -/
theorem discarded_of_not_atComment (h : ¬ s.nesting.AtComment s.rest) :
    s.plan.skipsLine = false ∧ s.discarded = s.step.discarded := by
  have counted : s.plan.skipsLine = false :=
    (next_of_not_atComment h s.mode).1.counted
  refine ⟨counted, ?_⟩
  rw [discarded]
  split
  next done =>
    refine (discarded_of_nil ?_).symm
    rw [rest_step, done, leaves_nil]
  next =>
    rw [if_neg]
    rintro ⟨-, skips⟩
    rw [counted] at skips
    cases skips

/-- The comments are ahead. -/
theorem offset_le_hash {c : Comment} (hc : c ∈ s.discarded) :
    s.offset ≤ c.hash := by
  induction s using discarded.induct with
  | case1 s done =>
      rw [discarded_of_nil done] at hc
      cases hc
  | case2 s more comment ih =>
      rw [discarded, if_neg more, if_pos comment] at hc
      rcases List.mem_cons.1 hc with rfl | hc
      · exact Nat.le_refl _
      · have := ih hc
        rw [offset_step] at this
        omega
  | case3 s more other ih =>
      rw [discarded, if_neg more, if_neg other] at hc
      have := ih hc
      rw [offset_step] at this
      omega

-- ========================================================= two sources

/-- Two sources that differ, from where a scanner stands on, inside the
comments only that it discards. -/
def DifferInComments (s : Scanner) (a b : List UInt8) : Prop :=
  ∀ i, s.offset ≤ i → a[i]? ≠ b[i]? → ∃ c ∈ s.discarded, c.Covers i

/-- Two lists are the same up to a place where they agree. -/
theorem take_eq_of_agree {α : Type} {x y : List α} {count : Nat}
    (h : ∀ i < count, y[i]? = x[i]?) : y.take count = x.take count := by
  apply List.ext_getElem?
  intro i
  rw [List.getElem?_take, List.getElem?_take]
  split
  next hi => exact h i hi
  next => rfl

/-- The front of what is ahead in both sources: up to a hash sign, which
a step does not read that begins no comment. -/
structure Front (s : Scanner) (a b : List UInt8) (before x y : List UInt8) :
    Prop where
  left : a.drop s.offset = before ++ 35 :: x
  right : b.drop s.offset = before ++ 35 :: y
  behind : ¬ s.nesting.AtComment s.rest →
    totalWidth (s.plan.reads s.rest) ≤ before.length

/-- Bytes that are read as a hash sign first begin with one. -/
theorem eq_cons_of_hash {bs : List UInt8}
    (h : (ofBytes bs).head? = some (.scalar '#')) : ∃ x, bs = 35 :: x := by
  obtain ⟨rest, hr⟩ := List.head?_eq_some_iff.1 h
  have bytes := allBytes_ofBytes bs
  rw [hr] at bytes
  exact ⟨allBytes rest, bytes.symm⟩

/-- Sources that differ in comments only agree up to the first hash sign
of theirs. -/
theorem DifferInComments.agree (h : s.DifferInComments a b) {i : Nat}
    (ahead : s.offset ≤ i) (before : ∀ c ∈ s.discarded, i ≤ c.hash) :
    b[i]? = a[i]? := by
  refine Decidable.not_not.1 fun other => ?_
  obtain ⟨c, hc, covers, -⟩ := h i ahead (Ne.symm other)
  exact Nat.not_lt.2 (before c hc) covers

/-- At a comment the front is empty. -/
theorem front_of_atComment (stands : s.StandsIn a)
    (differ : s.DifferInComments a b) (h : s.nesting.AtComment s.rest) :
    ∃ x y, Front s a b [] x y := by
  have ahead : s.rest = ofBytes (a.drop s.offset) := stands
  obtain ⟨x, hx⟩ := eq_cons_of_hash (ahead ▸ h.front)
  have same : b[s.offset]? = some 35 := by
    rw [differ.agree (Nat.le_refl _) fun c => offset_le_hash,
      ← List.head?_drop, hx, List.head?_cons]
  rw [← List.head?_drop] at same
  obtain ⟨y, hy⟩ := List.head?_eq_some_iff.1 same
  exact ⟨x, y, hx, hy, fun other => absurd h other⟩

/-- What a step reads that begins no comment is in front of all
comments. -/
theorem reads_in_front (stands : s.StandsIn a)
    (differ : s.DifferInComments a b) (h : ¬ s.nesting.AtComment s.rest) :
    ∃ read, read.length = totalWidth (s.plan.reads s.rest)
      ∧ a.drop s.offset = read ++ a.drop s.step.offset
      ∧ b.drop s.offset = read ++ b.drop s.step.offset := by
  have ahead : s.rest = ofBytes (a.drop s.offset) := stands
  have inside :
      totalWidth (s.plan.reads s.rest) ≤ (a.drop s.offset).length := by
    have whole := congrArg totalWidth (s.plan.reads_append_leaves s.rest)
    rw [totalWidth_append] at whole
    rw [← totalWidth_ofBytes, ← ahead]
    omega
  have same : (b.drop s.offset).take (totalWidth (s.plan.reads s.rest))
      = (a.drop s.offset).take (totalWidth (s.plan.reads s.rest)) := by
    refine take_eq_of_agree fun i hi => ?_
    rw [List.getElem?_drop, List.getElem?_drop]
    refine differ.agree (Nat.le_add_right _ _) fun c hc => ?_
    rw [(discarded_of_not_atComment h).2] at hc
    have := offset_le_hash hc
    rw [offset_step] at this
    omega
  refine ⟨_, List.length_take_of_le inside, ?_, ?_⟩
  · rw [offset_step, ← List.drop_drop, List.take_append_drop]
  · rw [offset_step, ← List.drop_drop, ← same, List.take_append_drop]

/-- Two sources that differ in comments only have a front in common, or
are the same. -/
theorem same_or_front (stands : s.StandsIn a)
    (differ : s.DifferInComments a b) :
    b.drop s.offset = a.drop s.offset
      ∨ ∃ before x y, Front s a b before x y := by
  have further {s : Scanner} (stands : s.StandsIn a)
      (differ : s.DifferInComments a b)
      (ih : s.step.StandsIn a → s.step.DifferInComments a b →
        b.drop s.step.offset = a.drop s.step.offset
          ∨ ∃ before x y, Front s.step a b before x y) :
      b.drop s.offset = a.drop s.offset
        ∨ ∃ before x y, Front s a b before x y := by
    by_cases comment : s.nesting.AtComment s.rest
    · exact Or.inr ⟨[], front_of_atComment stands differ comment⟩
    · obtain ⟨read, length, left, right⟩ :=
        reads_in_front stands differ comment
      have later : s.step.DifferInComments a b := by
        intro i hi
        rw [← (discarded_of_not_atComment comment).2]
        rw [offset_step] at hi
        exact differ i (by omega)
      rcases ih stands.step later with same | ⟨before, x, y, front⟩
      · exact Or.inl (by rw [left, right, same])
      · refine Or.inr ⟨read ++ before, x, y, ?_, ?_, fun _ => ?_⟩
        · rw [left, front.left, List.append_assoc]
        · rw [right, front.right, List.append_assoc]
        · rw [List.length_append, length]
          exact Nat.le_add_right _ _
  induction s using discarded.induct with
  | case1 s done =>
      refine Or.inl (List.ext_getElem? fun i => ?_)
      rw [List.getElem?_drop, List.getElem?_drop]
      refine differ.agree (Nat.le_add_right _ _) fun c hc => ?_
      rw [discarded_of_nil done] at hc
      cases hc
  | case2 s _ _ ih => exact further stands differ ih
  | case3 s _ _ ih => exact further stands differ ih

-- ============================================================ the plan

/-- Bytes up to a hash sign are read on their own. -/
theorem ofBytes_hash (before x : List UInt8) :
    ofBytes (before ++ 35 :: x)
      = ofBytes before ++ .scalar '#' :: ofBytes x := by
  rw [ofBytes_append_cons before (by decide), ofBytes_ascii x (by decide)]
  rfl

namespace Front

variable {before x y : List UInt8}

/-- What is ahead in both sources is the same up to a hash sign. -/
theorem upTo (h : Front s a b before x y) :
    UpTo (.scalar '#') (ofBytes before).length (ofBytes (a.drop s.offset))
      (ofBytes (b.drop s.offset)) := by
  rw [h.left, h.right, ofBytes_hash, ofBytes_hash]
  generalize ofBytes before = front
  induction front with
  | nil => exact .here _ _
  | cons g front ih => exact .cons g ih

/-- A step that begins no comment stops before the hash sign. -/
theorem more_lt (h : Front s a b before x y) (stands : s.StandsIn a)
    (other : ¬ s.nesting.AtComment s.rest) :
    s.plan.more < (ofBytes before).length := by
  refine Nat.lt_of_not_le fun reached => ?_
  have ahead : s.rest = ofBytes before ++ .scalar '#' :: ofBytes x := by
    rw [← ofBytes_hash, ← h.left]
    exact stands
  obtain ⟨count, hc⟩ := Nat.exists_eq_add_of_le reached
  have reads : s.plan.reads s.rest
      = ofBytes before ++ .scalar '#' :: (ofBytes x).take count := by
    rw [reads_of_not_skipsLine (discarded_of_not_atComment other).1, ahead,
      hc, Nat.add_assoc, List.take_length_add_append, List.take_succ_cons]
  have behind := h.behind other
  rw [reads, totalWidth_append, totalWidth_ofBytes, totalWidth_cons] at behind
  have := (Glyph.scalar '#').width_pos
  omega

end Front

/-- What is ahead begins with the same glyph in both sources. -/
theorem head?_eq_of_differInComments (stands : s.StandsIn a)
    (differ : s.DifferInComments a b) :
    (ofBytes (b.drop s.offset)).head?
      = (ofBytes (a.drop s.offset)).head? := by
  rcases same_or_front stands differ with same | ⟨before, x, y, front⟩
  · rw [same]
  · exact front.upTo.head?_eq

/-- Where no comment begins, the plan is the same in both sources, and so
are the glyphs that the step comes to. -/
theorem plan_eq_of_differInComments (plain : s.mode.commentTokens = false)
    (stands : s.StandsIn a) (differ : s.DifferInComments a b)
    (h : ¬ s.nesting.AtComment s.rest) :
    next s.mode s.nesting (ofBytes (b.drop s.offset)) = s.plan
      ∧ (ofBytes (b.drop s.offset)).take (s.plan.more + 2)
        = s.rest.take (s.plan.more + 2) := by
  have ahead : s.rest = ofBytes (a.drop s.offset) := stands
  rcases same_or_front stands differ with same | ⟨before, x, y, front⟩
  · rw [same, ← ahead]
    exact ⟨rfl, rfl⟩
  · have more := front.more_lt stands h
    have upTo := front.upTo
    rw [← ahead] at upTo
    refine ⟨?_, upTo.take_eq (Nat.succ_le_succ more)⟩
    refine next_upTo .hash upTo (fun tokens => ?_) more
    rw [plain] at tokens
    cases tokens

end Scanner

end BuildLexer
