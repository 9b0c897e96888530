/-
One call of `scan`: it comes to an end, it moves on, and at the end of
the source it comes to rest.

A call is a loop over steps, left at the first one that makes a token.
Each step before that reads a glyph at least, so the loop is left after
no more steps than glyphs are ahead (`haltsWithin`). The step that makes
the token starts where the token starts. Unless it is the end of the
source it reads a glyph too, and the end is found with nothing ahead
and nowhere else, because the plan of any other step is faithful and no
text is written as the end (`Sound.advances`).

Behind the end a scanner is finished: nothing is ahead, no construct is
open and no line has begun. Scanning there gives the end again and
leaves the scanner as it is, in every part (`Finished.scan_eq`).
-/
import BuildLexer.Proofs.Progress.Session
import BuildLexer.Proofs.Tiling.Rules

namespace BuildLexer

open Plan

namespace Scanner

-- ============================================================= the loop

/-- A scanner after some steps, whatever they make. -/
def steps : Nat → Scanner → Scanner
  | 0, s => s
  | n + 1, s => steps n (s.perform s.plan)

/-- The loop of a call is left after so many steps at most: some that
make no token, and then one that makes the token returned. -/
def HaltsWithin (s : Scanner) (bound : Nat) : Prop :=
  ∃ n token, n ≤ bound
    ∧ (∀ i < n, (steps i s).plan.token = none)
    ∧ (steps n s).plan.token = some token
    ∧ s.scan = ((steps n s).perform (steps n s).plan).deliver
        (steps n s).offset token (steps n s).plan.text

theorem haltsWithin (s : Scanner) : s.HaltsWithin s.rest.length := by
  induction s using scan.induct with
  | case1 s token hp =>
      exact ⟨0, token, Nat.zero_le _,
        fun i hi => absurd hi (Nat.not_lt_zero i), hp, scan_of_token hp⟩
  | case2 s hp ih =>
      obtain ⟨n, token, hn, before, last, call⟩ := ih
      have shorter : (s.perform s.plan).rest.length < s.rest.length := by
        apply length_perform
        intro done
        rw [token_plan_nil s done] at hp
        cases hp
      refine ⟨n + 1, token, by omega, ?_, last, ?_⟩
      · intro i hi
        cases i with
        | zero => exact hp
        | succ i => exact before i (by omega)
      · rw [scan_of_skip hp]
        exact call

-- ============================================================= at rest

/-- A scanner that has found the end of its source. -/
structure Finished (s : Scanner) : Prop where
  rest : s.rest = []
  outside : ∃ inherited, s.nesting.Calm inherited []
  midLine : .lineStart ∉ s.context

namespace Finished

variable {s : Scanner}

/-- The last step of all finds nothing to do. -/
theorem perform_plan (h : s.Finished) :
    s.plan.token = some .endOfFile ∧ s.plan.text = ""
      ∧ s.perform s.plan = s := by
  obtain ⟨inherited, calm⟩ := h.outside
  have unnamed : ¬ s.nesting.has .nameCall = true := calm.not_nameCall
  have ahead : s.plan = atEnd s.nesting := by
    unfold plan next
    rw [h.rest, Nesting.settle_eq unnamed]
  have ended : atEnd s.nesting
      = { token := some .endOfFile, nesting := s.nesting } := by
    have layers := calm.layers
    unfold atEnd ContextStack.unwind
    generalize s.nesting = n at layers ⊢
    obtain ⟨stack, opener⟩ := n
    cases layers with
    | ground => rfl
  rw [ahead, ended]
  refine ⟨rfl, rfl, ?_⟩
  have stays : s.advance = s := by
    unfold advance
    rw [h.rest]
  unfold perform reportAll
  simp only [List.foldl_nil, walk, stays, Bool.false_eq_true, if_false]

/-- Scanning gives the end and changes nothing. -/
theorem scan_eq (h : s.Finished) :
    s.scan = (⟨s.file.handle s.offset, .endOfFile, ""⟩, s) := by
  obtain ⟨token, text, stays⟩ := h.perform_plan
  have still : s.nesting.afterToken false = s.nesting := by
    have same : s.nesting.stack.current \ {.lineStart}
        = s.nesting.stack.current := by
      apply Context.ext
      intro f
      rw [Context.mem_sdiff, Context.mem_singleton]
      refine ⟨fun hf => hf.1, fun hf => ⟨hf, ?_⟩⟩
      intro he
      subst he
      exact h.midLine hf
    unfold Nesting.afterToken Nesting.remove ContextStack.remove
    rw [if_neg Bool.false_ne_true, same]
  rw [scan_of_token token, stays, text]
  show (_, { s with nesting := s.nesting.afterToken false }) = _
  rw [still]

theorem setRecipes (h : s.Finished) (on : Bool) :
    (s.setRecipes on).Finished where
  rest := h.rest
  outside := by
    obtain ⟨inherited, calm⟩ := h.outside
    exact ⟨_, calm.layers.setInherited _ on, nofun, calm.opener⟩
  midLine := by
    show .lineStart ∉ ContextStack.setFlags _ on s.nesting.stack.current
    rw [mem_setFlags (by decide)]
    exact h.midLine

/-- Whatever a finished scanner is made to do, it stays finished, in the
same file at the same place. -/
theorem stays {t : Scanner} {lexemes : List Lexeme} (h : s.Finished)
    (work : Session s lexemes t) :
    t.Finished ∧ t.file = s.file ∧ t.offset = s.offset := by
  refine work.preserves (P := fun t =>
    t.Finished ∧ t.file = s.file ∧ t.offset = s.offset) ?_ ?_
    ⟨h, rfl, rfl⟩
  · intro t ht
    rw [ht.1.scan_eq]
    exact ht
  · intro t on ht
    exact ⟨ht.1.setRecipes on, ht.2⟩

/-- So it gives the same end as often as it is asked. -/
theorem session {t : Scanner} {lexemes : List Lexeme} (h : s.Finished)
    (work : Session s lexemes t) : t.scan = (s.scan.1, t) := by
  obtain ⟨finished, file, offset⟩ := h.stays work
  rw [finished.scan_eq, h.scan_eq, file, offset]

end Finished

-- ============================================================= one call

/-- What a call does whose token starts at an offset. -/
structure Advances (s : Scanner) (start : Nat) : Prop where
  behind : s.offset ≤ start
  handle : s.scan.1.handle = s.file.handle start
  moved : s.scan.1.token ≠ .endOfFile → start < s.scan.2.offset
  ended : s.scan.1.token = .endOfFile →
    s.scan.1.text = "" ∧ s.scan.2.offset = start ∧ s.scan.2.Finished

/-- No text is written as the end of the source. -/
theorem Sound.rest_of_endOfFile {s : Scanner} (h : s.Sound)
    (hp : s.plan.token = some .endOfFile) : s.rest = [] := by
  cases hr : s.rest with
  | nil => rfl
  | cons g rest =>
      have more : s.rest ≠ [] := by
        rw [hr]
        exact List.cons_ne_nil g rest
      have written := h.written more hp
      cases written

/-- The step that finds the end finishes the scanner. -/
theorem Sound.finished {s : Scanner} (h : s.Sound) (hr : s.rest = []) :
    ((s.perform s.plan).deliver s.offset .endOfFile s.plan.text).2.Finished
    where
  rest := by
    show (s.perform s.plan).rest = []
    rw [rest_perform, hr]
    unfold Plan.leaves
    split <;> rfl
  outside := by
    obtain ⟨inherited, hn, -⟩ := h
    rw [hr] at hn
    have calm : s.plan.nesting.Calm inherited [] := by
      unfold plan
      rw [hr]
      exact calm_next_nil hn
    exact ⟨inherited, calm.afterToken false⟩
  midLine := by
    show .lineStart ∉ (s.plan.nesting.remove .lineStart).stack.current
    rw [Nesting.mem_remove]
    exact fun hc => hc.2 rfl

/-- A step at a glyph moves on by a byte at least. -/
theorem offset_lt_perform {s : Scanner} (more : s.rest ≠ []) :
    s.offset < (s.perform s.plan).offset := by
  obtain ⟨g, rest, hr⟩ := List.exists_cons_of_ne_nil more
  have reads := s.plan.reads_ne_nil g rest
  have length := Glyph.length_le_totalWidth (s.plan.reads s.rest)
  rw [← hr, ← List.length_pos_iff] at reads
  rw [offset_perform]
  omega

theorem Sound.advances {s : Scanner} (h : s.Sound) :
    ∃ start, s.Advances start := by
  induction s using scan.induct with
  | case1 s token hp =>
      have call := scan_of_token hp
      refine ⟨s.offset, Nat.le_refl _, ?_, ?_, ?_⟩
      · rw [call]
        exact (s.kin_perform s.plan).handle s.offset
      · rw [call]
        intro other
        refine offset_lt_perform fun done => other ?_
        rw [token_plan_nil s done] at hp
        exact (Option.some.inj hp).symm
      · intro ended
        rw [call] at ended
        obtain rfl : token = .endOfFile := ended
        have done := h.rest_of_endOfFile hp
        have text : s.plan.text = "" := by
          unfold plan Plan.next
          rw [done]
          rfl
        have offset : (s.perform s.plan).offset = s.offset := by
          rw [offset_perform, done]
          unfold Plan.reads
          split <;> rfl
        rw [call]
        exact ⟨text, offset, h.finished done⟩
  | case2 s hp ih =>
      obtain ⟨start, later⟩ := ih h.perform
      have call := scan_of_skip hp
      have more : s.rest ≠ [] := by
        intro done
        rw [token_plan_nil s done] at hp
        cases hp
      have behind := later.behind
      have on := offset_lt_perform more
      refine ⟨start, by omega, ?_, ?_, ?_⟩
      · rw [call, later.handle, (s.kin_perform s.plan).handle]
      · rw [call]
        exact later.moved
      · rw [call]
        exact later.ended

/-- Once the end of the source has been given, a scanner is finished. -/
theorem Session.finished {s t : Scanner} {lexemes : List Lexeme}
    (work : Session s lexemes t) (h : s.Sound)
    (ended : ∃ l ∈ lexemes, l.token = .endOfFile) : t.Finished := by
  induction work with
  | done =>
      obtain ⟨l, hl, -⟩ := ended
      cases hl
  | setRecipes on _ ih => exact ih (h.setRecipes on) ended
  | scan later ih =>
      obtain ⟨l, hl, he⟩ := ended
      rcases List.mem_cons.1 hl with rfl | hl
      · obtain ⟨start, call⟩ := h.advances
        exact ((call.ended he).2.2.stays later).1
      · exact ih h.scan ⟨l, hl, he⟩

end Scanner

end BuildLexer
