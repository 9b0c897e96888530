/-
What carrying out a plan does to a scanner.

A plan splits the glyphs ahead into those it reads and those it leaves
(`Plan.reads`, `Plan.leaves`), and `Scanner.perform` moves exactly over
the first: the offset grows by their width, the rest is what is left,
and the constructs around the place are those of the plan. Reports and
line starts are the only other things that change, so the mode and the
handles of the file stay what they were.

Everything later proofs need of `perform` is here; none of them looks
into how a plan is carried out.
-/
import BuildLexer.Scanner.Scan
import BuildLexer.Text.Glyph.Reading

namespace BuildLexer

-- ========================================================== what is read

namespace Plan

/-- The glyphs that a plan reads, at the front of those ahead. -/
def reads (p : Plan) (src : List Glyph) : List Glyph :=
  src.take (p.more + 1) ++
    if p.skipsLine then
      (src.drop (p.more + 1)).takeWhile (· != .newline)
    else []

/-- The glyphs that a plan leaves. -/
def leaves (p : Plan) (src : List Glyph) : List Glyph :=
  let behind := src.drop (p.more + 1)
  if p.skipsLine then behind.dropWhile (· != .newline) else behind

/-- Every glyph is read or left. -/
theorem reads_append_leaves (p : Plan) (src : List Glyph) :
    p.reads src ++ p.leaves src = src := by
  unfold reads leaves
  cases p.skipsLine with
  | true =>
      rw [if_pos rfl, if_pos rfl, List.append_assoc,
        List.takeWhile_append_dropWhile, List.take_append_drop]
  | false =>
      rw [if_neg Bool.false_ne_true, if_neg Bool.false_ne_true,
        List.append_nil, List.take_append_drop]

/-- A plan at a glyph reads the glyph first. -/
theorem exists_reads_cons (p : Plan) (g : Glyph) (rest : List Glyph) :
    ∃ more, p.reads (g :: rest) = g :: more := by
  unfold reads
  rw [List.take_succ_cons]
  exact ⟨_, rfl⟩

/-- Every plan reads the first glyph. -/
theorem reads_ne_nil (p : Plan) (g : Glyph) (rest : List Glyph) :
    p.reads (g :: rest) ≠ [] := by
  obtain ⟨more, h⟩ := p.exists_reads_cons g rest
  rw [h]
  exact List.cons_ne_nil g more

/-- A plan that skips nothing reads a number of glyphs. -/
theorem reads_of_not_skipsLine {p : Plan} (h : p.skipsLine = false)
    (src : List Glyph) : p.reads src = src.take (p.more + 1) := by
  simp [reads, h]

/-- What a plan that skips nothing leaves. -/
theorem leaves_of_not_skipsLine {p : Plan} (h : p.skipsLine = false)
    (src : List Glyph) : p.leaves src = src.drop (p.more + 1) := by
  simp [leaves, h]

/-- Behind a line that is passed over there is its end, if anything. -/
theorem newline_of_skipsLine {p : Plan} {src : List Glyph}
    (h : p.skipsLine = true) {g : Glyph}
    (hg : (p.leaves src).head? = some g) : g = .newline := by
  have stopped :=
    List.head?_dropWhile_not (· != Glyph.newline) (src.drop (p.more + 1))
  unfold leaves at hg
  rw [if_pos h] at hg
  rw [hg] at stopped
  simpa using stopped

/-- Where there is nothing, nothing is left. -/
theorem leaves_nil (p : Plan) : p.leaves [] = [] :=
  (List.append_eq_nil_iff.1 (p.reads_append_leaves [])).2

/-- What leaves something reads less than there is. -/
theorem more_lt_of_leaves {p : Plan} {src : List Glyph}
    (h : p.leaves src ≠ []) : p.more + 1 < src.length := by
  have behind : src.drop (p.more + 1) ≠ [] := by
    intro done
    refine h ?_
    unfold leaves
    rw [done]
    split <;> rfl
  rw [← List.length_pos_iff, List.length_drop] at behind
  omega

end Plan

namespace Glyph

@[simp] theorem totalWidth_nil : totalWidth [] = 0 := rfl

@[simp] theorem totalWidth_cons (g : Glyph) (gs : List Glyph) :
    totalWidth (g :: gs) = g.width + totalWidth gs := rfl

@[simp] theorem totalWidth_append (a b : List Glyph) :
    totalWidth (a ++ b) = totalWidth a + totalWidth b := by
  induction a with
  | nil => simp
  | cons g gs ih => simp [ih, Nat.add_assoc]

/-- Glyphs have a byte each at least. -/
theorem length_le_totalWidth (gs : List Glyph) :
    gs.length ≤ totalWidth gs := by
  induction gs with
  | nil => exact Nat.le_refl 0
  | cons g gs ih =>
      have := g.width_pos
      rw [List.length_cons, totalWidth_cons]
      omega

end Glyph

namespace File

/-- A line that is added does not move the file. -/
theorem base_addLine (f : File) (start : Nat) :
    (f.addLine start).base = f.base := by
  unfold addLine
  split <;> rfl

/-- Nor does it change its size. -/
theorem size_addLine (f : File) (start : Nat) :
    (f.addLine start).size = f.size := by
  unfold addLine
  split <;> rfl

end File

namespace Scanner

-- ================================================ what never changes

/-- Two scanners in the same file, as far as handles go, and under the
same mode. -/
structure Kin (s t : Scanner) : Prop where
  base : t.file.base = s.file.base
  size : t.file.size = s.file.size
  mode : t.mode = s.mode

namespace Kin

theorem refl (s : Scanner) : Kin s s := ⟨rfl, rfl, rfl⟩

theorem trans {s t u : Scanner} (a : Kin s t) (b : Kin t u) : Kin s u :=
  ⟨b.base.trans a.base, b.size.trans a.size, b.mode.trans a.mode⟩

/-- Handles are the same in both. -/
theorem handle {s t : Scanner} (h : Kin s t) (offset : Nat) :
    t.file.handle offset = s.file.handle offset := by
  unfold File.handle
  rw [h.base, h.size]

end Kin

-- ========================================================= one by one

/-- A report changes nothing but the log. -/
theorem reportAll_eq (s : Scanner) (start : Nat) (fs : List Finding) :
    ∃ log, s.reportAll start fs = { s with log } := by
  unfold reportAll
  induction fs generalizing s with
  | nil => exact ⟨s.log, rfl⟩
  | cons f fs ih =>
      rw [List.foldl_cons]
      obtain ⟨log, hlog⟩ := ih (s.report (start + f.offset) f.fault)
      exact ⟨log, hlog⟩

/-- Looking changes nothing but the log. -/
theorem look_eq (s : Scanner) : ∃ log, s.look = { s with log } := by
  unfold look
  split
  · exact ⟨_, rfl⟩
  · exact ⟨s.log, rfl⟩

/-- What moving over some glyphs does. -/
structure Moved (s t : Scanner) (read rest : List Glyph) : Prop where
  kin : Kin s t
  nesting : t.nesting = s.nesting
  offset : t.offset = s.offset + Glyph.totalWidth read
  rest : t.rest = rest

/-- Reports move nothing. -/
theorem moved_reportAll (s : Scanner) (start : Nat) (fs : List Finding) :
    Moved s (s.reportAll start fs) [] s.rest := by
  obtain ⟨log, h⟩ := s.reportAll_eq start fs
  rw [h]
  exact ⟨⟨rfl, rfl, rfl⟩, rfl, rfl, rfl⟩

/-- Nor does a look at a glyph. -/
theorem moved_look (s : Scanner) : Moved s s.look [] s.rest := by
  obtain ⟨log, h⟩ := s.look_eq
  rw [h]
  exact ⟨⟨rfl, rfl, rfl⟩, rfl, rfl, rfl⟩

/-- What moves twice moves by both. -/
theorem Moved.trans {s t u : Scanner} {a b rest rest' : List Glyph}
    (first : Moved s t a rest) (second : Moved t u b rest') :
    Moved s u (a ++ b) rest' where
  kin := first.kin.trans second.kin
  nesting := second.nesting.trans first.nesting
  offset := by
    rw [second.offset, first.offset, Glyph.totalWidth_append, Nat.add_assoc]
  rest := second.rest

/-- Passing a glyph may register a line, which moves no handle. -/
theorem moved_pass (s : Scanner) (g : Glyph) (rest : List Glyph)
    (start : Nat) :
    Moved s
      { s with
        rest := rest
        offset := s.offset + g.width
        file := if g = .newline then s.file.addLine start else s.file }
      [g] rest where
  kin := by
    split
    · exact ⟨File.base_addLine _ _, File.size_addLine _ _, rfl⟩
    · exact ⟨rfl, rfl, rfl⟩
  nesting := rfl
  offset := by
    rw [Glyph.totalWidth_cons, Glyph.totalWidth_nil]
    rfl
  rest := rfl

/-- Moving on reads the next glyph, if there is one. -/
theorem moved_advance (s : Scanner) :
    Moved s s.advance (s.rest.take 1) (s.rest.drop 1) := by
  unfold advance
  split
  next h =>
    rw [h]
    exact ⟨Kin.refl s, rfl, rfl, h⟩
  next g rest h =>
    rw [h]
    exact (s.moved_pass g rest _).trans (moved_look _)

/-- A walk reads as many glyphs as it is long. -/
theorem moved_walk (n : Nat) (s : Scanner) :
    Moved s (walk n s) (s.rest.take n) (s.rest.drop n) := by
  induction n generalizing s with
  | zero => exact ⟨Kin.refl s, rfl, rfl, rfl⟩
  | succ n ih =>
      have first := s.moved_advance
      have second := ih s.advance
      rw [first.rest, List.drop_drop, Nat.add_comm 1 n] at second
      have both := first.trans second
      rw [← List.take_add, Nat.add_comm 1 n] at both
      exact both

/-- Passing a line reads all glyphs before the newline. -/
theorem moved_skipLine (s : Scanner) :
    Moved s s.skipLine (s.rest.takeWhile (· != .newline))
      (s.rest.dropWhile (· != .newline)) where
  kin := ⟨rfl, rfl, rfl⟩
  nesting := rfl
  offset := rfl
  rest := by
    calc s.rest.drop (s.rest.takeWhile (· != .newline)).length
        = (s.rest.takeWhile (· != .newline)
            ++ s.rest.dropWhile (· != .newline)).drop
              (s.rest.takeWhile (· != .newline)).length := by
          rw [List.takeWhile_append_dropWhile]
      _ = s.rest.dropWhile (· != .newline) := List.drop_left

/-- At the start of a source a byte order mark is passed. -/
theorem moved_ofGlyphs (file : File) (mode : Mode) (src : List Glyph) :
    let n : Nesting := { stack := { current := startContext mode } }
    let s : Scanner := { file, mode, rest := src, offset := 0, nesting := n }
    src.head? = some .byteOrderMark
        ∧ Moved s (ofGlyphs file mode src) (src.take 1) (src.drop 1)
      ∨ src.head? ≠ some .byteOrderMark
        ∧ Moved s (ofGlyphs file mode src) [] src := by
  intro n s
  have looked := s.moved_look
  unfold ofGlyphs
  dsimp only
  split
  next h =>
    have passed := looked.trans (moved_advance _)
    rw [looked.rest] at passed
    exact Or.inl ⟨h, passed⟩
  next h => exact Or.inr ⟨h, looked⟩

-- ========================================================= performing

/-- Carrying out a plan moves over what it reads. -/
theorem moved_perform (s : Scanner) (p : Plan) :
    Moved s { s.perform p with nesting := s.nesting }
      (p.reads s.rest) (p.leaves s.rest) := by
  have early := s.moved_reportAll s.offset p.early
  have walked := early.trans
    (moved_walk (p.more + 1) (s.reportAll s.offset p.early))
  rw [early.rest, List.nil_append] at walked
  unfold perform Plan.reads Plan.leaves
  cases p.skipsLine with
  | true =>
      have skipped := walked.trans (moved_skipLine _)
      rw [walked.rest] at skipped
      have all := skipped.trans (moved_reportAll _ s.offset p.late)
      rw [List.append_nil, skipped.rest] at all
      exact ⟨⟨all.kin.base, all.kin.size, all.kin.mode⟩, rfl, all.offset,
        all.rest⟩
  | false =>
      have all := walked.trans (moved_reportAll _ s.offset p.late)
      rw [walked.rest] at all
      exact ⟨⟨all.kin.base, all.kin.size, all.kin.mode⟩, rfl, all.offset,
        all.rest⟩

@[simp] theorem nesting_perform (s : Scanner) (p : Plan) :
    (s.perform p).nesting = p.nesting := rfl

/-- What a plan leaves is ahead of the scanner afterwards. -/
theorem rest_perform (s : Scanner) (p : Plan) :
    (s.perform p).rest = p.leaves s.rest := (s.moved_perform p).rest

/-- The offset grows by the width of what is read. -/
theorem offset_perform (s : Scanner) (p : Plan) :
    (s.perform p).offset = s.offset + Glyph.totalWidth (p.reads s.rest) :=
  (s.moved_perform p).offset

/-- A step stays in the file, and under the mode. -/
theorem kin_perform (s : Scanner) (p : Plan) : Kin s (s.perform p) :=
  ⟨(s.moved_perform p).kin.base, (s.moved_perform p).kin.size,
    (s.moved_perform p).kin.mode⟩

end Scanner

end BuildLexer
