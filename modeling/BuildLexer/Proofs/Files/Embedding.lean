/-
Offsets of a file as lines and columns.

A file gives every offset of its text a handle and a position, and both
can be undone: the offset is the distance of the handle from the base,
and where its line starts, with the column, is the offset again. In
between, nothing is turned around: of two offsets the first is on an
earlier line, or on the same line further left (`File.Embeds.earlier`).

All of it comes from the table of lines. However a file is told of lines,
its table begins at 0, ascends, and stays inside the text, so the line of
an offset is the number of lines that do not start behind it
(`File.Ordered.lineOf_eq_countP`), which grows with the offset, and two
offsets on one line have its start in common.
-/
import BuildLexer.Proofs.Bounds.Numbers
import BuildLexer.Proofs.Files.Owner
import Mathlib.Data.List.Nodup
import Mathlib.Data.List.Perm.Subperm

namespace BuildLexer

namespace File

-- ============================================================ the table

variable {f : File} {offset other : Nat}

/-- The lines after the first start inside the text. -/
def LinesInside (f : File) : Prop := ∀ start ∈ f.laterStarts, start < f.size

theorem LinesInside.addLine (h : f.LinesInside) (start : Nat) :
    (f.addLine start).LinesInside := by
  by_cases new : f.lastStart < start ∧ start < f.size
  · rw [addLine_of_new new.1 new.2]
    exact List.forall_mem_cons.2 ⟨new.2, h⟩
  · rw [addLine_eq_self_iff.2 new]
    exact h

/-- Whatever a file is told of, its lines ascend and are inside. -/
theorem ordered_addLines (ordered : f.Ordered) (inside : f.LinesInside)
    (starts : List Nat) :
    (f.addLines starts).Ordered ∧ (f.addLines starts).LinesInside := by
  induction starts generalizing f with
  | nil => exact ⟨ordered, inside⟩
  | cons start starts ih =>
      exact ih (ordered.addLine start) (inside.addLine start)

/-- There are no more lines than bytes, or one. -/
theorem length_lineStarts_le (ordered : f.Ordered) (inside : f.LinesInside) :
    f.lineStarts.length ≤ max f.size 1 := by
  have below : f.lineStarts ⊆ List.range (max f.size 1) := by
    intro start member
    rw [List.mem_range]
    rcases List.mem_cons.1 member with rfl | later
    · omega
    · have := inside start (List.mem_reverse.1 later)
      omega
  have apart : f.lineStarts.Nodup := ordered.imp Nat.ne_of_lt
  have few := (apart.subperm below).length_le
  rwa [List.length_range] at few

/-- The line of an offset is the number of lines that do not start behind
it. -/
theorem Ordered.lineOf_eq_countP (h : f.Ordered) (offset : Nat) :
    f.lineOf offset = f.lineStarts.countP (· ≤ offset) := by
  obtain ⟨before, after, table, count, inside, behind⟩ :=
    f.lineStarts_eq offset
  unfold Ordered at h
  rw [table, List.pairwise_append] at h
  have early : before.countP (· ≤ offset) = before.length := by
    rw [List.countP_eq_length]
    intro start member
    have := h.2.2 start member _ List.mem_cons_self
    exact decide_eq_true (by omega)
  have late : after.countP (· ≤ offset) = 0 := by
    rw [List.countP_eq_zero]
    intro start member
    have := behind start member
    simp
    omega
  have here : (f.lineStart offset :: after).countP (· ≤ offset)
      = after.countP (· ≤ offset) + 1 :=
    List.countP_cons_of_pos (decide_eq_true inside)
  rw [table, List.countP_append, here, early, late, ← count]

/-- Of two offsets the first is on an earlier line, or on the same line
further left. -/
theorem Ordered.positionAt_lt (h : f.Ordered) (less : offset < other) :
    Prod.Lex (· < ·) (· < ·)
      ((f.positionAt offset).line, (f.positionAt offset).column)
      ((f.positionAt other).line, (f.positionAt other).column) := by
  have lines : f.lineOf offset ≤ f.lineOf other := by
    rw [h.lineOf_eq_countP, h.lineOf_eq_countP]
    refine List.countP_mono_left fun start _ early => ?_
    have := of_decide_eq_true early
    exact decide_eq_true (by omega)
  rw [Prod.lex_def]
  rcases Nat.lt_or_eq_of_le lines with earlier | same
  · exact Or.inl earlier
  · have starts := f.getElem?_lineOf offset
    rw [same, f.getElem?_lineOf other, Option.some.injEq] at starts
    have := f.lineStart_le offset
    refine Or.inr ⟨same, ?_⟩
    unfold positionAt
    dsimp only
    omega

-- ============================================================ positions

theorem position_handle_of_le (valid : 1 ≤ f.base)
    (inside : offset ≤ f.size) :
    f.position (f.handle offset) = f.positionAt offset := by
  rw [position_handle valid, Nat.min_eq_left inside]

theorem position_of_outside {h : Handle}
    (outside : h.index < f.base ∨ f.base + f.size < h.index) :
    f.position h = Position.unknown := by
  have foreign : f.contains h = false := by
    rw [← Bool.not_eq_true, contains_iff]
    omega
  unfold position
  rw [foreign, Bool.and_false]
  rfl

/-- What a file promises of its offsets. -/
structure Embeds (f : File) : Prop where
  /-- Lines start at 0, then further and further inside the text. -/
  first : f.lineStarts.head? = some 0
  ascend : f.lineStarts.Pairwise (· < ·)
  inside : ∀ start ∈ f.lineStarts.tail, start < f.size
  /-- The offset of a handle is the one that the handle is of. -/
  back : ∀ o ≤ f.size, f.offset (f.handle o) = o
  /-- The line is the number of lines that do not start behind. -/
  line : ∀ o ≤ f.size, (f.position (f.handle o)).line
    = f.lineStarts.countP (· ≤ o)
  /-- The column counts from 1 where the line starts. -/
  column : ∀ o ≤ f.size, 1 ≤ (f.position (f.handle o)).column
    ∧ ∃ start,
      f.lineStarts[(f.position (f.handle o)).line - 1]? = some start
        ∧ start + (f.position (f.handle o)).column - 1 = o
  /-- What comes earlier in the text has the lesser position. -/
  earlier : ∀ o o', o < o' → o' ≤ f.size →
    Prod.Lex (· < ·) (· < ·)
      ((f.position (f.handle o)).line, (f.position (f.handle o)).column)
      ((f.position (f.handle o')).line, (f.position (f.handle o')).column)
  /-- A handle of another file is nowhere. -/
  outside : ∀ h : Handle,
    h.index < f.base ∨ f.base + f.size < h.index →
      f.position h = Position.unknown
  /-- A search in the table finds the line, and leaves nothing below 0. -/
  searched : ∀ h, f.position? h = some (f.position h)
  /-- No number is beyond the largest there is. -/
  fits : ∀ o ≤ f.size, (f.handle o).index ≤ FileSet.lastHandle
    ∧ (f.position (f.handle o)).line ≤ FileSet.lastHandle
    ∧ (f.position (f.handle o)).column ≤ FileSet.lastHandle

theorem embeds (ordered : f.Ordered) (inside : f.LinesInside)
    (valid : 1 ≤ f.base) (room : f.base + f.size ≤ FileSet.lastHandle) :
    f.Embeds where
  first := rfl
  ascend := ordered
  inside start member := inside start (List.mem_reverse.1 member)
  back o ho := (f.offset_handle o).trans (Nat.min_eq_left ho)
  line o ho := by
    rw [position_handle_of_le valid ho]
    exact ordered.lineOf_eq_countP o
  column o ho := by
    have behind := f.lineStart_le o
    rw [position_handle_of_le valid ho]
    refine ⟨Nat.le_add_left 1 _, _, f.getElem?_lineOf o, ?_⟩
    unfold positionAt
    dsimp only
    omega
  earlier o o' less ho := by
    rw [position_handle_of_le valid ho, position_handle_of_le valid (by omega)]
    exact ordered.positionAt_lt less
  outside _ := position_of_outside
  searched := ordered.position?_eq
  fits o ho := by
    have lines := length_lineStarts_le ordered inside
    have counted := f.lineStarts.countP_le_length (p := (· ≤ o))
    rw [← ordered.lineOf_eq_countP] at counted
    rw [position_handle_of_le valid ho]
    unfold handle positionAt
    dsimp only
    omega

end File

namespace FileSet

/-- No file in a set begins at no place. -/
theorem base_pos_updates {s : FileSet}
    (room : 1 ≤ s.nextBase ∧ s.nextBase ≤ lastHandle)
    (files : ∀ f ∈ s.files, 1 ≤ f.base) (us : List Update) :
    ∀ f ∈ (s.updates us).files, 1 ≤ f.base := by
  induction us generalizing s with
  | nil => exact files
  | cons u us ih =>
      have grown := nextBase_update room.2 u
      refine ih ⟨Nat.le_trans room.1 grown.1, grown.2⟩ fun g member => ?_
      obtain ⟨i, found⟩ := List.mem_iff_getElem?.1 member
      rcases file_of_update found with ⟨old, there, base, -⟩ | ⟨-, base⟩
      · rw [base]
        exact files old (List.mem_of_getElem? there)
      · rw [base]
        exact room.1

/-- A file embeds its offsets into positions, wherever it begins in a set
and whatever lines it is told of, as long as the handles go as far as its
text. -/
theorem embeds_addLines :
    (∀ us, ∀ f ∈ (({} : FileSet).updates us).files, 1 ≤ f.base)
      ∧ ∀ (name : String) (base size : Nat) (starts : List Nat),
        1 ≤ base → base + size ≤ lastHandle →
          (File.addLines { name, base, size } starts).Embeds := by
  constructor
  · exact base_pos_updates (by decide) (List.forall_mem_nil _)
  · intro name base size starts valid room
    obtain ⟨ordered, inside⟩ :=
      File.ordered_addLines (f := { name, base, size })
        (File.ordered_of_new rfl) (List.forall_mem_nil _) starts
    apply File.embeds ordered inside
    · rwa [File.base_addLines]
    · rwa [File.base_addLines, File.size_addLines]

/-- Lines are told twice, backwards and behind the text, in a file that
takes the last handle there is. -/
theorem embeds_addLines_atEnd :
    1 ≤ 4294967285 ∧ 4294967285 + 10 = lastHandle
      ∧ (File.addLines ⟨"a", 4294967285, 10, []⟩ [4, 4, 2, 7, 10]).lineStarts
        = [0, 4, 7]
      ∧ (File.addLines ⟨"a", 4294967285, 10, []⟩ [4, 4, 2, 7, 10]).Embeds :=
  ⟨by decide, by decide, by decide,
    embeds_addLines.2 "a" 4294967285 10 [4, 4, 2, 7, 10]
      (by decide) (by decide)⟩

end FileSet

end BuildLexer
