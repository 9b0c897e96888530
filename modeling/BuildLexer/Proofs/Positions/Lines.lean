/-
The lines of a source, and the lines that a file knows.

A line starts at the beginning of a source and behind each newline that
is not its last byte. The scanner finds them one by one as it passes
glyphs, and a file takes in what it is told (`File.addLine`). Told of a
line that starts behind an offset, it gives the same position for the
offset as before (`File.position_addLine`), so a position is final as
soon as all lines up to it are known. Told of a line again, a file is
what it was.

Newlines are found among glyphs and asked for among bytes. The byte of a
newline is part of no other glyph, whatever the bytes are, so both give
the same lines (`startsFrom_ofBytes`).
-/
import BuildLexer.Proofs.Join.Lines
import BuildLexer.Proofs.Literal.OneLine
import BuildLexer.Proofs.Scanner.Effect
import Mathlib.Data.List.TakeWhile

namespace BuildLexer

open Glyph

-- ============================================================== files

namespace File

/-- Registers some lines, one after the other. -/
def addLines (f : File) (starts : List Nat) : File :=
  starts.foldl addLine f

/-- Where the known lines start, first to last. -/
def lineStarts (f : File) : List Nat := 0 :: f.laterStarts.reverse

variable {f : File} {start offset : Nat} {starts : List Nat} {h : Handle}

theorem addLine_of_new (behind : f.lastStart < start)
    (inside : start < f.size) :
    f.addLine start = { f with laterStarts := start :: f.laterStarts } :=
  if_pos ⟨behind, inside⟩

/-- A line is ignored if it is known or not inside the text. -/
theorem addLine_eq_self_iff :
    f.addLine start = f ↔ ¬ (f.lastStart < start ∧ start < f.size) := by
  constructor
  · rintro same ⟨behind, inside⟩
    rw [addLine_of_new behind inside] at same
    have length := congrArg (·.laterStarts.length) same
    simp at length
  · exact fun old => if_neg old

/-- The latest start is never taken back. -/
theorem lastStart_le_addLine (f : File) (start : Nat) :
    f.lastStart ≤ (f.addLine start).lastStart := by
  by_cases new : f.lastStart < start ∧ start < f.size
  · rw [addLine_of_new new.1 new.2]
    exact Nat.le_of_lt new.1
  · exact Nat.le_of_eq (congrArg lastStart (addLine_eq_self_iff.2 new).symm)

/-- A line that a file has been told of it ignores. -/
theorem addLine_addLine_self (f : File) (start : Nat) :
    (f.addLine start).addLine start = f.addLine start := by
  rw [addLine_eq_self_iff]
  by_cases new : f.lastStart < start ∧ start < f.size
  · rw [addLine_of_new new.1 new.2]
    exact fun again => Nat.lt_irrefl _ again.1
  · rw [addLine_eq_self_iff.2 new]
    exact new

/-- A line that is ignored is ignored ever after. -/
theorem addLine_addLine (old : f.addLine start = f) (other : Nat) :
    (f.addLine other).addLine start = f.addLine other := by
  rw [addLine_eq_self_iff] at old ⊢
  have later := f.lastStart_le_addLine other
  rw [size_addLine]
  omega

theorem addLines_addLine (old : f.addLine start = f)
    (others : List Nat) :
    (f.addLines others).addLine start = f.addLines others := by
  induction others generalizing f with
  | nil => exact old
  | cons other others ih => exact ih (addLine_addLine old other)

/-- A file ignores all lines that it has been told of. -/
theorem addLine_addLines_of_mem (h : start ∈ starts) :
    (f.addLines starts).addLine start = f.addLines starts := by
  induction starts generalizing f with
  | nil => cases h
  | cons first starts ih =>
      rcases List.mem_cons.1 h with rfl | h
      · exact addLines_addLine (f.addLine_addLine_self start) starts
      · exact ih h

/-- With lines that all come behind the latest in order, those inside the
text are known. -/
theorem laterStarts_addLines (ascending : starts.Pairwise (· < ·))
    (behind : ∀ start ∈ starts, f.lastStart < start) :
    (f.addLines starts).laterStarts
      = (starts.filter (· < f.size)).reverse ++ f.laterStarts := by
  induction starts generalizing f with
  | nil => rfl
  | cons start starts ih =>
      obtain ⟨first, later⟩ := List.pairwise_cons.1 ascending
      obtain ⟨new, others⟩ := List.forall_mem_cons.1 behind
      show ((f.addLine start).addLines starts).laterStarts = _
      by_cases inside : start < f.size
      · rw [addLine_of_new new inside]
        have known : (addLines { f with laterStarts := start :: f.laterStarts }
            starts).laterStarts = _ := ih later first
        rw [known, List.filter_cons_of_pos (by simpa using inside),
          List.reverse_cons, List.append_assoc]
        rfl
      · rw [addLine_eq_self_iff.2 fun told => inside told.2, ih later others,
          List.filter_cons_of_neg (by simpa using inside)]

-- ------------------------------------------------------------ positions

theorem size_addLines (f : File) (starts : List Nat) :
    (f.addLines starts).size = f.size := by
  induction starts generalizing f with
  | nil => rfl
  | cons start starts ih => exact (ih _).trans (size_addLine f start)

theorem base_addLines (f : File) (starts : List Nat) :
    (f.addLines starts).base = f.base := by
  induction starts generalizing f with
  | nil => rfl
  | cons start starts ih => exact (ih _).trans (base_addLine f start)

theorem handle_addLines (f : File) (starts : List Nat) (offset : Nat) :
    (f.addLines starts).handle offset = f.handle offset := by
  unfold handle
  rw [size_addLines, base_addLines]

theorem offset_addLine (f : File) (start : Nat) (h : Handle) :
    (f.addLine start).offset h = f.offset h := by
  unfold offset
  rw [base_addLine, size_addLine]

theorem offset_handle_le (f : File) (offset : Nat) :
    f.offset (f.handle offset) ≤ offset := by
  rw [offset_handle]
  exact Nat.min_le_left _ _

/-- A line that starts behind a place does not change its position. -/
theorem position_addLine (behind : f.offset h < start) :
    (f.addLine start).position h = f.position h := by
  by_cases new : f.lastStart < start ∧ start < f.size
  · have starts : (f.addLine start).startsUpTo (f.offset h)
        = f.startsUpTo (f.offset h) := by
      rw [addLine_of_new new.1 new.2]
      exact List.dropWhile_cons_of_pos (by simpa using behind)
    have placed : (f.addLine start).positionAt (f.offset h)
        = f.positionAt (f.offset h) := by
      unfold positionAt lineOf lineStart
      rw [starts, addLine_of_new new.1 new.2]
    unfold position contains
    rw [offset_addLine, placed, base_addLine, size_addLine]
  · rw [addLine_eq_self_iff.2 new]

theorem position_addLines (behind : ∀ start ∈ starts, f.offset h < start) :
    (f.addLines starts).position h = f.position h := by
  induction starts generalizing f with
  | nil => rfl
  | cons start starts ih =>
      obtain ⟨first, others⟩ := List.forall_mem_cons.1 behind
      rw [← position_addLine first]
      exact ih fun start hs => by
        rw [offset_addLine]
        exact others start hs

end File

-- ============================================================= glyphs

namespace Glyph

/-- Where lines start behind the newlines among some glyphs, the first of
which stands at an offset. -/
def startsFrom : (offset : Nat) → List Glyph → List Nat
  | _, [] => []
  | offset, g :: rest =>
    if g = newline then
      (offset + g.width) :: startsFrom (offset + g.width) rest
    else startsFrom (offset + g.width) rest

variable {offset count start : Nat} {gs : List Glyph}

/-- Where the first glyphs are on one line, no line starts before they
are passed. -/
theorem lt_of_mem_startsFrom (h : start ∈ startsFrom offset gs)
    (line : OneLine count gs) : offset + count < start := by
  induction gs generalizing offset count with
  | nil => cases h
  | cons g rest ih =>
      have width := g.width_pos
      have later (hm : start ∈ startsFrom (offset + g.width) rest) :
          offset + count < start := by
        cases count with
        | zero =>
            have := ih hm .zero
            omega
        | succ count =>
            have := ih hm fun hn => line (List.mem_cons_of_mem _ hn)
            omega
      unfold startsFrom at h
      split at h
      next hg =>
        rcases List.mem_cons.1 h with rfl | hm
        · -- the newline is first, so no glyph stands before it
          cases count with
          | zero => omega
          | succ count =>
              rw [hg] at line
              exact absurd List.mem_cons_self line
        · exact later hm
      next => exact later h

/-- The lines start one behind the other. -/
theorem ascending_startsFrom (offset : Nat) (gs : List Glyph) :
    (startsFrom offset gs).Pairwise (· < ·) := by
  induction gs generalizing offset with
  | nil => exact .nil
  | cons g rest ih =>
      unfold startsFrom
      split
      next =>
        refine List.pairwise_cons.2 ⟨fun start hs => ?_, ih _⟩
        have := lt_of_mem_startsFrom hs .zero
        omega
      next => exact ih _

theorem startsFrom_append (offset : Nat) (a b : List Glyph) :
    startsFrom offset (a ++ b)
      = startsFrom offset a ++ startsFrom (offset + totalWidth a) b := by
  induction a generalizing offset with
  | nil => rfl
  | cons g rest ih =>
      rw [List.cons_append, startsFrom, startsFrom, ih, totalWidth_cons,
        Nat.add_assoc]
      split
      · rw [List.cons_append]
      · rfl

theorem startsFrom_of_not_mem (h : newline ∉ gs) (offset : Nat) :
    startsFrom offset gs = [] := by
  induction gs generalizing offset with
  | nil => rfl
  | cons g rest ih =>
      rw [startsFrom, if_neg (List.ne_of_not_mem_cons h).symm]
      exact ih (List.not_mem_of_not_mem_cons h) _

end Glyph

-- =============================================================== bytes

/-- The places behind the newlines among some bytes. -/
def behindNewlines (bytes : List UInt8) : List Nat :=
  ((List.range bytes.length).filter (bytes[·]? = some 10)).map (· + 1)

/-- Where the lines of a source start: at 0, and behind each newline
that is not the last byte. -/
def lineStarts (source : List UInt8) : List Nat :=
  0 :: (behindNewlines source).filter (· < source.length)

theorem behindNewlines_append (a b : List UInt8) :
    behindNewlines (a ++ b)
      = behindNewlines a ++ (behindNewlines b).map (a.length + ·) := by
  have before : (List.range a.length).filter ((a ++ b)[·]? = some 10)
      = (List.range a.length).filter (a[·]? = some 10) := by
    apply List.filter_congr
    intro i hi
    rw [List.getElem?_append_left (List.mem_range.1 hi)]
  have behind :
      ((List.range b.length).map (a.length + ·)).filter
          ((a ++ b)[·]? = some 10)
        = ((List.range b.length).filter (b[·]? = some 10)).map
            (a.length + ·) := by
    rw [List.filter_map]
    congr 1
    apply List.filter_congr
    intro i _
    dsimp only [Function.comp]
    rw [List.getElem?_append_right (Nat.le_add_right _ _),
      Nat.add_sub_cancel_left]
  unfold behindNewlines
  rw [List.length_append, List.range_add, List.filter_append, before,
    behind, List.map_append, List.map_map, List.map_map]
  rfl

theorem behindNewlines_of_not_mem {bytes : List UInt8} (h : 10 ∉ bytes) :
    behindNewlines bytes = [] := by
  unfold behindNewlines
  rw [List.map_eq_nil_iff, List.filter_eq_nil_iff]
  intro i _ hi
  exact h (List.mem_of_getElem? (of_decide_eq_true hi))

namespace Glyph

/-- The byte of a newline is part of no other character. -/
theorem eq_newline_of_mem_encode {c : Char}
    (h : 10 ∈ String.utf8EncodeChar c) : c = '\n' := by
  have one := Utf8.length_encode_of_ascii h (by decide)
  obtain ⟨b, hb⟩ := List.length_eq_one_iff.1 one
  rw [hb, List.mem_singleton] at h
  have bytes : String.utf8EncodeChar c = [10] := by
    rw [hb, h]
  have decoded : Utf8.decode? [10] = some c :=
    Utf8.decode?_eq_some_iff.2 (bytes ▸ List.prefix_rfl)
  exact Option.some.inj (decoded.symm.trans rfl)

/-- Nor is it read as a broken one. -/
theorem eq_newline_of_mem_bytes {bs : List UInt8} {g : Glyph}
    (hg : g ∈ ofBytes bs) (h : 10 ∈ g.bytes) : g = newline := by
  fun_induction ofBytes bs with
  | case1 => cases hg
  | case2 b rest c hd ih =>
      rcases List.mem_cons.1 hg with rfl | hg
      · rw [eq_newline_of_mem_encode h]
        rfl
      · exact ih hg
  | case3 b rest hd ih =>
      rcases List.mem_cons.1 hg with rfl | hg
      · rw [← List.mem_singleton.1 h] at hd
        cases hd
      · exact ih hg

/-- Bytes without a newline are read as glyphs without one. -/
theorem newline_not_mem_ofBytes {bs : List UInt8} (h : 10 ∉ bs) :
    newline ∉ ofBytes bs := by
  intro hm
  refine h ?_
  rw [← allBytes_ofBytes bs]
  exact List.mem_flatMap.2 ⟨newline, hm, List.mem_singleton_self 10⟩

/-- The rest of a line, among glyphs and among bytes. -/
theorem takeWhile_ofBytes (bs : List UInt8) :
    (ofBytes bs).takeWhile (· != newline)
      = ofBytes (bs.takeWhile (· != 10)) := by
  have whole := List.takeWhile_append_dropWhile (p := (· != 10)) (l := bs)
  have stopped := List.head?_dropWhile_not (· != (10 : UInt8)) bs
  have line :
      ∀ g ∈ ofBytes (bs.takeWhile (· != 10)), (g != newline) = true := by
    intro g hg
    rw [bne_iff_ne]
    rintro rfl
    refine newline_not_mem_ofBytes (fun h => ?_) hg
    cases List.mem_takeWhile_imp h
  generalize bs.takeWhile (· != 10) = before at whole line ⊢
  cases hr : bs.dropWhile (· != 10) with
  | nil =>
      rw [hr, List.append_nil] at whole
      rw [← whole]
      exact List.takeWhile_eq_self_iff.2 line
  | cons b behind =>
      rw [hr] at whole stopped
      obtain rfl : b = 10 := by simpa using stopped
      have cut : ofBytes bs = ofBytes before ++ newline :: ofBytes behind := by
        rw [← whole, ofBytes_append_cons before (by decide),
          ofBytes_ascii behind (by decide)]
        rfl
      rw [cut, List.takeWhile_append_of_pos line,
        List.takeWhile_cons_of_neg (by simp), List.append_nil]

/-- Behind newlines among glyphs and behind newlines among bytes the same
lines start. -/
theorem startsFrom_eq {gs : List Glyph}
    (plain : ∀ g ∈ gs, 10 ∈ g.bytes → g = newline) (offset : Nat) :
    startsFrom offset gs
      = (behindNewlines (allBytes gs)).map (offset + ·) := by
  induction gs generalizing offset with
  | nil => rfl
  | cons g rest ih =>
      obtain ⟨first, others⟩ := List.forall_mem_cons.1 plain
      have later := ih others (offset + g.width)
      rw [startsFrom, allBytes, List.flatMap_cons, behindNewlines_append,
        List.map_append, List.map_map, length_bytes, later]
      have further : (offset + ·) ∘ (g.width + ·) = (offset + g.width + ·) :=
        funext fun i => (Nat.add_assoc offset g.width i).symm
      rw [further]
      split
      next hg =>
        subst hg
        rfl
      next hg =>
        rw [behindNewlines_of_not_mem fun hb => hg (first hb)]
        rfl

/-- The lines of a source, as they are found. -/
theorem startsFrom_ofBytes (source : List UInt8) :
    startsFrom 0 (ofBytes source) = behindNewlines source := by
  rw [startsFrom_eq fun _ => eq_newline_of_mem_bytes, allBytes_ofBytes]
  simp

end Glyph

/-- A new file that has been told of all lines of a source knows the
lines of the source. -/
theorem File.lineStarts_addLines {f : File} {source : List UInt8}
    (new : f.laterStarts = []) (size : f.size = source.length) :
    (f.addLines (startsFrom 0 (ofBytes source))).lineStarts
      = BuildLexer.lineStarts source := by
  have behind : ∀ start ∈ startsFrom 0 (ofBytes source),
      f.lastStart < start := by
    intro start hs
    have := lt_of_mem_startsFrom hs .zero
    unfold lastStart
    rw [new]
    exact this
  have known := laterStarts_addLines (ascending_startsFrom _ _) behind
  unfold File.lineStarts BuildLexer.lineStarts
  rw [known, new, List.append_nil, List.reverse_reverse, size,
    startsFrom_ofBytes]

end BuildLexer
