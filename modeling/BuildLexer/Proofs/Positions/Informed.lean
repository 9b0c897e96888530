/-
A scanner that learns the lines of its file as it goes, and one that
knows them all from the beginning.

Next to a scanner stands the same scanner in a file that knows all lines
ahead already (`informed`). The two do the same: a report is made at the
same position in both, because no line is ahead that starts before the
place it is about. Where the scanner stands that is plain. What a step
finds at its end is not past what it read, and what it finds before it
moves is on the line it begins on (`Plan.foresees_next`). So a step of
one is the step of the other (`informed_perform`), and with it a call
and a run.

The file of an informed scanner never changes, and all its reports are
at the positions that this one file gives (`Told`). What they share,
tokens and reports, is then true of both.
-/
import BuildLexer.Proofs.Positions.Ahead
import BuildLexer.Proofs.Positions.Lines
import BuildLexer.Proofs.Scanner.Reachable
import BuildLexer.Proofs.Scanner.Reports

namespace BuildLexer.Scanner

open Glyph

variable {s : Scanner} {full : File}

/-- The starts of the lines ahead. -/
def linesAhead (s : Scanner) : List Nat := startsFrom s.offset s.rest

/-- The file with all lines ahead. -/
def wholeFile (s : Scanner) : File := s.file.addLines s.linesAhead

/-- The same scanner in a file that knows all lines ahead. -/
def informed (s : Scanner) : Scanner := { s with file := s.wholeFile }

/-- The lines ahead begin behind the offset. -/
theorem lt_of_mem_linesAhead {line : Nat} (h : line ∈ s.linesAhead) :
    s.offset < line :=
  lt_of_mem_startsFrom h .zero

/-- Before the next line starts, positions are final. -/
theorem position_wholeFile {h : Handle}
    (near : ∀ line ∈ s.linesAhead, s.file.offset h < line) :
    s.wholeFile.position h = s.file.position h :=
  File.position_addLines near

-- ============================================================= reports

/-- A report before the next line has the same position in both files. -/
theorem informed_report {offset : Nat}
    (near : ∀ line ∈ s.linesAhead, offset < line) (fault : Fault) :
    (s.report offset fault).informed = s.informed.report offset fault := by
  have same : s.wholeFile.position (s.wholeFile.handle offset)
      = s.file.position (s.file.handle offset) := by
    unfold wholeFile
    rw [File.handle_addLines]
    refine position_wholeFile fun line hl => ?_
    exact Nat.lt_of_le_of_lt (s.file.offset_handle_le offset) (near line hl)
  unfold informed report
  dsimp only
  rw [same]
  rfl

/-- So have reports that are all before it. -/
theorem informed_reportAll {start : Nat} {fs : List Finding}
    (near : ∀ f ∈ fs, ∀ line ∈ s.linesAhead, start + f.offset < line) :
    (s.reportAll start fs).informed = s.informed.reportAll start fs := by
  unfold reportAll
  induction fs generalizing s with
  | nil => rfl
  | cons f fs ih =>
      obtain ⟨first, others⟩ := List.forall_mem_cons.1 near
      rw [List.foldl_cons, List.foldl_cons, ih, informed_report first]
      exact others

/-- Both look at the same glyph, and report it at the same position. -/
theorem informed_look (s : Scanner) : s.look.informed = s.informed.look := by
  have same : s.informed.rest.head?.bind (fault? s.informed.offset)
      = s.rest.head?.bind (fault? s.offset) := rfl
  unfold look
  rw [same]
  cases s.rest.head?.bind (fault? s.offset) with
  | some fault =>
      exact informed_report (fun _ => lt_of_mem_linesAhead) fault
  | none => rfl

-- ============================================================== moving

/-- Both move on together, and a line begun is known to the one already. -/
theorem informed_advance (s : Scanner) :
    s.advance.informed = s.informed.advance := by
  have same : s.informed.rest = s.rest := rfl
  unfold advance
  rw [same]
  cases hr : s.rest with
  | nil => rfl
  | cons g rest =>
      dsimp only
      rw [informed_look]
      congr 1
      unfold informed wholeFile linesAhead
      rw [hr, startsFrom]
      dsimp only
      by_cases hg : g = newline
      · -- the line behind the newline is the first of those ahead
        rw [if_pos hg, if_pos hg, if_pos hg,
          File.addLine_addLines_of_mem List.mem_cons_self]
        rfl
      · rw [if_neg hg, if_neg hg, if_neg hg]

/-- Both walk together. -/
theorem informed_walk (count : Nat) (s : Scanner) :
    (walk count s).informed = walk count s.informed := by
  induction count generalizing s with
  | zero => rfl
  | succ count ih => rw [walk, walk, ih, informed_advance]

/-- No line starts in a line that is passed over. -/
theorem linesAhead_skipLine (s : Scanner) :
    s.skipLine.linesAhead = s.linesAhead := by
  have moved := s.moved_skipLine
  have plain : newline ∉ s.rest.takeWhile (· != newline) :=
    not_mem_takeWhile (by simp) _
  unfold linesAhead
  rw [moved.rest, moved.offset]
  calc startsFrom (s.offset + totalWidth (s.rest.takeWhile (· != newline)))
        (s.rest.dropWhile (· != newline))
      = startsFrom s.offset (s.rest.takeWhile (· != newline)
          ++ s.rest.dropWhile (· != newline)) := by
        rw [startsFrom_append, startsFrom_of_not_mem plain, List.nil_append]
    _ = startsFrom s.offset s.rest := by
        rw [List.takeWhile_append_dropWhile]

/-- Both pass the rest of the line together. -/
theorem informed_skipLine (s : Scanner) :
    s.skipLine.informed = s.informed.skipLine := by
  unfold informed wholeFile
  rw [linesAhead_skipLine]
  rfl

-- =============================================================== steps

/-- What a step finds at its end is before the next line. -/
theorem lt_of_late {f : Finding} (hf : f ∈ s.plan.late) {line : Nat}
    (hl : line ∈ (s.perform s.plan).linesAhead) :
    s.offset + f.offset < line := by
  have behind := lt_of_mem_linesAhead hl
  rw [offset_perform] at behind
  have left : s.plan.leaves s.rest ≠ [] := by
    intro done
    unfold linesAhead at hl
    rw [rest_perform, done] at hl
    cases hl
  have read := offset_le_reads (List.mem_append_right _ hf) left
  omega

/-- What a step does last is to report what it finds at its end. -/
theorem informed_late {t : Scanner} {n : Nesting}
    (ht : s.perform s.plan
      = { t.reportAll s.offset s.plan.late with nesting := n }) :
    (s.perform s.plan).informed
      = { t.informed.reportAll s.offset s.plan.late with nesting := n } := by
  have moved := t.moved_reportAll s.offset s.plan.late
  have same : (s.perform s.plan).linesAhead = t.linesAhead := by
    rw [ht]
    unfold linesAhead
    dsimp only
    rw [moved.rest, moved.offset]
    rfl
  have late : (t.reportAll s.offset s.plan.late).informed
      = t.informed.reportAll s.offset s.plan.late :=
    informed_reportAll fun f hf line hl => lt_of_late hf (same ▸ hl)
  rw [ht, ← late]
  rfl

/-- A step of a scanner is a step of the informed one. -/
theorem informed_perform (s : Scanner) :
    (s.perform s.plan).informed = s.informed.perform s.plan := by
  have early : (s.reportAll s.offset s.plan.early).informed
      = s.informed.reportAll s.offset s.plan.early :=
    informed_reportAll fun f hf _ hl =>
      lt_of_mem_startsFrom hl (Plan.foresees_next _ _ _ f hf)
  have walked := informed_walk (s.plan.more + 1)
    (s.reportAll s.offset s.plan.early)
  rw [early] at walked
  rw [informed_late rfl]
  unfold perform
  dsimp only
  cases hp : s.plan.skipsLine with
  | true =>
      rw [if_pos rfl, if_pos rfl, informed_skipLine, walked]
      rfl
  | false =>
      rw [if_neg Bool.false_ne_true, if_neg Bool.false_ne_true, walked]
      rfl

-- =============================================================== calls

/-- A call gives the same token in both. -/
theorem informed_scan (s : Scanner) :
    s.informed.scan = (s.scan.1, s.scan.2.informed) := by
  induction s using scan.induct with
  | case1 s token hp =>
      have told : s.informed.plan.token = some token := hp
      rw [scan_of_token hp, scan_of_token told]
      show (s.informed.perform s.plan).deliver s.offset token s.plan.text = _
      rw [← informed_perform]
      have handle : (s.perform s.plan).informed.file.handle s.offset
          = (s.perform s.plan).file.handle s.offset :=
        File.handle_addLines _ _ _
      unfold Scanner.deliver
      rw [handle]
      rfl
  | case2 s hp ih =>
      have told : s.informed.plan.token = none := hp
      rw [scan_of_skip hp, scan_of_skip told]
      show (s.informed.perform s.plan).scan = _
      rw [← informed_perform, ih]

/-- A run gives the same tokens in both. -/
theorem informed_run (s : Scanner) :
    s.informed.run = s.run.map fun row => (row.1, row.2.informed) := by
  induction s using run.induct with
  | case1 s ended =>
      have call := s.informed_scan
      have told : s.informed.scan.1.token = .endOfFile := by
        rw [call]
        exact ended
      rw [run_of_end ended, run_of_end told, call]
      rfl
  | case2 s more ih =>
      have call := s.informed_scan
      have told : s.informed.scan.1.token ≠ .endOfFile := by
        rw [call]
        exact more
      rw [run_of_more more, run_of_more told, call, List.map_cons]
      dsimp only
      rw [ih]

/-- Behind a run both are the same scanner again. -/
theorem informed_behindRun (s : Scanner) :
    s.informed.behindRun = s.behindRun.informed := by
  unfold behindRun
  rw [informed_run, List.getLast?_map]
  cases s.run.getLast? with
  | none => rfl
  | some row => rfl

/-- At the start of a source the lines ahead are all lines of it. -/
theorem informed_ofGlyphs (file : File) (mode : Mode) (src : List Glyph) :
    (ofGlyphs file mode src).informed
      = ofGlyphs (file.addLines (startsFrom 0 src)) mode src := by
  unfold ofGlyphs
  dsimp only
  split
  next =>
    rw [informed_advance, informed_look]
    rfl
  next =>
    rw [informed_look]
    rfl

-- ============================================================ one file

/-- A scanner in a file that knows all lines ahead, whose reports are at
the positions that the file gives. -/
structure Told (full : File) (s : Scanner) : Prop where
  file : s.file = full
  known : ∀ line ∈ s.linesAhead, full.addLine line = full
  filed : ∀ r ∈ s.log,
    r.position = full.position (full.handle r.position.offset)

namespace Told

/-- A report is filed at the position that the file gives. -/
theorem report (h : Told full s) (offset : Nat) (fault : Fault) :
    Told full (s.report offset fault) where
  file := h.file
  known := h.known
  filed := by
    refine List.forall_mem_cons.2 ⟨?_, h.filed⟩
    show s.file.position (s.file.handle offset) = full.position
      (full.handle (s.file.position (s.file.handle offset)).offset)
    have same : full.handle (min offset full.size) = full.handle offset := by
      unfold File.handle
      rw [Nat.min_assoc, Nat.min_self]
    rw [h.file, File.offset_position, same]

theorem reportAll (h : Told full s) (start : Nat) (fs : List Finding) :
    Told full (s.reportAll start fs) := by
  unfold Scanner.reportAll
  induction fs generalizing s with
  | nil => exact h
  | cons f fs ih => exact ih (h.report _ _)

/-- To look at a glyph files nothing else. -/
theorem look (h : Told full s) : Told full s.look := by
  unfold Scanner.look
  split
  · exact h.report _ _
  · exact h

/-- A line that is begun is known already. -/
theorem advance (h : Told full s) : Told full s.advance := by
  unfold Scanner.advance
  split
  · exact h
  next g rest hr =>
    have known := h.known
    unfold linesAhead at known
    rw [hr, startsFrom] at known
    apply look
    by_cases hg : g = newline
    · rw [if_pos hg] at known
      obtain ⟨first, others⟩ := List.forall_mem_cons.1 known
      refine ⟨?_, others, h.filed⟩
      dsimp only
      rw [if_pos hg, h.file, first]
    · rw [if_neg hg] at known
      refine ⟨?_, known, h.filed⟩
      dsimp only
      rw [if_neg hg, h.file]

theorem walk (h : Told full s) (count : Nat) :
    Told full (walk count s) := by
  induction count generalizing s with
  | zero => exact h
  | succ count ih => exact ih h.advance

/-- No line begins within a line. -/
theorem skipLine (h : Told full s) : Told full s.skipLine where
  file := h.file
  known := by
    rw [linesAhead_skipLine]
    exact h.known
  filed := h.filed

/-- A step files its findings like this. -/
theorem perform (h : Told full s) (p : Plan) :
    Told full (s.perform p) := by
  have walked := (h.reportAll s.offset p.early).walk (p.more + 1)
  unfold Scanner.perform
  dsimp only
  split
  · have all := walked.skipLine.reportAll s.offset p.late
    exact ⟨all.file, all.known, all.filed⟩
  · have all := walked.reportAll s.offset p.late
    exact ⟨all.file, all.known, all.filed⟩

theorem scan (h : Told full s) : Told full s.scan.2 :=
  scan_preserves (fun s hs => hs.perform s.plan)
    (fun _ _ hs => ⟨hs.file, hs.known, hs.filed⟩) h

theorem setRecipes (h : Told full s) (on : Bool) :
    Told full (s.setRecipes on) :=
  ⟨h.file, h.known, h.filed⟩

/-- So it is behind every call of a run. -/
theorem run (h : Told full s) : ∀ row ∈ s.run, Told full row.2 := by
  induction s using Scanner.run.induct with
  | case1 s ended =>
      rw [run_of_end ended]
      exact List.forall_mem_singleton.2 h.scan
  | case2 s more ih =>
      rw [run_of_more more]
      exact List.forall_mem_cons.2 ⟨h.scan, ih h.scan⟩

theorem behindRun (h : Told full s) : Told full s.behindRun := by
  unfold Scanner.behindRun
  cases hr : s.run.getLast? with
  | none => exact h
  | some row => exact h.run row (List.mem_of_getLast? hr)

end Told

/-- A file that has been told of all lines of a source is told of none
any more. -/
theorem told_ofGlyphs (file : File) (mode : Mode) (src : List Glyph) :
    Told (file.addLines (startsFrom 0 src))
      (ofGlyphs (file.addLines (startsFrom 0 src)) mode src) := by
  have blank (n : Nesting) : Told (file.addLines (startsFrom 0 src))
      { file := file.addLines (startsFrom 0 src)
        mode, rest := src, offset := 0, nesting := n } :=
    ⟨rfl, fun _ => File.addLine_addLines_of_mem, List.forall_mem_nil _⟩
  unfold ofGlyphs
  dsimp only
  split
  · exact (blank _).look.advance
  · exact (blank _).look

/-- The informed scanner is one at the start of the same source, in the
file that has been told of all its lines. -/
theorem informed_start {file : File} {mode : Mode} {source : List UInt8}
    (h : Scanner.start file mode source = .ok s) :
    s.wholeFile = file.addLines (startsFrom 0 (ofBytes source))
      ∧ Scanner.start s.wholeFile mode source = .ok s.informed
      ∧ Told s.wholeFile s.informed := by
  obtain ⟨size, rfl⟩ := start_eq_ok h
  have same := informed_ofGlyphs file mode (ofBytes source)
  have told := told_ofGlyphs file mode (ofBytes source)
  rw [← same] at told
  have whole : (ofGlyphs file mode (ofBytes source)).wholeFile
      = file.addLines (startsFrom 0 (ofBytes source)) := told.file
  rw [← whole] at same told
  refine ⟨whole, ?_, told⟩
  rw [same, whole]
  exact if_pos ((File.size_addLines _ _).trans size)

end BuildLexer.Scanner
