/-
The positions that a scanner gives are final.

A position is worked out from the lines known at the moment, and those
are fewer than there are in the source until the source has been read to
its end. All the same every report and every token is where the complete
lines put it (`positions_exact`): they are those of a scanner that knew
all lines from the beginning. When the source has been read, the file
knows all lines that the source has, so to scan the source again in the
same file is to be that scanner. It sees the same, call by call, and
tells the file nothing new.
-/
import BuildLexer.Proofs.Nesting.Invariant
import BuildLexer.Proofs.Positions.Informed
import BuildLexer.Proofs.Progress.Call

namespace BuildLexer.Scanner

open Glyph

variable {s : Scanner}

/-- What is seen of a call right after it: the lexeme, its position and
all reports so far. -/
def seen (row : Lexeme × Scanner) : Lexeme × Position × List Report :=
  (row.1, row.2.position row.1.handle, row.2.reports)

-- ============================================================== tokens

/-- The position of a token is final when its call returns. -/
theorem position_scan (s : Scanner) :
    s.scan.2.wholeFile.position s.scan.1.handle
      = s.scan.2.position s.scan.1.handle := by
  obtain ⟨u, token, -, -, call⟩ :=
    exists_lastStep (P := fun _ => True) (fun _ _ _ => trivial) (s := s)
      trivial
  rw [call]
  apply position_wholeFile
  intro line hl
  have before := (u.perform u.plan).file.offset_handle_le u.offset
  have behind : (u.perform u.plan).offset < line := lt_of_mem_linesAhead hl
  rw [offset_perform] at behind
  show (u.perform u.plan).file.offset
    ((u.perform u.plan).file.handle u.offset) < line
  omega

-- ============================================================= the end

/-- A run leaves nothing ahead. -/
theorem Sound.rest_behindRun (h : s.Sound) : s.behindRun.rest = [] := by
  induction s using run.induct with
  | case1 s ended =>
      obtain ⟨start, call⟩ := h.advances
      rw [behindRun_of_end ended]
      exact (call.ended ended).2.2.rest
  | case2 s more ih =>
      rw [behindRun_of_more more]
      exact ih h.scan

/-- With nothing ahead all lines are known. -/
theorem informed_of_done (h : s.rest = []) : s.informed = s := by
  have known : s.wholeFile = s.file := by
    unfold wholeFile linesAhead
    rw [h]
    rfl
  unfold informed
  rw [known]

/-- So a scanner is told of everything by the end of its run. -/
theorem Sound.told_behindRun {full : File} (h : s.Sound)
    (told : Told full s.informed) : Told full s.behindRun := by
  have last := told.behindRun
  rw [informed_behindRun, informed_of_done h.rest_behindRun] at last
  exact last

-- =========================================================== whole runs

/-- The position of each token is the one that the complete lines give. -/
theorem Told.position_run {full : File} (told : Told full s.informed)
    {row : Lexeme × Scanner} (h : row ∈ s.run) :
    row.2.position row.1.handle = full.position row.1.handle := by
  have rows := told.run
  rw [informed_run] at rows
  have known : row.2.wholeFile = full :=
    (rows _ (List.mem_map_of_mem h)).file
  obtain ⟨u, rfl⟩ := exists_scan_of_mem_run h
  rw [← position_scan, known]

/-- The informed scanner sees the same. -/
theorem map_seen_informed (s : Scanner) :
    s.informed.run.map seen = s.run.map seen := by
  rw [informed_run, List.map_map]
  apply List.map_congr_left
  intro row hr
  have same : row.2.informed.position row.1.handle
      = row.2.position row.1.handle := by
    obtain ⟨u, rfl⟩ := exists_scan_of_mem_run hr
    exact u.position_scan
  show (row.1, row.2.informed.position row.1.handle, row.2.reports) = _
  rw [same]
  rfl

/-- A scanner whose run is over a source, with exact positions. -/
structure Exact (source : List UInt8) (s : Scanner) : Prop where
  /-- In the end the file knows the lines of the source. -/
  lines : s.behindRun.file.lineStarts = lineStarts source
  /-- Every report is at the position that these lines give. -/
  reports : ∀ r ∈ s.behindRun.reports,
    r.position
      = s.behindRun.position (s.behindRun.file.handle r.position.offset)
  /-- So is every token when its call returns. -/
  tokens : ∀ row ∈ s.run,
    row.2.position row.1.handle = s.behindRun.position row.1.handle

/-- A source is scanned to its end in a file that knows no lines yet.
Then all positions are exact. The same source scanned again in the same
file shows the same, and the file stays as it is. -/
theorem positions_exact {file : File} {mode : Mode} {source : List UInt8}
    {u : Scanner} (on : Bool)
    (started : Scanner.start file mode source = .ok u)
    (new : file.laterStarts = []) :
    (u.setRecipes on).Exact source
      ∧ ∃ v, Scanner.start (u.setRecipes on).behindRun.file mode source
          = .ok v
        ∧ (v.setRecipes on).run.map seen = (u.setRecipes on).run.map seen
        ∧ ∀ row ∈ (v.setRecipes on).run,
          row.2.file = (u.setRecipes on).behindRun.file := by
  have sound : (u.setRecipes on).Sound :=
    (Reachable.setRecipes on (.start started)).sound
  obtain ⟨whole, again, begun⟩ := informed_start started
  have told : Told u.wholeFile (u.setRecipes on).informed :=
    begun.setRecipes on
  have last := sound.told_behindRun told
  have complete := last.file
  constructor
  · refine ⟨?_, ?_, ?_⟩
    · rw [complete, whole]
      exact File.lineStarts_addLines new (start_eq_ok started).1
    · intro r hr
      unfold Scanner.position
      rw [complete]
      exact last.filed r (List.mem_reverse.1 hr)
    · intro row hr
      unfold Scanner.position
      rw [complete]
      exact told.position_run hr
  · -- the second scanner is the informed one
    rw [complete]
    exact ⟨u.informed, again, map_seen_informed (u.setRecipes on),
      fun row hr => (told.run row hr).file⟩

/-- Before `99:00:00`, a name and two line ends, the last of which starts
no line. The hour is reported before any of it is read. -/
def beforeInvalidHour : Scanner :=
  ofGlyphs (File.alone "" 11) {}
    (ofBytes [57, 57, 58, 48, 48, 58, 48, 48, 10, 97, 10])

theorem positions_exact_hour :
    Scanner.start (File.alone "" 11) {}
        [57, 57, 58, 48, 48, 58, 48, 48, 10, 97, 10] = .ok beforeInvalidHour
      ∧ (File.alone "" 11).laterStarts = []
      ∧ (beforeInvalidHour.setRecipes true).behindRun.reports
        = [⟨⟨"", 0, 1, 1⟩, .invalidHour⟩]
      ∧ lineStarts [57, 57, 58, 48, 48, 58, 48, 48, 10, 97, 10] = [0, 9]
      ∧ (beforeInvalidHour.setRecipes true).Exact
        [57, 57, 58, 48, 48, 58, 48, 48, 10, 97, 10]
      ∧ ∃ v, Scanner.start (beforeInvalidHour.setRecipes true).behindRun.file
          {} [57, 57, 58, 48, 48, 58, 48, 48, 10, 97, 10] = .ok v
        ∧ (v.setRecipes true).run.map seen
          = (beforeInvalidHour.setRecipes true).run.map seen
        ∧ ∀ row ∈ (v.setRecipes true).run,
          row.2.file = (beforeInvalidHour.setRecipes true).behindRun.file := by
  have started : Scanner.start (File.alone "" 11) {}
      [57, 57, 58, 48, 48, 58, 48, 48, 10, 97, 10]
        = .ok beforeInvalidHour := rfl
  have reported : (beforeInvalidHour.setRecipes true).behindRun.reports
      = [⟨⟨"", 0, 1, 1⟩, .invalidHour⟩] := by
    decide +kernel
  exact ⟨started, rfl, reported, by decide,
    positions_exact true started rfl⟩

end BuildLexer.Scanner
