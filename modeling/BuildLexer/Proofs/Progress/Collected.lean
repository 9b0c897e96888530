/-
What is collected of a whole source.

`tokenize` reads a source at once. Its tokens are those that calls of
`scan` give one after the other on a scanner in a new file, up to the
first call that gives the end (`tokens_eq`). Its diagnostics are what was
reported on the way, at the start of the scanner and by the calls up to
that last one (`reports_after`), each report in an entry of its own.

The collection takes one report at a time and drops its oldest entries
whenever there are more than it may keep. To drop them every time comes
to the same as to drop them once in the end (`newest_append`), so what
is left are the last of the reports, as many as the limit allows
(`foldl_add`).

All this is so for a source of any length. It is only read if a file can
be as large, and nothing else can go wrong (`tokenizeSource_eq`).
-/
import BuildLexer.Proofs.Bounds.Session
import BuildLexer.Proofs.Merge.Provenance
import BuildLexer.Tokenize

namespace BuildLexer

-- ======================================================= the collection

namespace Diagnostics

/-- A report added is the newest entry, and the oldest go. -/
theorem add_eq (d : Diagnostics) (p : Position) (message : String) :
    d.add p message
      = { d with
          entries := newest d.limit (d.entries ++ [Tree.single p message]) } :=
  rfl

/-- Reports added one by one are the newest entries, in their order, and
the oldest go. -/
theorem foldl_add (rs : List Report) {d : Diagnostics}
    (within : newest d.limit d.entries = d.entries) :
    rs.foldl (fun d r => d.add r.position r.message) d
      = { d with
          entries := newest d.limit
            (d.entries ++ rs.map fun r => .single r.position r.message) } := by
  induction rs generalizing d with
  | nil =>
      rw [List.foldl_nil, List.map_nil, List.append_nil, within]
  | cons r rs ih =>
      rw [List.foldl_cons, add_eq, ih newest_newest]
      dsimp only
      rw [newest_append, List.append_assoc]
      rfl

/-- Of the reports collected the last are left, as many as the limit
allows. -/
theorem entries_ofReports (rs : List Report) :
    (ofReports rs).entries
      = (rs.drop (rs.length - defaultLimit)).map
        fun r => .single r.position r.message := by
  have limited : defaultLimit ≠ noLimit := by decide
  unfold ofReports
  rw [foldl_add rs rfl]
  dsimp only
  unfold newest
  rw [if_neg limited, List.nil_append, List.length_map, List.map_drop]

end Diagnostics

namespace Scanner

variable {s t : Scanner}

-- ============================================================ the reports

/-- What the next call reports. -/
def newReports (s : Scanner) : List Report :=
  s.scan.2.reports.drop s.errorCount

/-- To look at a glyph takes no report back. -/
theorem log_look (s : Scanner) : s.log <:+ s.look.log := by
  unfold look
  split
  · exact List.suffix_cons _ _
  · exact List.suffix_rfl

theorem log_advance (s : Scanner) : s.log <:+ s.advance.log := by
  unfold advance
  split
  next => exact List.suffix_rfl
  next g rest _ =>
    exact log_look
      { s with
        rest, offset := s.offset + g.width
        file := if g = .newline then s.file.addLine (s.offset + g.width)
          else s.file }

/-- No move does. -/
theorem Moves.log (moves : Moves s t) : s.log <:+ t.log := by
  induction moves with
  | still => exact List.suffix_rfl
  | advance _ ih => exact ih.trans (log_advance _)
  | skipLine _ ih => exact ih
  | report _ _ _ ih => exact ih.trans (List.suffix_cons _ _)
  | turn _ _ ih => exact ih

/-- A call leaves the reports as they are and adds its own. -/
theorem reports_scan (s : Scanner) :
    s.scan.2.reports = s.reports ++ s.newReports := by
  obtain ⟨added, whole⟩ := (Moves.still (s := s)).scan.log
  have reports : s.scan.2.reports = s.reports ++ added.reverse := by
    unfold Scanner.reports
    rw [← whole, List.reverse_append]
  have count : s.errorCount = s.reports.length :=
    List.length_reverse.symm
  unfold newReports
  rw [reports, count, List.drop_left]

/-- Behind some calls there are the reports of the start, and those of
each call. -/
theorem reports_after (s : Scanner) (k : Nat) :
    (s.after k).reports
      = s.reports
        ++ (List.range k).flatMap fun i => (s.after i).newReports := by
  induction k with
  | zero => exact (List.append_nil _).symm
  | succ k ih =>
      show (s.after k).scan.2.reports = _
      rw [reports_scan, ih, List.range_succ, List.flatMap_append,
        List.append_assoc, List.flatMap_singleton]

-- ============================================================= the tokens

/-- The first call that gives the end comes behind some others. -/
structure FirstEnd (s : Scanner) (k : Nat) : Prop where
  before : ∀ i < k, (s.after i).scan.1.token ≠ .endOfFile
  found : (s.after k).scan.1.token = .endOfFile

/-- The tokens taken from a scanner are those of the calls before the
end, if there is room for them, and the call that gives the end is the
last one made. -/
theorem tokens_eq {n : Nat} (room : s.rest.length < n) :
    ∃ k, s.FirstEnd k
      ∧ s.tokens n
        = ((List.range k).map fun i => (s.after i).scan.1,
          s.after (k + 1)) := by
  induction n generalizing s with
  | zero => exact absurd room (Nat.not_lt_zero _)
  | succ n ih =>
      unfold tokens
      dsimp only
      by_cases ended : s.scan.1.token = .endOfFile
      · rw [if_pos ended]
        exact ⟨0, ⟨fun i hi => absurd hi (Nat.not_lt_zero i), ended⟩, rfl⟩
      · have less := length_scan s ended
        obtain ⟨k, first, later⟩ := ih (s := s.scan.2) (by omega)
        rw [if_neg ended, later]
        refine ⟨k + 1, ⟨fun i hi => ?_, ?_⟩, ?_⟩
        · cases i with
          | zero => exact ended
          | succ i =>
              rw [← after_scan]
              exact first.before i (Nat.lt_of_succ_lt_succ hi)
        · rw [← after_scan]
          exact first.found
        · rw [List.range_succ_eq_map, List.map_cons, List.map_map,
            after_scan]
          simp only [after_scan]
          rfl

end Scanner

/-- A source that is not too long for a file is read. -/
theorem tokenizeSource_eq (name : String) (mode : Mode)
    (source : List UInt8) :
    tokenizeSource name mode source
      = if source.length ≤ File.maxSize then
          .ok (tokenize name mode source)
        else .error ⟨File.maxSize, source.length⟩ := by
  have started : Scanner.start (File.alone name source.length) mode source
      = .ok (Scanner.alone name mode source) := if_pos rfl
  unfold tokenizeSource
  by_cases fits : source.length ≤ File.maxSize
  · rw [if_neg (Nat.not_lt.2 fits), if_pos fits, started]
    rfl
  · rw [if_pos (Nat.lt_of_not_le fits), if_neg fits]
    rfl

/-- Whatever the source, it is read like this. A scanner is started in a
new file, from handle 1 on, and called until it gives the end. The tokens
are those of the calls before. Of what was reported, at the start and by
each call, that of the end included, the last 120 reports are left, or
all if there are no more, oldest first: each is an entry with its own
message at its own position, also where another has the same. That is
what is left when the reports are added one by one. Only a source that is
longer than any file is not read. -/
theorem tokenize_eq_calls (name : String) (mode : Mode)
    (source : List UInt8) :
    ∃ (s : Scanner) (k : Nat) (reports : List Report),
      Scanner.start ⟨name, 1, source.length, []⟩ mode source = .ok s
        ∧ s.FirstEnd k
        ∧ (tokenize name mode source).1
          = (List.range k).map (fun i => (s.after i).scan.1)
        ∧ reports = s.reports
          ++ (List.range (k + 1)).flatMap (fun i => (s.after i).newReports)
        ∧ (tokenize name mode source).2
          = reports.foldl (fun d r => d.add r.position r.message) {}
        ∧ (tokenize name mode source).2.entries
          = (reports.drop (reports.length - 120)).map
            (fun r => ⟨r.position, [.leaf r.message]⟩)
        ∧ (tokenize name mode source).2.size = min reports.length 120
        ∧ tokenizeSource name mode source
          = if source.length ≤ File.maxSize then
              .ok (tokenize name mode source)
            else .error ⟨File.maxSize, source.length⟩ := by
  let s := Scanner.alone name mode source
  obtain ⟨k, first, tokens⟩ :=
    Scanner.tokens_eq (s := s) (Nat.lt_succ_self s.rest.length)
  have read : tokenize name mode source
      = ((List.range k).map fun i => (s.after i).scan.1,
        Diagnostics.ofReports (s.after (k + 1)).reports) := by
    show ((s.tokens (s.rest.length + 1)).1,
      Diagnostics.ofReports (s.tokens (s.rest.length + 1)).2.reports) = _
    rw [tokens]
  refine ⟨s, k, (s.after (k + 1)).reports, if_pos rfl, first, ?_,
    s.reports_after (k + 1), ?_, ?_, ?_, tokenizeSource_eq name mode source⟩
  · rw [read]
  · rw [read]
    rfl
  · rw [read]
    exact Diagnostics.entries_ofReports _
  · rw [read]
    show (Diagnostics.ofReports _).entries.length = _
    rw [Diagnostics.entries_ofReports, List.length_map, List.length_drop]
    exact Nat.sub_sub_eq_min _ _

end BuildLexer
