/-
A scanner never leaves its source.

All that a call does is made of a few moves: the scanner moves over a
glyph or to the end of a line, files a report, or opens and closes
constructs (`Moves`). Whatever the moves, and in whatever order they are
made, the scanner stands in its source at the character it says it is
at, and all that is looked at from there is in range: the next windows,
the texts, the places of a date or time, the digits of an escape, the
table of lines and the handles of the file (`InBounds`).

One invariant carries this (`Steady`): what is ahead is what the bytes
from the offset on are read as, the offset is not past the end, and the
lines of the file are in order. A move keeps it.
-/
import BuildLexer.Proofs.Bounds.Numbers
import BuildLexer.Proofs.Bounds.Temporal
import BuildLexer.Proofs.Bounds.Texts

namespace BuildLexer.Scanner

open Glyph

-- ================================================================ moves

/-- What a scanner may become from one moment to a later one. -/
inductive Moves (s : Scanner) : Scanner → Prop
  | still : Moves s s
  | advance {t : Scanner} : Moves s t → Moves s t.advance
  | skipLine {t : Scanner} : Moves s t → Moves s t.skipLine
  | report {t : Scanner} (offset : Nat) (fault : Fault) :
      Moves s t → Moves s (t.report offset fault)
  | turn {t : Scanner} (n : Nesting) :
      Moves s t → Moves s { t with nesting := n }

namespace Moves

variable {s t u : Scanner}

theorem trans (first : Moves s t) (later : Moves t u) : Moves s u := by
  induction later with
  | still => exact first
  | advance _ ih => exact ih.advance
  | skipLine _ ih => exact ih.skipLine
  | report offset fault _ ih => exact ih.report offset fault
  | turn n _ ih => exact ih.turn n

theorem reportAll (h : Moves s t) (start : Nat) (findings : List Finding) :
    Moves s (t.reportAll start findings) := by
  unfold Scanner.reportAll
  induction findings generalizing t with
  | nil => exact h
  | cons f findings ih => exact ih (h.report _ _)

theorem walk (h : Moves s t) (count : Nat) :
    Moves s (Scanner.walk count t) := by
  induction count generalizing t with
  | zero => exact h
  | succ count ih => exact ih h.advance

/-- To carry out a plan is a number of moves. -/
theorem perform (h : Moves s t) (p : Plan) : Moves s (t.perform p) := by
  have walked := (h.reportAll t.offset p.early).walk (p.more + 1)
  unfold Scanner.perform
  dsimp only
  split
  next => exact (walked.skipLine.reportAll t.offset p.late).turn p.nesting
  next => exact (walked.reportAll t.offset p.late).turn p.nesting

/-- So is a call. -/
theorem scan (h : Moves s t) : Moves s t.scan.2 :=
  scan_preserves (fun _ moved => moved.perform _)
    (fun _ _ moved => moved.turn _) h

end Moves

/-- So is any number of calls and switches. -/
theorem Session.moves {s t : Scanner} {lexemes : List Lexeme}
    (h : Session s lexemes t) : Moves s t :=
  h.preserves (P := Moves s) (fun _ moved => moved.scan)
    (fun _ _ moved => moved.turn _) .still

-- ============================================================ invariant

/-- Every move leaves a scanner inside its source. -/
theorem Seated.moves {source : List UInt8} {s t : Scanner}
    (h : s.Seated source) (moves : Moves s t) : t.Seated source := by
  induction moves with
  | still => exact h
  | advance _ ih => exact ih.advance
  | skipLine _ ih => exact ih.skipLine
  | report _ _ _ ih => exact ⟨ih.stands, ih.inside⟩
  | turn _ _ ih => exact ⟨ih.stands, ih.inside⟩

/-- Moving on keeps the lines in order. -/
theorem ordered_advance {s : Scanner} (h : s.file.Ordered) :
    s.advance.file.Ordered := by
  rw [file_advance]
  split
  next => exact h.addLine _
  next => exact h

/-- A scanner inside its source, in a file whose lines are in order. -/
structure Steady (source : List UInt8) (s : Scanner) : Prop where
  seated : s.Seated source
  ordered : s.file.Ordered

namespace Steady

variable {source : List UInt8} {s t : Scanner}

theorem look (h : s.Steady source) : s.look.Steady source := by
  obtain ⟨log, same⟩ := s.look_eq
  rw [same]
  exact ⟨⟨h.seated.stands, h.seated.inside⟩, h.ordered⟩

theorem advance (h : s.Steady source) : s.advance.Steady source :=
  ⟨h.seated.advance, ordered_advance h.ordered⟩

/-- Every move keeps the invariant. -/
theorem moves (h : s.Steady source) (moves : Moves s t) :
    t.Steady source := by
  refine ⟨h.seated.moves moves, ?_⟩
  induction moves with
  | still => exact h.ordered
  | advance _ ih => exact ordered_advance ih
  | skipLine _ ih => exact ih
  | report _ _ _ ih => exact ih
  | turn _ _ ih => exact ih

end Steady

/-- The cursor at the start of a source is that of the scanner there,
which holds the invariant. -/
theorem steady_start {file : File} {mode : Mode} {source : List UInt8}
    {s : Scanner} (started : Scanner.start file mode source = .ok s)
    (ordered : file.Ordered) :
    Cursor.start? source = some (s.cursor source) ∧ s.Steady source := by
  obtain ⟨-, rfl⟩ := start_eq_ok started
  let blank : Scanner :=
    { file, mode, rest := ofBytes source, offset := 0
      nesting := { stack := { current := startContext mode } } }
  have first : blank.look.Steady source :=
    Steady.look ⟨⟨rfl, Nat.zero_le _⟩, ordered⟩
  have offset : blank.look.offset = 0 := (moved_look blank).offset
  have entered : Cursor.advance? { source }
      = some (blank.look.cursor source) := by
    rw [Cursor.advance?_eq (Nat.zero_le _), first.seated.cursor_eq, offset]
  have begun : ofGlyphs file mode (ofBytes source)
      = if blank.look.char = some '\uFEFF' then blank.look.advance
        else blank.look := by
    have mark := char_eq_iff (s := blank.look) (c := '\uFEFF') (by decide)
    rw [rest_look] at mark
    exact if_congr mark.symm rfl rfl
  have start : Cursor.start? source
      = if blank.look.char = some '\uFEFF'
        then (blank.look.cursor source).advance?
        else some (blank.look.cursor source) := by
    unfold Cursor.start?
    rw [entered]
    rfl
  rw [begun, start]
  split
  next => exact ⟨first.seated.advance?_cursor, first.advance⟩
  next => exact ⟨rfl, first⟩

-- ============================================================== in bounds

/-- The bytes of the character that is read at the front of some
others: those it is written as, or a single byte with which no character
begins, shown by the replacement character. -/
inductive Spelled (ahead : List UInt8) : Char → List UInt8 → Prop
  | written (c : Char) : Spelled ahead c (String.utf8EncodeChar c)
  | illFormed (b : UInt8) (none : ∀ c, ¬ String.utf8EncodeChar c <+: ahead) :
      Spelled ahead '\uFFFD' [b]

/-- A scanner from which everything that is looked at is in its source. -/
structure InBounds (source : List UInt8) (s : Scanner) : Prop where
  order : s.offset ≤ s.readOffset ∧ s.readOffset ≤ source.length
  /-- There is a character but at the end. -/
  ended : s.char = none ↔ s.offset = source.length
  /-- The character is the one between the offsets. -/
  current : ∀ c, s.char = some c → ∃ bytes,
    Checked.slice? source s.offset s.readOffset = some bytes
      ∧ Spelled (source.drop s.offset) c bytes
  /-- Moving on takes no slice out of range. -/
  advance : (s.cursor source).advance? = some (s.advance.cursor source)
  skipLine : (s.cursor source).skipToNewline?
    = some (s.skipLine.cursor source)
  /-- The text of the next token is a slice, from the offset or from
  behind the character on. -/
  text : s.plan.text = ""
    ∨ ∃ start bytes, (start = s.offset ∨ start = s.readOffset)
      ∧ Checked.slice? source start (s.perform s.plan).offset = some bytes
      ∧ s.plan.text = lossyText (ofBytes bytes)
  /-- A date or time is looked for among bytes that are there. -/
  temporal : ∃ bytes,
    Checked.slice? source s.offset source.length = some bytes
      ∧ Temporal.recognize? bytes = some (Temporal.read? s.rest)
  /-- The number of an escape does not grow too large. -/
  escape : Escape.read? s.rest = some (Escape.read s.rest)
  /-- Positions are found in the table of lines. -/
  position : ∀ h, s.file.position? h = some (s.file.position h)
  /-- No sum of a base and an offset grows too large in a file that does
  not reach beyond the last handle. -/
  handles : s.file.base + s.file.size ≤ FileSet.lastHandle →
    (∀ offset, s.file.handle? offset = some (s.file.handle offset))
      ∧ ∀ h, s.file.contains? h = some (s.file.contains h)

theorem spelled_of_front {ahead : List UInt8} {g : Glyph}
    {rest : List Glyph} (h : ofBytes ahead = g :: rest) :
    Spelled ahead g.char g.bytes := by
  cases ahead with
  | nil =>
      rw [ofBytes] at h
      cases h
  | cons b more =>
      rw [ofBytes] at h
      cases hd : Utf8.decode? (b :: more) with
      | some c =>
          rw [hd] at h
          obtain ⟨rfl, -⟩ := List.cons.inj h
          exact .written c
      | none =>
          rw [hd] at h
          obtain ⟨rfl, -⟩ := List.cons.inj h
          refine .illFormed b fun c hc => ?_
          rw [Utf8.decode?_eq_some_iff.2 hc] at hd
          cases hd

/-- The invariant is enough. -/
theorem Steady.inBounds {source : List UInt8} {s : Scanner}
    (h : s.Steady source) :
    s.InBounds source where
  order := by
    refine ⟨Nat.le_add_right _ _, ?_⟩
    rw [readOffset_eq]
    exact h.seated.advance.inside
  ended := by
    have width := h.seated.width
    unfold char
    cases hr : s.rest with
    | nil =>
        rw [hr, totalWidth_nil, Nat.add_zero] at width
        exact iff_of_true rfl width
    | cons g rest =>
        rw [hr, totalWidth_cons] at width
        have := g.width_pos
        exact iff_of_false nofun (by omega)
  current := by
    intro c hc
    obtain ⟨g, hg, rfl⟩ := Option.map_eq_some_iff.1 hc
    obtain ⟨rest, hr⟩ := List.head?_eq_some_iff.1 hg
    have ahead : s.rest = ofBytes (source.drop s.offset) := h.seated.stands
    have split : s.rest = [] ++ [g] ++ rest := hr
    obtain ⟨bytes, found, read⟩ := h.seated.slice split
    refine ⟨bytes, ?_, ?_⟩
    · rw [← found]
      unfold readOffset
      rw [hr]
      rfl
    · have whole := allBytes_ofBytes bytes
      rw [read] at whole
      have one : allBytes [g] = g.bytes := List.append_nil g.bytes
      rw [← whole, one]
      exact spelled_of_front (ahead.symm.trans hr)
  advance := h.seated.advance?_cursor
  skipLine := h.seated.skipToNewline?_cursor
  text := h.seated.text s.plan (Plan.cut_next s.mode s.nesting s.rest)
  temporal := by
    have ahead : s.rest = ofBytes (source.drop s.offset) := h.seated.stands
    refine ⟨_, Checked.slice?_rest h.seated.inside, ?_⟩
    rw [Temporal.recognize?_eq, ← ahead]
  escape := Escape.read?_eq s.rest
  position := h.ordered.position?_eq
  handles room := ⟨File.handle?_eq room, File.contains?_eq room⟩

/-- A scanner is in bounds at every moment of a session, whatever the
source, the mode and the file. -/
theorem inBounds_of_session {file : File} {mode : Mode}
    {source : List UInt8} {s t u : Scanner} {lexemes : List Lexeme}
    (started : Scanner.start file mode source = .ok s)
    (ordered : file.Ordered) (session : Session s lexemes t)
    (moves : Moves t u) :
    Cursor.start? source = some (s.cursor source) ∧ u.InBounds source := by
  obtain ⟨begun, steady⟩ := steady_start started ordered
  exact ⟨begun, (steady.moves (session.moves.trans moves)).inBounds⟩

/-- At the start of a byte order mark, a line end, two bytes of a longer
character and a letter, in a file that knows a line already. -/
def atBrokenLetter : Scanner :=
  ofGlyphs ⟨"", 7, 7, [2]⟩ {}
    (ofBytes [0xEF, 0xBB, 0xBF, 10, 0xE2, 0x82, 97])

theorem inBounds_brokenLetter :
    Scanner.start ⟨"", 7, 7, [2]⟩ {} [0xEF, 0xBB, 0xBF, 10, 0xE2, 0x82, 97]
        = .ok atBrokenLetter
      ∧ (File.mk "" 7 7 [2]).Ordered
      ∧ Session atBrokenLetter
        [(atBrokenLetter.setRecipes true).scan.1]
        (atBrokenLetter.setRecipes true).scan.2
      ∧ (atBrokenLetter.setRecipes true).scan.2.advance.char
        = some '\uFFFD'
      ∧ (atBrokenLetter.setRecipes true).scan.2.advance.offset = 5
      ∧ Cursor.start? [0xEF, 0xBB, 0xBF, 10, 0xE2, 0x82, 97]
        = some (atBrokenLetter.cursor [0xEF, 0xBB, 0xBF, 10, 0xE2, 0x82, 97])
      ∧ (atBrokenLetter.setRecipes true).scan.2.advance.InBounds
        [0xEF, 0xBB, 0xBF, 10, 0xE2, 0x82, 97] := by
  have started : Scanner.start ⟨"", 7, 7, [2]⟩ {}
      [0xEF, 0xBB, 0xBF, 10, 0xE2, 0x82, 97] = .ok atBrokenLetter := rfl
  have ordered : (File.mk "" 7 7 [2]).Ordered :=
    (File.ordered_of_new (f := ⟨"", 7, 7, []⟩) rfl).addLine 2
  have session : Session atBrokenLetter
      [(atBrokenLetter.setRecipes true).scan.1]
      (atBrokenLetter.setRecipes true).scan.2 :=
    .setRecipes true (.scan (.done _))
  exact ⟨started, ordered, session, by decide +kernel, by decide +kernel,
    inBounds_of_session started ordered session (.advance .still)⟩

end BuildLexer.Scanner
