/-
The rest of a line, passed in one jump or read character by character.

Behind the hash sign of a comment the scanner passes to the end of the
line without looking (`Scanner.skipLine`). It could as well move over
one glyph after the other until a newline is ahead or nothing
(`Scanner.walkLine`). It would come to the same place, in the same
constructs and with the same lines known, and would only have reported
what is wrong with the glyphs on the way (`skipLine_eq`).

On bytes the two are different work (`Reader`). Reading on decodes one
character after the other, and steps over a single byte where none
begins. The jump searches the bytes for a newline, and on its way there
it is at no character at all, so that no line starts where it came from
(`Reader.jump?`). That they come to the same byte is because the byte of
a newline is part of no other character and is not taken for one of a
broken sequence either (`Glyph.takeWhile_ofBytes`), whatever character
the jump begins in front of.
-/
import BuildLexer.Proofs.Bounds.Session
import BuildLexer.Proofs.Scanner.Code

namespace BuildLexer

open Glyph

-- ============================================================= on bytes

/-- A cursor on some bytes, and the file to which it tells the lines that
it comes to. -/
structure Reader where
  cursor : Cursor
  file : File
  deriving DecidableEq

namespace Reader

/-- At a newline, or at the end. -/
def AtLineEnd (r : Reader) : Prop :=
  r.cursor.char = none ∨ r.cursor.char = some '\n'

instance (r : Reader) : Decidable r.AtLineEnd :=
  inferInstanceAs (Decidable (_ ∨ _))

/-- Moves to the next character. From a newline that is to a new line. -/
def advance? (r : Reader) : Option Reader := do
  let cursor ← r.cursor.advance?
  some {
    cursor
    file := if r.cursor.char = some '\n' then
        r.file.addLine r.cursor.readOffset
      else r.file }

/-- Moves to the next newline, from the start of the present character
on, or to the end. -/
def jump? (r : Reader) : Option Reader :=
  if r.AtLineEnd then some r
  else do
    let rest ← Checked.slice? r.cursor.source r.cursor.offset
      r.cursor.source.length
    advance? { r with
      cursor := { r.cursor with
        readOffset := r.cursor.offset + rest.findIdx (· == 10)
        char := none } }

/-- Reads on, one character after the other, until a newline or the
end. -/
inductive Walks : Reader → Reader → Prop
  | stop {r : Reader} : r.AtLineEnd → Walks r r
  | step {r next last : Reader} :
      ¬ r.AtLineEnd → r.advance? = some next → Walks next last →
      Walks r last

/-- There is one place where that ends. -/
theorem Walks.unique {r a b : Reader} (ha : Walks r a) (hb : Walks r b) :
    a = b := by
  induction ha with
  | stop ended =>
      cases hb with
      | stop _ => rfl
      | step more _ _ => exact absurd ended more
  | step more next _ ih =>
      cases hb with
      | stop ended => exact absurd ended more
      | step _ next' later =>
          rw [next] at next'
          obtain rfl := Option.some.inj next'
          exact ih later

/-- A jump moves the cursor and tells the file of no line. -/
theorem jump?_eq (r : Reader) :
    r.jump? = r.cursor.skipToNewline?.map fun cursor => { r with cursor } := by
  by_cases ended : r.cursor.char = none ∨ r.cursor.char = some '\n'
  · have still : r.cursor.skipToNewline? = some r.cursor := if_pos ended
    have here : r.jump? = some r := if_pos ended
    rw [here, still]
    rfl
  · unfold Cursor.skipToNewline?
    have leaves : r.jump? = _ := if_neg ended
    rw [leaves, if_neg ended]
    cases Checked.slice? r.cursor.source r.cursor.offset
        r.cursor.source.length with
    | none => rfl
    | some rest =>
        show advance? _ = Option.map _ (Cursor.advance? _)
        unfold advance?
        dsimp only
        -- the cursor is at no character, so at no newline
        rw [if_neg nofun]
        cases Cursor.advance? _ <;> rfl

end Reader

namespace Scanner

-- ========================================================= the scanner

/-- A scanner as a reader of its source. -/
def reader (s : Scanner) (source : List UInt8) : Reader :=
  ⟨s.cursor source, s.file⟩

/-- Moves over one glyph after the other until a newline is ahead, or
nothing. -/
def walkLine (s : Scanner) : Scanner :=
  if s.char = none ∨ s.char = some '\n' then s else walkLine s.advance
termination_by s.rest.length
decreasing_by
  rename_i more
  have ahead : s.rest ≠ [] := fun done =>
    more (Or.inl (char_eq_none_iff.2 done))
  have length := List.length_pos_iff.2 ahead
  rw [rest_advance, List.length_drop]
  omega

variable {source : List UInt8} {s : Scanner}

-- ============================================================= the walk

/-- At the end of a line there is nothing to pass. -/
theorem skipLine_of_ended (h : s.char = none ∨ s.char = some '\n') :
    s.skipLine = s := by
  have none : s.rest.takeWhile (· != newline) = [] := by
    rcases h with done | line
    · rw [char_eq_none_iff.1 done]
      rfl
    · obtain ⟨rest, ahead⟩ :=
        List.head?_eq_some_iff.1 ((char_eq_iff (by decide)).1 line)
      rw [ahead]
      exact List.takeWhile_cons_of_neg (by decide)
  unfold skipLine
  dsimp only
  rw [none]
  rfl

/-- To pass to the end of a line is to move over a glyph and pass from
there on, but for what is reported. -/
theorem skipLine_of_more (h : ¬ (s.char = none ∨ s.char = some '\n')) :
    s.skipLine = { s.advance.skipLine with log := s.log } := by
  cases ahead : s.rest with
  | nil => exact absurd (Or.inl (char_eq_none_iff.2 ahead)) h
  | cons g rest =>
      have other : g ≠ newline := by
        rintro rfl
        refine h (Or.inr ((char_eq_iff (by decide)).2 ?_))
        rw [ahead]
        rfl
      have taken : (g :: rest).takeWhile (· != newline)
          = g :: rest.takeWhile (· != newline) :=
        List.takeWhile_cons_of_pos (bne_iff_ne.2 other)
      obtain ⟨log, looked⟩ :=
        look_eq { s with rest, offset := s.offset + g.width }
      have moved : s.advance
          = { s with rest, offset := s.offset + g.width, log } := by
        unfold advance
        rw [ahead]
        dsimp only
        rw [if_neg other]
        exact looked
      rw [moved]
      unfold skipLine
      dsimp only
      rw [ahead, taken, List.length_cons, List.drop_succ_cons,
        totalWidth_cons, Nat.add_assoc]

/-- Passing a line at once leads where reading it does, but for what is
reported. -/
theorem skipLine_eq (s : Scanner) :
    s.skipLine = { s.walkLine with log := s.log } := by
  induction s using walkLine.induct with
  | case1 s ended =>
      rw [walkLine, if_pos ended, skipLine_of_ended ended]
  | case2 s more ih =>
      rw [walkLine, if_neg more, skipLine_of_more more, ih]

namespace Seated

/-- The reader follows a scanner that moves over a glyph. -/
theorem advance?_reader (h : s.Seated source) :
    (s.reader source).advance? = some (s.advance.reader source) := by
  unfold Reader.advance? reader
  dsimp only
  rw [h.advance?_cursor, file_advance]
  rfl

/-- It follows one that passes to the end of the line. -/
theorem jump?_reader (h : s.Seated source) :
    (s.reader source).jump? = some (s.skipLine.reader source) := by
  rw [Reader.jump?_eq]
  unfold reader
  dsimp only
  rw [h.skipToNewline?_cursor]
  rfl

/-- And it follows one that reads to the end of the line. -/
theorem walks_reader (h : s.Seated source) :
    Reader.Walks (s.reader source) (s.walkLine.reader source) := by
  induction s using walkLine.induct with
  | case1 s ended =>
      rw [walkLine, if_pos ended]
      exact .stop ended
  | case2 s more ih =>
      rw [walkLine, if_neg more]
      exact .step more h.advance?_reader (ih h.advance)

end Seated

/-- A scanner is put in its place at the start. -/
theorem seated_start {file : File} {mode : Mode}
    (started : Scanner.start file mode source = .ok s) :
    s.Seated source := by
  obtain ⟨stands, ahead⟩ := reading_of_session started (.done s)
  rw [(placed_start started).size, (start_eq_ok started).1] at ahead
  exact ⟨stands, by omega⟩

/-- At every moment of a session, whatever bytes are ahead, passing to
the end of the line leads where reading on leads: to the same character
at the same offsets, in the same constructs, with the same lines known.
Only the reports are not the same. So it is for the reader of the bytes,
which takes the jump for the one and the walk for the other. -/
theorem skipLine_eq_walkLine {file : File} {mode : Mode}
    {source : List UInt8} {s t u : Scanner} {lexemes : List Lexeme}
    (started : Scanner.start file mode source = .ok s)
    (session : Session s lexemes t) (moves : Moves t u) :
    u.skipLine = { u.walkLine with log := u.log }
      ∧ (u.reader source).jump? = some (u.skipLine.reader source)
      ∧ ∀ r, Reader.Walks (u.reader source) r
        ↔ r = u.skipLine.reader source := by
  have seated :=
    (seated_start started).moves (session.moves.trans moves)
  have walks := seated.walks_reader
  have same : u.walkLine.reader source = u.skipLine.reader source := by
    rw [skipLine_eq]
    rfl
  rw [same] at walks
  refine ⟨u.skipLine_eq, seated.jump?_reader, fun r => ⟨?_, ?_⟩⟩
  · exact fun other => other.unique walks
  · rintro rfl
    exact walks

/-- Before a letter, a line end and a comment in which two characters are
cut off, the second by a line end, with a NUL between them. -/
def beforeCutCharacters : Scanner :=
  ofGlyphs ⟨"", 5, 11, []⟩ {}
    (ofBytes [97, 10, 35, 0xE2, 0x82, 0, 0xF0, 0x9F, 10, 98, 10])

/-- Behind the hash sign of that comment. -/
def atCutCharacter : Scanner := beforeCutCharacters.scan.2.scan.2.advance

theorem skipLine_eq_walkLine_cut :
    Scanner.start ⟨"", 5, 11, []⟩ {}
        [97, 10, 35, 0xE2, 0x82, 0, 0xF0, 0x9F, 10, 98, 10]
        = .ok beforeCutCharacters
      ∧ Session beforeCutCharacters
        [beforeCutCharacters.scan.1, beforeCutCharacters.scan.2.scan.1]
        beforeCutCharacters.scan.2.scan.2
      ∧ Moves beforeCutCharacters.scan.2.scan.2 atCutCharacter
      ∧ (atCutCharacter.offset = 3 ∧ atCutCharacter.char = some '\uFFFD')
      ∧ (atCutCharacter.skipLine.offset = 8
        ∧ atCutCharacter.skipLine.file.laterStarts = [2])
      ∧ atCutCharacter.walkLine.errorCount
        = atCutCharacter.skipLine.errorCount + 4
      ∧ atCutCharacter.skipLine
        = { atCutCharacter.walkLine with log := atCutCharacter.log }
      ∧ ((atCutCharacter.reader
          [97, 10, 35, 0xE2, 0x82, 0, 0xF0, 0x9F, 10, 98, 10]).jump?
          = some (atCutCharacter.skipLine.reader
            [97, 10, 35, 0xE2, 0x82, 0, 0xF0, 0x9F, 10, 98, 10])
        ∧ ∀ r, Reader.Walks (atCutCharacter.reader
            [97, 10, 35, 0xE2, 0x82, 0, 0xF0, 0x9F, 10, 98, 10]) r
          ↔ r = atCutCharacter.skipLine.reader
            [97, 10, 35, 0xE2, 0x82, 0, 0xF0, 0x9F, 10, 98, 10]) := by
  have started : Scanner.start ⟨"", 5, 11, []⟩ {}
      [97, 10, 35, 0xE2, 0x82, 0, 0xF0, 0x9F, 10, 98, 10]
        = .ok beforeCutCharacters := rfl
  have session : Session beforeCutCharacters
      [beforeCutCharacters.scan.1, beforeCutCharacters.scan.2.scan.1]
      beforeCutCharacters.scan.2.scan.2 :=
    .scan (.scan (.done _))
  have moves : Moves beforeCutCharacters.scan.2.scan.2 atCutCharacter :=
    .advance .still
  exact ⟨started, session, moves, by decide +kernel, by decide +kernel,
    by decide +kernel, skipLine_eq_walkLine started session moves⟩

end Scanner

end BuildLexer
