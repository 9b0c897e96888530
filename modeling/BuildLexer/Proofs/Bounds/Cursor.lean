/-
The cursor of the scanner on the bytes of its source, with every access
checked.

A scanner is said to have glyphs ahead. What finds them is a cursor on
the bytes: the character it is at, where that character starts and where
it ends (`Cursor`). Moving on reads the byte at its end and, where that
byte is not a character alone, decodes a window of as many bytes as it
announces, cut off at the end of the source. Passing to the end of a
line searches the bytes for the newline. Both take slices, and a slice
is only there if its ends are in order and inside the source
(`Checked.slice?`).

They always are. A cursor that may be read from at all moves to the
character that is at its end (`Cursor.advance?_eq`), so it follows the
scanner on every move (`Scanner.advance?_cursor`,
`Scanner.skipToNewline?_cursor`).
-/
import BuildLexer.Proofs.Positions.Lines
import BuildLexer.Proofs.Progress.Session
import BuildLexer.Proofs.Scanner.Passage
import BuildLexer.Proofs.Tiling.Written
import Mathlib.Algebra.Group.Nat.Defs

namespace BuildLexer

open Glyph

-- ====================================================== checked accesses

namespace Checked

/-- The bytes from one offset to another, if the two are in order and
not past the end. -/
def slice? (bytes : List UInt8) (start stop : Nat) :
    Option (List UInt8) :=
  if start ≤ stop ∧ stop ≤ bytes.length then
    some ((bytes.drop start).take (stop - start))
  else none

/-- A difference, if it is no less than 0. -/
def sub? (m n : Nat) : Option Nat := if n ≤ m then some (m - n) else none

/-- A number, if it can be written with some bits. -/
def fits? (bits n : Nat) : Option Nat := if n < 2 ^ bits then some n else none

variable {bytes piece rest : List UInt8} {start stop m n bits : Nat}

/-- A byte that is in front of some others, in its place. -/
theorem at_of_drop {b : UInt8} {i : Nat} (h : bytes.drop i = b :: rest) :
    bytes[i]? = some b ∧ bytes.drop (i + 1) = rest := by
  constructor
  · rw [← List.head?_drop, h, List.head?_cons]
  · rw [← List.drop_drop, h, List.drop_one, List.tail_cons]

theorem slice?_of_le (order : start ≤ stop) (inside : stop ≤ bytes.length) :
    slice? bytes start stop
      = some ((bytes.drop start).take (stop - start)) :=
  if_pos ⟨order, inside⟩

/-- The slice of all that is left. -/
theorem slice?_rest (inside : start ≤ bytes.length) :
    slice? bytes start bytes.length = some (bytes.drop start) := by
  rw [slice?_of_le inside (Nat.le_refl _), ← List.length_drop,
    List.take_length]

/-- The slice of a piece that is known to be there. -/
theorem slice?_of_drop (h : bytes.drop start = piece ++ rest)
    (inside : start ≤ bytes.length) :
    slice? bytes start (start + piece.length) = some piece := by
  have length := congrArg List.length h
  rw [List.length_drop, List.length_append] at length
  rw [slice?_of_le (Nat.le_add_right _ _) (by omega), h,
    Nat.add_sub_cancel_left, List.take_left]

theorem sub?_of_le (h : n ≤ m) : sub? m n = some (m - n) := if_pos h

theorem fits?_of_lt (h : n < 2 ^ bits) : fits? bits n = some n := if_pos h

end Checked

-- ============================================================ the cursor

/-- A cursor on some bytes: the character it is at, none at the end, and
where that character starts and ends. At first it is at nothing yet. -/
structure Cursor where
  source : List UInt8
  char : Option Char := some ' '
  offset : Nat := 0
  readOffset : Nat := 0
  deriving DecidableEq

namespace Cursor

/-- How many bytes a character takes by its first byte. -/
def announced (b : UInt8) : Nat :=
  let n := b.toNat
  if 0xC2 ≤ n ∧ n ≤ 0xDF then 2
  else if 0xE0 ≤ n ∧ n ≤ 0xEF then 3
  else if 0xF0 ≤ n ∧ n ≤ 0xF4 then 4
  else 1

/-- The characters of some bytes, if those are well-formed to their
end. -/
def text? (bytes : List UInt8) : Option (List Char) :=
  (ofBytes bytes).mapM fun
    | .scalar c => some c
    | .broken _ => none

/-- Moves to the character at the end of the present one. -/
def advance? (c : Cursor) : Option Cursor :=
  match c.source[c.readOffset]? with
  | none => some { c with char := none, offset := c.source.length }
  | some b =>
    if b.toNat < 0x80 then
      some { c with
        char := some (Char.ofNat b.toNat)
        offset := c.readOffset
        readOffset := c.readOffset + 1 }
    else do
      let stop := min (c.readOffset + announced b) c.source.length
      let window ← Checked.slice? c.source c.readOffset stop
      match (text? window).bind List.head? with
      | some char =>
        some { c with
          char := some char
          offset := c.readOffset
          readOffset := stop }
      | none =>
        some { c with
          char := some '\uFFFD'
          offset := c.readOffset
          readOffset := c.readOffset + 1 }

/-- Moves to the next newline from the present character on, or to the
end. -/
def skipToNewline? (c : Cursor) : Option Cursor :=
  if c.char = none ∨ c.char = some '\n' then some c
  else do
    let rest ← Checked.slice? c.source c.offset c.source.length
    advance? { c with
      readOffset := c.offset + rest.findIdx (· == 10)
      char := none }

/-- A cursor at the start of a source, behind a byte order mark if there
is one. -/
def start? (source : List UInt8) : Option Cursor := do
  let c ← advance? { source }
  if c.char = some '\uFEFF' then c.advance? else some c

/-- The cursor at an offset of a source. -/
def standing (source : List UInt8) (offset : Nat) : Cursor where
  source := source
  char := (ofBytes (source.drop offset)).head?.map Glyph.char
  offset := offset
  readOffset := offset + totalWidth ((ofBytes (source.drop offset)).take 1)

-- ============================================================= decoding

/-- A character takes as many bytes as its first byte announces. -/
theorem announced_of_encode {c : Char} {b : UInt8} {more : List UInt8}
    (h : String.utf8EncodeChar c = b :: more) (high : ¬ b.toNat < 0x80) :
    announced b = c.utf8Size := by
  have size := String.length_utf8EncodeChar c
  have limit : c.toNat < 0x110000 := by
    rcases c.valid with valid | valid
    · exact Nat.lt_trans valid (by decide)
    · exact valid.2
  rw [← size]
  rw [Utf8.encode_eq] at h ⊢
  dsimp only at h ⊢
  generalize c.toNat = v at h limit ⊢
  unfold announced
  split at h
  next =>
    obtain ⟨rfl, -⟩ := List.cons.inj h
    rw [Utf8.toNat_ofNat_of_lt (by omega)] at high
    omega
  next =>
    split at h
    next =>
      obtain ⟨rfl, -⟩ := List.cons.inj h
      rw [Utf8.toNat_ofNat_of_lt (by omega), if_pos (by omega),
        if_neg (by omega), if_pos (by omega)]
      rfl
    next =>
      split at h
      next =>
        obtain ⟨rfl, -⟩ := List.cons.inj h
        rw [Utf8.toNat_ofNat_of_lt (by omega), if_neg (by omega),
          if_pos (by omega), if_neg (by omega), if_neg (by omega),
          if_pos (by omega)]
        rfl
      next =>
        obtain ⟨rfl, -⟩ := List.cons.inj h
        rw [Utf8.toNat_ofNat_of_lt (by omega), if_neg (by omega),
          if_neg (by omega), if_pos (by omega), if_neg (by omega),
          if_neg (by omega), if_neg (by omega)]
        rfl

/-- The bytes of a character are its text. -/
theorem text?_encode (c : Char) :
    text? (String.utf8EncodeChar c) = some [c] := by
  have read := ofBytes_encode_append c []
  rw [List.append_nil, ofBytes] at read
  unfold text?
  rw [read]
  rfl

/-- A text begins with the bytes of its first character. -/
theorem prefix_of_text? {bytes : List UInt8} {c : Char}
    (h : (text? bytes).bind List.head? = some c) :
    String.utf8EncodeChar c <+: bytes := by
  obtain ⟨cs, text, first⟩ := Option.bind_eq_some_iff.1 h
  unfold text? at text
  have whole := allBytes_ofBytes bytes
  cases hg : ofBytes bytes with
  | nil =>
      rw [hg] at text
      cases text
      cases first
  | cons g rest =>
      rw [hg, List.mapM_cons, Option.bind_eq_bind,
        Option.bind_eq_some_iff] at text
      obtain ⟨d, hd, text⟩ := text
      obtain ⟨ds, -, all⟩ := Option.bind_eq_some_iff.1 text
      obtain rfl := Option.some.inj all
      rw [List.head?_cons, Option.some.injEq] at first
      subst first
      cases g with
      | broken b => cases hd
      | scalar c =>
          cases hd
          rw [hg] at whole
          exact ⟨allBytes rest, whole⟩

-- =============================================================== moving

/-- The window on a character that is at an offset is that character. -/
theorem window_of_decode {source rest : List UInt8} {offset : Nat}
    {b : UInt8} {c : Char} (hd : source.drop offset = b :: rest)
    (high : ¬ b.toNat < 0x80) (hc : Utf8.decode? (b :: rest) = some c) :
    min (offset + announced b) source.length = offset + c.utf8Size
      ∧ Checked.slice? source offset (offset + c.utf8Size)
        = some (String.utf8EncodeChar c) := by
  have size := String.length_utf8EncodeChar c
  obtain ⟨behind, written⟩ := Utf8.decode?_eq_some_iff.1 hc
  have piece : source.drop offset = String.utf8EncodeChar c ++ behind :=
    hd.trans written.symm
  have length := congrArg List.length piece
  rw [List.length_drop, List.length_append, size] at length
  have inside : offset ≤ source.length := by
    refine Nat.le_of_not_lt fun past => ?_
    rw [List.drop_eq_nil_of_le (Nat.le_of_lt past)] at hd
    cases hd
  have announces : announced b = c.utf8Size := by
    cases hw : String.utf8EncodeChar c with
    | nil =>
        rw [hw] at size
        exact absurd size.symm (Nat.ne_of_gt c.utf8Size_pos)
    | cons first more =>
        rw [hw] at written
        obtain ⟨rfl, -⟩ := List.cons.inj written
        exact announced_of_encode hw high
  refine ⟨by omega, ?_⟩
  rw [← size]
  exact Checked.slice?_of_drop piece inside

/-- A cursor moves to what is at its end, and takes no slice out of
range. -/
theorem advance?_eq {c : Cursor} (inside : c.readOffset ≤ c.source.length) :
    c.advance? = some (standing c.source c.readOffset) := by
  obtain ⟨source, char, offset, readOffset⟩ := c
  dsimp only at inside
  unfold advance? standing
  dsimp only
  cases hd : source.drop readOffset with
  | nil =>
      have ended : source.length = readOffset :=
        Nat.le_antisymm (List.drop_eq_nil_iff.1 hd) inside
      rw [List.getElem?_eq_none (Nat.le_of_eq ended), ofBytes, ended]
      rfl
  | cons b rest =>
      have first := (Checked.at_of_drop hd).1
      have within : readOffset < source.length :=
        (List.getElem?_eq_some_iff.1 first).1
      rw [first]
      dsimp only
      split
      next ascii =>
        have width : (scalar (Char.ofNat b.toNat)).width = 1 :=
          utf8Size_of_ascii ascii
        rw [ofBytes_ascii rest ascii, List.take_succ_cons, List.take_zero,
          totalWidth, totalWidth, width]
        rfl
      next high =>
        rw [ofBytes]
        cases hc : Utf8.decode? (b :: rest) with
        | some d =>
            obtain ⟨stop, window⟩ := window_of_decode hd high hc
            rw [stop, window]
            dsimp only [Option.bind_eq_bind, Option.bind_some]
            rw [text?_encode]
            rfl
        | none =>
            rw [Checked.slice?_of_le (by unfold announced; omega)
              (Nat.min_le_right _ _), hd]
            dsimp only [Option.bind_eq_bind, Option.bind_some]
            split
            next d hd' =>
              have front := (prefix_of_text? hd').trans
                (List.take_prefix _ _)
              rw [Utf8.decode?_eq_some_iff.2 front] at hc
              cases hc
            next => rfl

/-- A cursor passes to the newline that is next, or to the end. -/
theorem skipToNewline?_eq {source : List UInt8} {offset : Nat}
    (inside : offset ≤ source.length) :
    (standing source offset).skipToNewline?
      = some (standing source (offset
        + ((source.drop offset).takeWhile (· != 10)).length)) := by
  unfold skipToNewline?
  by_cases ended : (standing source offset).char = none
      ∨ (standing source offset).char = some '\n'
  · have still : (ofBytes (source.drop offset)).takeWhile (· != newline)
        = [] := by
      unfold standing at ended
      cases hg : ofBytes (source.drop offset) with
      | nil => rfl
      | cons g rest =>
          rw [hg] at ended
          have line : g.char = '\n' :=
            Option.some.inj (ended.resolve_left nofun)
          rw [eq_scalar_of_char line (by decide)]
          rfl
    rw [takeWhile_ofBytes] at still
    have still := congrArg totalWidth still
    rw [totalWidth_ofBytes, totalWidth_nil] at still
    rw [if_pos ended, still]
    rfl
  · have found : (source.drop offset).findIdx (· == 10)
        = ((source.drop offset).takeWhile (· != 10)).length := by
      rw [List.takeWhile_eq_take_findIdx_not, List.length_take]
      have bound : (source.drop offset).findIdx (fun b => !(b != 10))
          ≤ (source.drop offset).length := List.findIdx_le_length
      rw [Nat.min_eq_left bound]
      simp only [bne, Bool.not_not]
    have stop : offset + ((source.drop offset).takeWhile (· != 10)).length
        ≤ source.length := by
      have := (List.takeWhile_sublist (· != 10)
        (l := source.drop offset)).length_le
      rw [List.length_drop] at this
      omega
    rw [if_neg ended]
    show ((Checked.slice? source offset source.length).bind fun rest =>
      advance? { source, char := none, offset := offset,
                 readOffset := offset + rest.findIdx (· == 10) }) = _
    rw [Checked.slice?_rest inside, Option.bind_some, found]
    exact advance?_eq stop

end Cursor

-- =========================================================== the scanner

namespace Scanner

/-- The character a scanner is at, none at the end. -/
def char (s : Scanner) : Option Char := s.rest.head?.map Glyph.char

/-- Where that character ends. -/
def readOffset (s : Scanner) : Nat := s.offset + totalWidth (s.rest.take 1)

theorem readOffset_eq (s : Scanner) : s.readOffset = s.advance.offset :=
  s.moved_advance.offset.symm

/-- There is no character but with nothing ahead. -/
theorem char_eq_none_iff {s : Scanner} : s.char = none ↔ s.rest = [] := by
  unfold char
  rw [Option.map_eq_none_iff, List.head?_eq_none_iff]

/-- A character that is not the replacement for a broken byte is ahead
as itself. -/
theorem char_eq_iff {s : Scanner} {c : Char} (plain : c ≠ '\uFFFD') :
    s.char = some c ↔ s.rest.head? = some (.scalar c) := by
  unfold char
  constructor
  · intro h
    obtain ⟨g, hg, hc⟩ := Option.map_eq_some_iff.1 h
    rw [hg, eq_scalar_of_char hc plain]
  · intro h
    rw [h]
    rfl

/-- Moving on from a newline, and only from there, a line starts. -/
theorem file_advance (s : Scanner) :
    s.advance.file
      = if s.char = some '\n' then s.file.addLine s.readOffset
        else s.file := by
  have newlineAhead := char_eq_iff (s := s) (c := '\n') (by decide)
  unfold advance
  split
  next done =>
    rw [done] at newlineAhead
    exact (if_neg fun line => nomatch newlineAhead.1 line).symm
  next g rest ahead =>
    rw [ahead, List.head?_cons, Option.some.injEq] at newlineAhead
    have width : s.readOffset = s.offset + g.width := by
      unfold readOffset
      rw [ahead]
      rfl
    obtain ⟨log, same⟩ := look_eq
      { s with
        rest, offset := s.offset + g.width
        file := if g = newline then s.file.addLine (s.offset + g.width)
          else s.file }
    dsimp only
    rw [same, width]
    exact if_congr newlineAhead.symm rfl rfl

/-- The cursor of a scanner in a source. -/
def cursor (s : Scanner) (source : List UInt8) : Cursor where
  source := source
  char := s.char
  offset := s.offset
  readOffset := s.readOffset

/-- A scanner inside a source. -/
structure Seated (source : List UInt8) (s : Scanner) : Prop where
  stands : s.StandsIn source
  inside : s.offset ≤ source.length

namespace Seated

variable {source : List UInt8} {s : Scanner}

theorem cursor_eq (h : s.Seated source) :
    s.cursor source = .standing source s.offset := by
  have ahead : s.rest = ofBytes (source.drop s.offset) := h.stands
  unfold cursor Cursor.standing char readOffset
  rw [ahead]

/-- What is ahead takes all bytes that are left. -/
theorem width (h : s.Seated source) :
    s.offset + totalWidth s.rest = source.length := by
  have ahead : s.rest = ofBytes (source.drop s.offset) := h.stands
  have inside := h.inside
  rw [ahead, totalWidth_ofBytes, List.length_drop]
  omega

/-- A scanner that has moved over some of what was ahead. -/
theorem moved {t : Scanner} {read rest : List Glyph} (h : s.Seated source)
    (moved : Moved s t read rest) (split : read ++ rest = s.rest) :
    t.Seated source := by
  have ahead : s.rest = ofBytes (source.drop s.offset) := h.stands
  refine ⟨?_, ?_⟩
  · show t.rest = ofBytes (source.drop t.offset)
    rw [moved.rest, moved.offset, ← List.drop_drop,
      ofBytes_drop (ahead.symm.trans split.symm)]
  · have width := h.width
    rw [← split, totalWidth_append] at width
    rw [moved.offset]
    omega

theorem advance (h : s.Seated source) : s.advance.Seated source :=
  h.moved s.moved_advance (List.take_append_drop 1 s.rest)

theorem skipLine (h : s.Seated source) : s.skipLine.Seated source :=
  h.moved s.moved_skipLine List.takeWhile_append_dropWhile

/-- The cursor follows a scanner that moves over a glyph. -/
theorem advance?_cursor (h : s.Seated source) :
    (s.cursor source).advance? = some (s.advance.cursor source) := by
  have inside : s.readOffset ≤ source.length := by
    rw [readOffset_eq]
    exact h.advance.inside
  rw [Cursor.advance?_eq inside, h.advance.cursor_eq, ← readOffset_eq]
  rfl

/-- It follows one that passes to the end of the line. -/
theorem skipToNewline?_cursor (h : s.Seated source) :
    (s.cursor source).skipToNewline?
      = some (s.skipLine.cursor source) := by
  have ahead : s.rest = ofBytes (source.drop s.offset) := h.stands
  have offset : s.skipLine.offset = s.offset
      + ((source.drop s.offset).takeWhile (· != 10)).length := by
    rw [← totalWidth_ofBytes, ← takeWhile_ofBytes, ← ahead]
    rfl
  rw [h.skipLine.cursor_eq, h.cursor_eq, Cursor.skipToNewline?_eq h.inside,
    offset]

end Seated

end Scanner

end BuildLexer
