/-
Dates, times, and both together.

A time is `HH:MM:SS` with an optional fraction, a date `YYYY-MM-DD`,
and a date-time is a date, a `T` and a time, with an optional zone: `Z`
or a signed `HH:MM`. Each is one only when a blank, a line end, a
parenthesis, a brace, `$`, `#`, a backslash or the end follows; digits
in any other shape are left to be read as numbers. The shape decides
alone. A field out of its range is noted as a fault of the literal, and
of the day only the tens are looked at.
-/
import BuildLexer.Fault
import BuildLexer.Text.Letter

namespace BuildLexer

/-- A date or time at the front of some glyphs. -/
structure Temporal where
  kind : Literal
  length : Nat
  faults : List Finding
  deriving DecidableEq

namespace Temporal

-- ============================================================= pieces

/-- A piece of a literal that was read: what is wrong with its fields,
and what follows it. -/
structure Piece where
  length : Nat
  faults : List Finding
  rest : List Glyph

/-- A number of two digits at the front, and what follows. -/
def pair? : List Glyph → Option (Nat × List Glyph)
  | a :: b :: rest => do
    let tens ← a.digitValue? 10
    let ones ← b.digitValue? 10
    some (tens * 10 + ones, rest)
  | _ => none

/-- What follows a character that must be at the front. -/
def after? (c : Char) : List Glyph → Option (List Glyph)
  | g :: rest => if g = .scalar c then some rest else none
  | [] => none

/-- The finding that a field is out of its range, if it is. -/
def check (inRange : Bool) (offset : Nat) (fault : Fault) :
    List Finding :=
  if inRange then [] else [⟨offset, fault⟩]

/-- How many glyphs a fraction of a second takes: a point and digits,
or nothing. -/
def fractionLength : List Glyph → Nat
  | .scalar '.' :: rest =>
    match (rest.takeWhile Glyph.isDigit).length with
    | 0 => 0
    | digits => digits + 1
  | _ => 0

/-- A time of day at an offset. -/
def time? (start : Nat) (src : List Glyph) : Option Piece := do
  let (hour, src) ← pair? src
  let (minute, src) ← pair? (← after? ':' src)
  let (second, src) ← pair? (← after? ':' src)
  let fraction := fractionLength src
  some {
    length := 8 + fraction
    faults := check (hour ≤ 23) start .invalidHour
      ++ check (minute ≤ 59) (start + 3) .invalidMinute
      ++ check (second ≤ 59) (start + 6) .invalidSecond
    rest := src.drop fraction }

/-- A date, at the front of the literal. -/
def date? (src : List Glyph) : Option Piece := do
  let (_, src) ← pair? src
  let (_, src) ← pair? src
  let (month, src) ← pair? (← after? '-' src)
  let (day, src) ← pair? (← after? '-' src)
  some {
    length := 10
    faults := check (1 ≤ month && month ≤ 12) 5 .invalidMonth
      ++ check (day ≤ 39) 8 .invalidDay
    rest := src }

/-- An offset from universal time, in hours and minutes, whose sign
stands at an offset. -/
def shift? (start : Nat) : List Glyph → Option Piece
  | g :: src => do
    guard (g = .scalar '+' ∨ g = .scalar '-')
    let (hour, src) ← pair? src
    let (minute, src) ← pair? (← after? ':' src)
    some {
      length := 6
      faults := check (hour ≤ 23) (start + 1) .invalidZoneHour
        ++ check (minute ≤ 59) (start + 4) .invalidZoneMinute
      rest := src }
  | [] => none

/-- A time zone at an offset; one that is missing is empty. -/
def zone (start : Nat) (src : List Glyph) : Piece :=
  match src with
  | .scalar 'Z' :: rest | .scalar 'z' :: rest => ⟨1, [], rest⟩
  | _ => (shift? start src).getD ⟨0, [], src⟩

-- =========================================================== literals

/-- Whether a date or time may end before what follows. -/
def endsBefore : List Glyph → Bool
  | [] => true
  | g :: _ => " \t\n\r()\x7b\x7d$#\\".toList.any (g == .scalar ·)

/-- A literal of one piece. -/
def ofPiece (kind : Literal) (p : Piece) : Temporal × List Glyph :=
  (⟨kind, p.length, p.faults⟩, p.rest)

/-- What a date becomes with what follows it: a date-time behind a `T`,
where a time must follow. -/
def afterDate? (date : Piece) : Option (Temporal × List Glyph) :=
  match date.rest with
  | .scalar 'T' :: src | .scalar 't' :: src => do
    let time ← time? 11 src
    let zone := zone (11 + time.length) time.rest
    some (⟨.dateTime, 11 + time.length + zone.length,
      date.faults ++ time.faults ++ zone.faults⟩, zone.rest)
  | _ => some (ofPiece .date date)

/-- The shape at the front, whatever follows it. -/
def shape? (src : List Glyph) : Option (Temporal × List Glyph) :=
  ((time? 0 src).map (ofPiece .time)) <|> ((date? src).bind afterDate?)

/-- The date or time at the front, if there is one. -/
def read? (src : List Glyph) : Option Temporal := do
  let (temporal, rest) ← shape? src
  guard (endsBefore rest)
  some temporal

-- ===================================================== what is missing

/-- A zone that is no letter is a shift or missing. -/
theorem zone_of_ne {src : List Glyph}
    (capital : src.head? ≠ some (.scalar 'Z'))
    (small : src.head? ≠ some (.scalar 'z')) (start : Nat) :
    zone start src = (shift? start src).getD ⟨0, [], src⟩ := by
  unfold zone
  split
  · exact absurd rfl capital
  · exact absurd rfl small
  · rfl

/-- A date that no time follows is one. -/
theorem afterDate?_of_ne {p : Piece}
    (capital : p.rest.head? ≠ some (.scalar 'T'))
    (small : p.rest.head? ≠ some (.scalar 't')) :
    afterDate? p = some (ofPiece .date p) := by
  unfold afterDate?
  split
  next h => exact absurd (congrArg List.head? h) capital
  next h => exact absurd (congrArg List.head? h) small
  next => rfl

end Temporal

end BuildLexer
