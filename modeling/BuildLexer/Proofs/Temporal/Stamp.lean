/-
The grammar of dates and times.

A stamp is a date, a time of day, or both with a zone, given as a tree
of its parts (`Stamp`). There is one way to write it (`Stamp.text`), and
its fields are numbers with ranges, at places in that text
(`Stamp.fields`).

Readers and parts go together: what a part is written as is read as that
part (`time?_written`, `date?_written`, `zone_written`), if what follows
does not go on with it, and nothing else is read at all
(`exists_of_time?`, `exists_of_date?`, `exists_of_zone`). A stamp holds
no character that may follow one, so there is no longer stamp at a place
than the one that is read there.
-/
import BuildLexer.Proofs.Bounds.Temporal
import BuildLexer.Proofs.Literal.Digits

namespace BuildLexer

open Glyph

-- ============================================================== stamps

/-- A number of two digits. -/
structure TwoDigits where
  tens : Digit
  ones : Digit
  deriving DecidableEq

def TwoDigits.value (n : TwoDigits) : Nat := n.tens * 10 + n.ones

def TwoDigits.text (n : TwoDigits) : List Char := [n.tens.char, n.ones.char]

/-- A time of day. -/
structure Clock where
  hour : TwoDigits
  minute : TwoDigits
  second : TwoDigits
  /-- The digits behind a point, which is not there without them. -/
  fraction : List Digit
  deriving DecidableEq

/-- A day of a year, which has four digits. -/
structure Day where
  century : TwoDigits
  year : TwoDigits
  month : TwoDigits
  day : TwoDigits
  deriving DecidableEq

/-- What tells the offset from universal time. -/
inductive Zone where
  | missing
  /-- The letter for universal time. -/
  | universal (capital : Bool)
  | shifted (east : Bool) (hour minute : TwoDigits)
  deriving DecidableEq

/-- A date, a time, or both. -/
inductive Stamp where
  | time (clock : Clock)
  | date (day : Day)
  | dateTime (day : Day) (capital : Bool) (clock : Clock) (zone : Zone)
  deriving DecidableEq

-- =============================================================== texts

def Clock.fractionText : List Digit → List Char
  | [] => []
  | digits => '.' :: digits.map Digit.char

/-- `HH:MM:SS` and a fraction. -/
def Clock.text (c : Clock) : List Char :=
  c.hour.text ++ ':' :: (c.minute.text ++ ':' :: (c.second.text
    ++ fractionText c.fraction))

/-- `YYYY-MM-DD`. -/
def Day.text (d : Day) : List Char :=
  d.century.text ++ (d.year.text ++ '-' :: (d.month.text ++ '-' :: d.day.text))

/-- A day is written in ten characters. -/
theorem Day.length_text (d : Day) : d.text.length = 10 := rfl

def Zone.text : Zone → List Char
  | missing => []
  | universal capital => [if capital then 'Z' else 'z']
  | shifted east hour minute =>
    (if east then '+' else '-') :: (hour.text ++ ':' :: minute.text)

def Stamp.text : Stamp → List Char
  | time clock => clock.text
  | date day => day.text
  | dateTime day capital clock zone =>
    day.text ++ (if capital then 'T' else 't') :: (clock.text ++ zone.text)

-- ============================================================== fields

/-- A number in a literal, which has to be in a range. -/
structure Field where
  offset : Nat
  least : Nat := 0
  greatest : Nat
  value : Nat
  fault : Fault
  deriving DecidableEq

/-- What is wrong with a field. -/
def Field.finding? (f : Field) : Option Finding :=
  if f.least ≤ f.value ∧ f.value ≤ f.greatest then none
  else some ⟨f.offset, f.fault⟩

/-- What is wrong with some fields. -/
def Field.findings (fields : List Field) : List Finding :=
  fields.filterMap finding?

theorem Field.findings_nil : findings [] = [] := rfl

theorem Field.findings_cons (f : Field) (fields : List Field) :
    findings (f :: fields) = f.finding?.toList ++ findings fields := by
  unfold findings
  rw [List.filterMap_cons]
  cases f.finding? <;> rfl

/-- Fields behind others are found wrong behind them. -/
theorem Field.findings_append (fields more : List Field) :
    findings (fields ++ more) = findings fields ++ findings more :=
  List.filterMap_append

def Clock.fields (start : Nat) (c : Clock) : List Field := [
  { offset := start, greatest := 23, value := c.hour.value
    fault := .invalidHour },
  { offset := start + 3, greatest := 59, value := c.minute.value
    fault := .invalidMinute },
  { offset := start + 6, greatest := 59, value := c.second.value
    fault := .invalidSecond }]

/-- Of the number of the day only the tens have a range. -/
def Day.fields (d : Day) : List Field := [
  { offset := 5, least := 1, greatest := 12, value := d.month.value
    fault := .invalidMonth },
  { offset := 8, greatest := 3, value := d.day.tens, fault := .invalidDay }]

def Zone.fields (start : Nat) : Zone → List Field
  | missing | universal _ => []
  | shifted _ hour minute => [
    { offset := start + 1, greatest := 23, value := hour.value
      fault := .invalidZoneHour },
    { offset := start + 4, greatest := 59, value := minute.value
      fault := .invalidZoneMinute }]

namespace Stamp

def kind : Stamp → Literal
  | time _ => .time
  | date _ => .date
  | dateTime .. => .dateTime

def fields : Stamp → List Field
  | time clock => clock.fields 0
  | date day => day.fields
  | dateTime day _ clock zone =>
    day.fields ++ clock.fields 11 ++ zone.fields (11 + clock.text.length)

/-- What is wrong with a stamp: its fields that are out of range. -/
def faults (s : Stamp) : List Finding := Field.findings s.fields

/-- What is read of a stamp. -/
def temporal (s : Stamp) : Temporal := ⟨s.kind, s.text.length, s.faults⟩

/-- Fields come in the order of their places. -/
theorem fields_ascend (s : Stamp) :
    s.fields.Pairwise fun f g => f.offset < g.offset := by
  have long (c : Clock) : 8 ≤ c.text.length := by
    simp [Clock.text, TwoDigits.text]
  cases s with
  | time clock => simp [fields, Clock.fields]
  | date day => simp [fields, Day.fields]
  | dateTime day capital clock zone =>
      have := long clock
      cases zone <;> simp [fields, Day.fields, Clock.fields, Zone.fields]
      omega

/-- So do the faults. -/
theorem faults_ascend (s : Stamp) :
    s.faults.Pairwise fun f g => f.offset < g.offset := by
  refine s.fields_ascend.filterMap _ ?_
  intro f g less a ha b hb
  unfold Field.finding? at ha hb
  split at ha
  next => cases ha
  split at hb
  next => cases hb
  next =>
    cases ha
    cases hb
    exact less

end Stamp

namespace Temporal

/-- A check is that of a field that begins at its least value. -/
theorem check_eq (least greatest value offset : Nat) (fault : Fault) :
    check (decide (least ≤ value) && decide (value ≤ greatest)) offset fault
      = (Field.finding? ⟨offset, least, greatest, value, fault⟩).toList := by
  unfold check Field.finding?
  simp only [Bool.and_eq_true, decide_eq_true_eq]
  split <;> rfl

/-- A check without a least value is that of a field from 0 on. -/
theorem check_le (greatest value offset : Nat) (fault : Fault) :
    check (decide (value ≤ greatest)) offset fault
      = (Field.finding? ⟨offset, 0, greatest, value, fault⟩).toList := by
  rw [← check_eq]
  simp

-- ======================================================= reading pieces

variable {src rest : List Glyph} {n start : Nat}

/-- Two digits are read as they are written. -/
theorem pair?_written (n : TwoDigits) (rest : List Glyph) :
    pair? (written n.text ++ rest) = some (n.value, rest) := by
  show ((scalar n.tens.char).digitValue? 10).bind _ = _
  rw [Digit.digitValue?_char, Option.bind_some]
  show ((scalar n.ones.char).digitValue? 10).bind _ = _
  rw [Digit.digitValue?_char, Option.bind_some]
  rfl

/-- What is read as two digits was written by two. -/
theorem exists_of_pair? (h : pair? src = some (n, rest)) :
    ∃ m : TwoDigits, src = written m.text ++ rest := by
  unfold pair? at h
  split at h
  next a b behind =>
    obtain ⟨tens, ht, h⟩ := Option.bind_eq_some_iff.1 h
    obtain ⟨ones, ho, h⟩ := Option.bind_eq_some_iff.1 h
    cases h
    obtain ⟨d, rfl, -⟩ := exists_of_digitValue? ht
    obtain ⟨e, rfl, -⟩ := exists_of_digitValue? ho
    exact ⟨⟨d, e⟩, rfl⟩
  next => cases h

theorem after?_scalar (c : Char) (rest : List Glyph) :
    after? c (scalar c :: rest) = some rest := if_pos rfl

theorem after?_of_ne {g : Glyph} {c : Char} (h : g ≠ scalar c)
    (rest : List Glyph) : after? c (g :: rest) = none := if_neg h

/-- What is read behind a mark was written behind it. -/
theorem eq_of_after? {c : Char} (h : after? c src = some rest) :
    src = scalar c :: rest := by
  unfold after? at h
  split at h
  next =>
    split at h
    next same =>
      cases h
      rw [same]
    next => cases h
  next => cases h

-- ============================================================ fractions

/-- What follows a fraction, or a second without one: neither a digit nor
a fraction. -/
structure EndsFraction (rest : List Glyph) : Prop where
  none : fractionLength rest = 0
  digits : rest.head?.any isDigit = false

/-- A fraction is as long as it is written. -/
theorem fractionLength_written (digits : List Digit)
    (ends : EndsFraction rest) :
    fractionLength (written (Clock.fractionText digits) ++ rest)
      = (Clock.fractionText digits).length := by
  cases digits with
  | nil => exact ends.none
  | cons d digits =>
      have stop : ∀ g, rest.head? = some g → isDigit g = false := by
        intro g first
        have := ends.digits
        rwa [first] at this
      show fractionLength (scalar '.' ::
        (written ((d :: digits).map Digit.char) ++ rest)) = _
      rw [fractionLength_point,
        takeWhile_append_of_stop Digit.isDigit_written stop]
      simp [Clock.fractionText]

/-- Whatever is ahead begins with a fraction, if only an empty one. -/
theorem exists_fraction (src : List Glyph) :
    ∃ digits : List Digit,
      src = written (Clock.fractionText digits)
        ++ src.drop (fractionLength src) := by
  by_cases point : src.head? = some (scalar '.')
  · obtain ⟨rest, rfl⟩ := List.head?_eq_some_iff.1 point
    rw [fractionLength_point]
    have all : ∀ g ∈ rest.takeWhile isDigit, g.isDigit = true :=
      fun g hg => List.mem_takeWhile_imp hg
    obtain ⟨digits, run⟩ := exists_of_all_isDigit all
    have split : rest = rest.takeWhile isDigit
        ++ rest.drop (rest.takeWhile isDigit).length := by
      have front := List.prefix_iff_eq_take.1 (rest.takeWhile_prefix isDigit)
      rw [front, List.length_take_of_le, List.take_append_drop]
      exact (rest.takeWhile_prefix isDigit).length_le
    split
    next => exact ⟨[], rfl⟩
    next some =>
      cases digits with
      | nil =>
          rw [run] at some
          exact absurd rfl some
      | cons d digits =>
          refine ⟨d :: digits, ?_⟩
          rw [List.drop_succ_cons]
          rw [run] at split ⊢
          exact congrArg (scalar '.' :: ·) split
  · rw [fractionLength_of_ne point]
    exact ⟨[], rfl⟩

-- ================================================================ times

/-- A time of day is read as it is written. -/
theorem time?_written (start : Nat) (c : Clock)
    (ends : EndsFraction rest) :
    time? start (written c.text ++ rest)
      = some ⟨c.text.length, Field.findings (c.fields start), rest⟩ := by
  have fraction := fractionLength_written c.fraction ends
  have behind : (written (Clock.fractionText c.fraction) ++ rest).drop
      (Clock.fractionText c.fraction).length = rest := by
    rw [← length_written]
    exact List.drop_left
  unfold Clock.text time?
  simp only [written_append, written_cons, List.append_assoc,
    List.cons_append, pair?_written, after?_scalar, Option.bind_eq_bind,
    Option.bind_some, fraction, behind]
  congr 2
  · simp [TwoDigits.text]
    omega
  · rw [check_le, check_le, check_le]
    simp [Clock.fields, Field.findings_cons, Field.findings_nil]

/-- Nothing else is read as one. -/
theorem exists_of_time? {p : Piece} (h : time? start src = some p) :
    ∃ c : Clock, src = written c.text ++ p.rest := by
  obtain ⟨⟨_, src₁⟩, hour, h⟩ := Option.bind_eq_some_iff.1 h
  obtain ⟨src₂, colon₁, h⟩ := Option.bind_eq_some_iff.1 h
  obtain ⟨⟨_, src₃⟩, minute, h⟩ := Option.bind_eq_some_iff.1 h
  obtain ⟨src₄, colon₂, h⟩ := Option.bind_eq_some_iff.1 h
  obtain ⟨⟨_, src₅⟩, second, h⟩ := Option.bind_eq_some_iff.1 h
  cases h
  obtain ⟨hh, hour⟩ := exists_of_pair? hour
  obtain ⟨mm, minute⟩ := exists_of_pair? minute
  obtain ⟨ss, second⟩ := exists_of_pair? second
  obtain ⟨digits, fraction⟩ := exists_fraction src₅
  refine ⟨⟨hh, mm, ss, digits⟩, ?_⟩
  dsimp only
  generalize src₅.drop (fractionLength src₅) = rest at fraction ⊢
  rw [hour, eq_of_after? colon₁, minute, eq_of_after? colon₂, second,
    fraction]
  simp [Clock.text]

-- ================================================================ dates

/-- A date is read as it is written, whatever follows. -/
theorem date?_written (d : Day) (rest : List Glyph) :
    date? (written d.text ++ rest)
      = some ⟨d.text.length, Field.findings d.fields, rest⟩ := by
  have tens : check (decide (d.day.value ≤ 39)) 8 .invalidDay
      = (Field.finding? ⟨8, 0, 3, d.day.tens, .invalidDay⟩).toList := by
    have same : d.day.value ≤ 39 ↔ d.day.tens.val ≤ 3 := by
      unfold TwoDigits.value
      have := d.day.ones.isLt
      omega
    rw [← check_le, decide_eq_decide.2 same]
  unfold Day.text date?
  simp only [written_append, written_cons, List.append_assoc,
    List.cons_append, pair?_written, after?_scalar, Option.bind_eq_bind,
    Option.bind_some]
  rw [check_eq, tens]
  simp [Day.fields, TwoDigits.text, Field.findings_cons,
    Field.findings_nil]

/-- Nothing else is read as one. -/
theorem exists_of_date? {p : Piece} (h : date? src = some p) :
    ∃ d : Day, src = written d.text ++ p.rest := by
  obtain ⟨⟨_, src₁⟩, century, h⟩ := Option.bind_eq_some_iff.1 h
  obtain ⟨⟨_, src₂⟩, year, h⟩ := Option.bind_eq_some_iff.1 h
  obtain ⟨src₃, dash₁, h⟩ := Option.bind_eq_some_iff.1 h
  obtain ⟨⟨_, src₄⟩, month, h⟩ := Option.bind_eq_some_iff.1 h
  obtain ⟨src₅, dash₂, h⟩ := Option.bind_eq_some_iff.1 h
  obtain ⟨⟨_, src₆⟩, day, h⟩ := Option.bind_eq_some_iff.1 h
  cases h
  obtain ⟨cc, century⟩ := exists_of_pair? century
  obtain ⟨yy, year⟩ := exists_of_pair? year
  obtain ⟨mm, month⟩ := exists_of_pair? month
  obtain ⟨dd, day⟩ := exists_of_pair? day
  refine ⟨⟨cc, yy, mm, dd⟩, ?_⟩
  rw [century, year, eq_of_after? dash₁, month, eq_of_after? dash₂, day]
  simp [Day.text]

/-- What is written as a date is no time of day. -/
theorem time?_written_day (start : Nat) (d : Day) (rest : List Glyph) :
    time? start (written d.text ++ rest) = none := by
  have digit : Glyph.scalar d.year.tens.char ≠ scalar ':' := by
    intro same
    have colon := d.year.tens.isDigit_char
    rw [same] at colon
    cases colon
  have other : after? ':' (written d.year.text ++ (scalar '-' ::
      (written d.month.text ++ (scalar '-' :: (written d.day.text ++ rest)))))
      = none := after?_of_ne digit _
  unfold Day.text time?
  simp only [written_append, written_cons, List.append_assoc,
    List.cons_append, pair?_written, Option.bind_eq_bind, Option.bind_some,
    other, Option.bind_none]

-- ================================================================ zones

/-- The sign of a zone is one of the two. -/
theorem guard_sign {g : Glyph} (east : Bool)
    (h : g = scalar (if east then '+' else '-')) :
    (guard (g = scalar '+' ∨ g = scalar '-') : Option Unit) = some () := by
  subst h
  cases east <;> rfl

/-- A zone is read as it is written, if what follows a time without one
does not begin as one. -/
theorem zone_written (start : Nat) (z : Zone)
    (ends : ∀ c ∈ ['Z', 'z', '+', '-'], rest.head? ≠ some (scalar c)) :
    zone start (written z.text ++ rest)
      = ⟨z.text.length, Field.findings (z.fields start), rest⟩ := by
  cases z with
  | missing =>
      show zone start rest = _
      rw [zone_of_ne (ends 'Z' (by decide)) (ends 'z' (by decide)),
        shift?_of_ne (ends '+' (by decide)) (ends '-' (by decide))]
      rfl
  | universal capital => cases capital <;> rfl
  | shifted east hour minute =>
      have front (c : Char) (hc : c ≠ if east then '+' else '-') :
          (written (Zone.shifted east hour minute).text ++ rest).head?
            ≠ some (scalar c) := by
        intro same
        exact hc (scalar.inj (Option.some.inj same)).symm
      have read : shift? start
          (written (Zone.shifted east hour minute).text ++ rest)
            = some ⟨6, Field.findings
              ((Zone.shifted east hour minute).fields start), rest⟩ := by
        have ahead : written (Zone.shifted east hour minute).text ++ rest
            = scalar (if east then '+' else '-')
              :: (written hour.text
                ++ scalar ':' :: (written minute.text ++ rest)) := by
          simp [Zone.text]
        rw [ahead, shift?, guard_sign east rfl]
        simp only [pair?_written, after?_scalar, Option.bind_eq_bind,
          Option.bind_some, check_le]
        simp [Zone.fields, Field.findings_cons, Field.findings_nil]
      rw [zone_of_ne, read]
      · rfl
      · exact front 'Z' (by cases east <;> decide)
      · exact front 'z' (by cases east <;> decide)

/-- What is read as a shift was written as a zone. -/
theorem exists_of_shift? {p : Piece} (h : shift? start src = some p) :
    ∃ z : Zone, src = written z.text ++ p.rest := by
  unfold shift? at h
  split at h
  next g src₁ =>
    obtain ⟨_, sign, h⟩ := Option.bind_eq_some_iff.1 h
    obtain ⟨⟨_, src₂⟩, hour, h⟩ := Option.bind_eq_some_iff.1 h
    obtain ⟨src₃, colon, h⟩ := Option.bind_eq_some_iff.1 h
    obtain ⟨⟨_, src₄⟩, minute, h⟩ := Option.bind_eq_some_iff.1 h
    cases h
    obtain ⟨hh, hour⟩ := exists_of_pair? hour
    obtain ⟨mm, minute⟩ := exists_of_pair? minute
    have first : ∃ east : Bool, g = scalar (if east then '+' else '-') := by
      unfold guard at sign
      split at sign
      next signed =>
        rcases signed with plus | minus
        · exact ⟨true, plus⟩
        · exact ⟨false, minus⟩
      next => cases sign
    obtain ⟨east, rfl⟩ := first
    refine ⟨.shifted east hh mm, ?_⟩
    rw [hour, eq_of_after? colon, minute]
    simp [Zone.text]
  next => cases h

/-- Whatever is there, a zone is read from it. -/
theorem exists_of_zone (start : Nat) (src : List Glyph) :
    ∃ z : Zone, src = written z.text ++ (zone start src).rest := by
  unfold zone
  split
  next => exact ⟨.universal true, rfl⟩
  next => exact ⟨.universal false, rfl⟩
  next =>
    cases hs : shift? start src with
    | none => exact ⟨.missing, rfl⟩
    | some p => exact exists_of_shift? hs

end Temporal

end BuildLexer
