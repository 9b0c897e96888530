/-
Dates and times by the places of their bytes, with every access checked.

A date or a time is read from glyphs, one after the other. Here it is
recognised from the bytes ahead, by looking at fixed places: a first
glance at the separators tells a time from a date, then the digits of
each field are looked for and the field is worked out. Each place that
is looked at has to be there (`Temporal.recognize?`).

This always succeeds, and finds what is read from the glyphs
(`Temporal.recognize?_eq`). What the first glance sees is what a time or
a date has in any case (`Temporal.glance_of_time?`,
`Temporal.glance_of_date?`), so neither is missed.
-/
import BuildLexer.Proofs.Bounds.Places

namespace BuildLexer.Temporal

open Glyph

variable {b : List UInt8} {i : Nat}

-- =========================================================== recognising

/-- Whether a date is at the front, by its shape. The marks are looked
at without asking whether there are so many bytes. -/
def isDateAt? (b : List UInt8) : Option Bool := do
  let left ← b[4]?
  let right ← b[7]?
  some (digitsAt b 0 4 && left == ascii '-' && digitsAt b 5 2
    && right == ascii '-' && digitsAt b 8 2)

/-- The date at the front: where it ends, and what is wrong with it. -/
def dateAt? (b : List UInt8) : Option (Option (Nat × List Finding)) := do
  if ← isDateAt? b then do
    let month ← twoDigits? b 5
    let tens ← b[8]?
    some (some (10,
      check (1 ≤ month && month ≤ 12) 5 .invalidMonth
        ++ check (decide (tens ≤ ascii '3')) 8 .invalidDay))
  else some none

/-- Where a fraction at a place ends, or the place if there is none. -/
def fractionEnd (b : List UInt8) (i : Nat) : Nat :=
  if b[i]? = some (ascii '.') ∧ b[i + 1]?.any isDigitByte then
    i + 1 + ((b.drop (i + 1)).takeWhile isDigitByte).length
  else i

/-- Whether a time of day is at a place, by its shape. -/
def isTimeAt (b : List UInt8) (i : Nat) : Bool :=
  digitsAt b i 2 && b[i + 2]? == some (ascii ':') && digitsAt b (i + 3) 2
    && b[i + 5]? == some (ascii ':') && digitsAt b (i + 6) 2

/-- The time of day at a place: where it ends, and what is wrong with
it. -/
def timeAt? (b : List UInt8) (i : Nat) :
    Option (Option (Nat × List Finding)) :=
  if isTimeAt b i then do
    let hour ← twoDigits? b i
    let minute ← twoDigits? b (i + 3)
    let second ← twoDigits? b (i + 6)
    some (some (fractionEnd b (i + 8),
      check (hour ≤ 23) i .invalidHour
        ++ check (minute ≤ 59) (i + 3) .invalidMinute
        ++ check (second ≤ 59) (i + 6) .invalidSecond))
  else some none

/-- Whether a sign and the digits of a zone are at a place. -/
def isShiftAt (b : List UInt8) (i : Nat) : Bool :=
  (b[i]? == some (ascii '+') || b[i]? == some (ascii '-'))
    && digitsAt b (i + 1) 2 && b[i + 3]? == some (ascii ':')
    && digitsAt b (i + 4) 2

/-- The zone at a place, if there is one: where it ends, and what is wrong
with it. -/
def zoneAt? (b : List UInt8) (i : Nat) : Option (Nat × List Finding) :=
  if b[i]? = some (ascii 'Z') ∨ b[i]? = some (ascii 'z') then
    some (i + 1, [])
  else if isShiftAt b i then do
    let hour ← twoDigits? b (i + 1)
    let minute ← twoDigits? b (i + 4)
    some (i + 6,
      check (hour ≤ 23) (i + 1) .invalidZoneHour
        ++ check (minute ≤ 59) (i + 4) .invalidZoneMinute)
  else some (i, [])

/-- Whether a date or time may end before a byte. -/
def isTerminator (x : Option UInt8) : Bool :=
  x.all fun x => " \t\n\r()\x7b\x7d$#\\".toList.any (x == ascii ·)

/-- A date or time that ends at a place, if it may end there. -/
def endingAt (b : List UInt8) (kind : Literal) (stop : Nat)
    (faults : List Finding) : Option Temporal :=
  if isTerminator b[stop]? then some ⟨kind, stop, faults⟩ else none

/-- A date with what is behind its end: a time of day and a zone, or what
ends it. -/
def recognizeBehind? (b : List UInt8) (stop : Nat)
    (faults : List Finding) : Option (Option Temporal) :=
  if b[stop]? = some (ascii 'T') ∨ b[stop]? = some (ascii 't') then do
    match ← timeAt? b (stop + 1) with
    | none => some none
    | some (stop, more) => do
      let (stop, last) ← zoneAt? b stop
      some (endingAt b .dateTime stop (faults ++ more ++ last))
  else some (endingAt b .date stop faults)

/-- The date or time at the front of some bytes. -/
def recognize? (b : List UInt8) : Option (Option Temporal) :=
  if b.length < 8 then some none
  else do
    let first ← b[0]?
    let second ← b[1]?
    if !(isDigitByte first && isDigitByte second) then some none
    else
      let b2 ← b[2]?
      let b5 ← b[5]?
      let b4 ← b[4]?
      let b7 ← b[7]?
      if b2 = ascii ':' ∨ b5 = ascii ':' then
        match ← timeAt? b 0 with
        | none => some none
        | some (stop, faults) => some (endingAt b .time stop faults)
      else if (b4 = ascii '-' ∨ b7 = ascii '-') ∧ 10 ≤ b.length then
        match ← dateAt? b with
        | none => some none
        | some (stop, faults) => recognizeBehind? b stop faults
      else some none

-- ============================================================ fractions

/-- How long a fraction is behind its point. -/
theorem fractionLength_point (src : List Glyph) :
    fractionLength (scalar '.' :: src)
      = if (src.takeWhile isDigit).length = 0 then 0
        else (src.takeWhile isDigit).length + 1 := by
  generalize front : scalar '.' :: src = whole
  fun_cases fractionLength whole with
  | case1 rest none =>
      obtain rfl := (List.cons.inj front).2
      rw [if_pos none]
  | case2 rest some =>
      obtain rfl := (List.cons.inj front).2
      rw [if_neg some]
  | case3 _ other => exact absurd front.symm (other src)

theorem fractionLength_of_ne {src : List Glyph}
    (other : src.head? ≠ some (scalar '.')) : fractionLength src = 0 := by
  fun_cases fractionLength src with
  | case1 rest none => exact absurd rfl other
  | case2 rest some => exact absurd rfl other
  | case3 => rfl

/-- A fraction is as long in glyphs as in bytes. -/
theorem fractionLength_ahead (b : List UInt8) (i : Nat) :
    i + fractionLength (ahead b i) = fractionEnd b i
      ∧ (ahead b i).drop (fractionLength (ahead b i))
        = ahead b (fractionEnd b i) := by
  have point := head?_ahead_iff (b := b) (i := i) (c := '.') (by decide)
  obtain ⟨length, behind⟩ := takeWhile_isDigit_ahead b (i + 1)
  have digits := isDigitByte_iff b (i + 1)
  unfold fractionEnd
  by_cases front : b[i]? = some (ascii '.')
  · have split : ahead b i = scalar '.' :: ahead b (i + 1) :=
      ahead_of_ascii (x := ascii '.') (by decide) front
    rw [split, fractionLength_point, length]
    by_cases some : b[i + 1]?.any isDigitByte = true
    · rw [if_neg (digits.1 some), if_pos ⟨front, some⟩,
        List.drop_succ_cons, behind]
      exact ⟨by omega, rfl⟩
    · rw [if_pos (not_ne_iff.1 (mt digits.2 some)), if_neg fun h => some h.2,
        ← split]
      exact ⟨rfl, rfl⟩
  · rw [fractionLength_of_ne (mt point.1 front), if_neg fun h => front h.1]
    exact ⟨rfl, rfl⟩

-- ================================================================ times

/-- A time of day ahead, by its places. -/
theorem time?_ahead (start : Nat) (b : List UInt8) (i : Nat) :
    time? start (ahead b i)
      = if isTimeAt b i then do
          let hour ← two? b i
          let minute ← two? b (i + 3)
          let second ← two? b (i + 6)
          some {
            length := 8 + fractionLength (ahead b (i + 8))
            faults := check (hour ≤ 23) start .invalidHour
              ++ check (minute ≤ 59) (start + 3) .invalidMinute
              ++ check (second ≤ 59) (start + 6) .invalidSecond
            rest := ahead b (fractionEnd b (i + 8)) }
        else none := by
  unfold isTimeAt time?
  simp only [digitsAt_two, Option.bind_eq_bind, bind_pair?_ahead]
  cases two? b i with
  | none => rfl
  | some hour =>
    rw [Option.bind_some, bind_after?_ahead (by decide)]
    by_cases first : b[i + 2]? = some (ascii ':')
    · rw [if_pos first, bind_pair?_ahead]
      cases two? b (i + 3) with
      | none => simp
      | some minute =>
        rw [Option.bind_some, bind_after?_ahead (by decide)]
        by_cases mark : b[i + 5]? = some (ascii ':')
        · rw [if_pos mark, bind_pair?_ahead]
          cases two? b (i + 6) with
          | none => simp
          | some second => simp [first, mark, fractionLength_ahead]
        · simp [mark]
    · simp [first]

/-- The numbers at a time of day are there. -/
theorem two?_of_isTimeAt (h : isTimeAt b i = true) :
    ∃ hour minute second, two? b i = some hour
      ∧ two? b (i + 3) = some minute ∧ two? b (i + 6) = some second := by
  simp only [isTimeAt, digitsAt_two, Bool.and_eq_true,
    Option.isSome_iff_exists] at h
  obtain ⟨⟨⟨⟨⟨hour, hh⟩, -⟩, ⟨minute, hm⟩⟩, -⟩, ⟨second, hs⟩⟩ := h
  exact ⟨hour, minute, second, hh, hm, hs⟩

/-- A time of day is found at a place where it is read. -/
theorem timeAt?_eq (b : List UInt8) (i : Nat) :
    timeAt? b i = some ((time? i (ahead b i)).map
      fun p => (i + p.length, p.faults)) := by
  rw [time?_ahead]
  unfold timeAt?
  split
  next shape =>
    obtain ⟨hour, minute, second, hh, hm, hs⟩ := two?_of_isTimeAt shape
    rw [twoDigits?_of_two? hh, twoDigits?_of_two? hm,
      twoDigits?_of_two? hs, hh, hm, hs, ← (fractionLength_ahead b _).1]
    dsimp only [Option.bind_eq_bind, Option.bind_some, Option.map_some]
    rw [Nat.add_assoc]
  next => rfl

/-- What is behind it is ahead of the place where it ends. -/
theorem rest_of_time? {start : Nat} {p : Piece}
    (h : time? start (ahead b i) = some p) :
    isTimeAt b i = true ∧ p.rest = ahead b (i + p.length) := by
  rw [time?_ahead] at h
  split at h
  next shape =>
    obtain ⟨hour, minute, second, hh, hm, hs⟩ := two?_of_isTimeAt shape
    rw [hh, hm, hs] at h
    obtain rfl := Option.some.inj h
    refine ⟨shape, congrArg (ahead b) ?_⟩
    rw [← (fractionLength_ahead b _).1]
    exact Nat.add_assoc _ _ _
  next => cases h

-- ================================================================ dates

/-- Whether a date is at the front, if there may be fewer bytes. -/
def isDateAt (b : List UInt8) : Bool :=
  digitsAt b 0 4 && b[4]? == some (ascii '-') && digitsAt b 5 2
    && b[7]? == some (ascii '-') && digitsAt b 8 2

theorem isDateAt?_eq (long : 8 ≤ b.length) :
    isDateAt? b = some (isDateAt b) := by
  unfold isDateAt? isDateAt
  rw [List.getElem?_eq_getElem (show 4 < b.length by omega),
    List.getElem?_eq_getElem (show 7 < b.length by omega)]
  simp

/-- A date at the front, by its places. -/
theorem date?_ahead (b : List UInt8) :
    date? (ahead b 0)
      = if isDateAt b then do
          let month ← two? b 5
          let day ← two? b 8
          some {
            length := 10
            faults := check (1 ≤ month && month ≤ 12) 5 .invalidMonth
              ++ check (day ≤ 39) 8 .invalidDay
            rest := ahead b 10 }
        else none := by
  unfold isDateAt date?
  simp only [digitsAt_two, digitsAt_add_two b 0 2, Option.bind_eq_bind,
    bind_pair?_ahead]
  cases two? b 0 with
  | none => rfl
  | some century =>
    cases two? b 2 with
    | none => rfl
    | some year =>
      rw [Option.bind_some, Option.bind_some,
        bind_after?_ahead (by decide)]
      by_cases first : b[4]? = some (ascii '-')
      · rw [if_pos first, bind_pair?_ahead]
        cases two? b 5 with
        | none => simp
        | some month =>
          rw [Option.bind_some, bind_after?_ahead (by decide)]
          by_cases mark : b[7]? = some (ascii '-')
          · rw [if_pos mark, bind_pair?_ahead]
            cases two? b 8 with
            | none => simp
            | some day => simp [first, mark]
          · simp [mark]
      · simp [first]

/-- The numbers in a date are there, and of the day only the tens have to
be looked at. -/
theorem two?_of_isDateAt (h : isDateAt b = true) :
    ∃ month day x, two? b 5 = some month ∧ two? b 8 = some day
      ∧ b[8]? = some x ∧ (x ≤ ascii '3' ↔ day ≤ 39) := by
  simp only [isDateAt, digitsAt_two, Bool.and_eq_true,
    Option.isSome_iff_exists] at h
  obtain ⟨⟨-, ⟨month, hm⟩⟩, -⟩ := h.1
  obtain ⟨day, hd⟩ := h.2
  obtain ⟨tens, ht, h⟩ := Option.bind_eq_some_iff.1 hd
  obtain ⟨ones, ho, h⟩ := Option.bind_eq_some_iff.1 h
  obtain ⟨x, hx, dx, rfl⟩ := exists_of_digit? ht
  obtain ⟨y, hy, dy, rfl⟩ := exists_of_digit? ho
  refine ⟨month, day, x, hm, hd, hx, ?_⟩
  obtain rfl := Option.some.inj h
  simp only [isDigitByte, Bool.and_eq_true, decide_eq_true_eq] at dx dy
  have greatest : (ascii '3').toNat = 51 := by decide
  rw [UInt8.le_iff_toNat_le, greatest]
  omega

/-- A date is found where it is read. -/
theorem dateAt?_eq (long : 8 ≤ b.length) :
    dateAt? b = some ((date? (ahead b 0)).map
      fun p => (p.length, p.faults)) := by
  rw [date?_ahead]
  unfold dateAt?
  rw [isDateAt?_eq long]
  dsimp only [Option.bind_eq_bind, Option.bind_some]
  split
  next shape =>
    obtain ⟨month, day, x, hm, hd, hx, tens⟩ := two?_of_isDateAt shape
    rw [twoDigits?_of_two? hm, hm, hd, hx]
    dsimp only [Option.bind_some, Option.map_some]
    rw [decide_eq_decide.2 tens]
  next => rfl

/-- What is behind a date is ahead of the eleventh byte. -/
theorem rest_of_date? {p : Piece} (h : date? (ahead b 0) = some p) :
    isDateAt b = true ∧ p.length = 10 ∧ p.rest = ahead b 10 := by
  rw [date?_ahead] at h
  split at h
  next shape =>
    obtain ⟨month, day, x, hm, hd, -⟩ := two?_of_isDateAt shape
    rw [hm, hd] at h
    obtain rfl := Option.some.inj h
    exact ⟨shape, rfl, rfl⟩
  next => cases h

-- ================================================================ zones

/-- There is no offset from universal time without a sign. -/
theorem shift?_of_ne {start : Nat} {src : List Glyph}
    (plus : src.head? ≠ some (scalar '+'))
    (minus : src.head? ≠ some (scalar '-')) : shift? start src = none := by
  unfold shift?
  cases src with
  | nil => rfl
  | cons g rest =>
      have other : ¬ (g = scalar '+' ∨ g = scalar '-') := by
        rintro (rfl | rfl)
        · exact plus rfl
        · exact minus rfl
      have unmarked : (guard (g = scalar '+' ∨ g = scalar '-')
          : Option Unit) = none := if_neg other
      dsimp only
      rw [unmarked]
      rfl

/-- An offset from universal time ahead, by its places. -/
theorem shift?_ahead (b : List UInt8) (i : Nat) :
    shift? i (ahead b i)
      = if isShiftAt b i then do
          let hour ← two? b (i + 1)
          let minute ← two? b (i + 4)
          some {
            length := 6
            faults := check (hour ≤ 23) (i + 1) .invalidZoneHour
              ++ check (minute ≤ 59) (i + 4) .invalidZoneMinute
            rest := ahead b (i + 6) }
        else none := by
  have plus := head?_ahead_iff (b := b) (i := i) (c := '+') (by decide)
  have minus := head?_ahead_iff (b := b) (i := i) (c := '-') (by decide)
  unfold isShiftAt
  by_cases sign : b[i]? = some (ascii '+') ∨ b[i]? = some (ascii '-')
  · obtain ⟨g, front, hg⟩ : ∃ g, ahead b i = g :: ahead b (i + 1)
        ∧ (g = scalar '+' ∨ g = scalar '-') := by
      rcases sign with h | h
      · exact ⟨_, ahead_of_ascii (x := ascii '+') (by decide) h, .inl rfl⟩
      · exact ⟨_, ahead_of_ascii (x := ascii '-') (by decide) h, .inr rfl⟩
    have signed : (b[i]? == some (ascii '+')
        || b[i]? == some (ascii '-')) = true := by
      simpa using sign
    rw [front, signed, Bool.true_and]
    unfold shift?
    have marked : (guard (g = scalar '+' ∨ g = scalar '-') : Option Unit)
        = some () := if_pos hg
    dsimp only
    rw [marked]
    show (pair? (ahead b (i + 1))).bind _ = _
    rw [bind_pair?_ahead, digitsAt_two, digitsAt_two]
    cases two? b (i + 1) with
    | none => rfl
    | some hour =>
      dsimp only [Option.bind_eq_bind, Option.bind_some]
      rw [bind_after?_ahead (by decide)]
      by_cases mark : b[i + 3]? = some (ascii ':')
      · rw [if_pos mark, bind_pair?_ahead]
        cases two? b (i + 4) with
        | none => simp
        | some minute => simp [mark]
      · simp [mark]
  · have unsigned : (b[i]? == some (ascii '+')
        || b[i]? == some (ascii '-')) = false := by
      simpa using sign
    rw [unsigned, Bool.false_and, Bool.false_and, Bool.false_and,
      if_neg Bool.false_ne_true]
    exact shift?_of_ne (fun h => sign (.inl (plus.1 h)))
      fun h => sign (.inr (minus.1 h))

/-- A zone is found at a place where it is read. -/
theorem zoneAt?_eq (b : List UInt8) (i : Nat) :
    zoneAt? b i = some (i + (zone i (ahead b i)).length,
        (zone i (ahead b i)).faults)
      ∧ (zone i (ahead b i)).rest
        = ahead b (i + (zone i (ahead b i)).length) := by
  have upper := head?_ahead_iff (b := b) (i := i) (c := 'Z') (by decide)
  have lower := head?_ahead_iff (b := b) (i := i) (c := 'z') (by decide)
  unfold zoneAt?
  by_cases zulu : b[i]? = some (ascii 'Z') ∨ b[i]? = some (ascii 'z')
  · have read : zone i (ahead b i) = ⟨1, [], ahead b (i + 1)⟩ := by
      rcases zulu with h | h
      · rw [ahead_of_ascii (x := ascii 'Z') (by decide) h]
        rfl
      · rw [ahead_of_ascii (x := ascii 'z') (by decide) h]
        rfl
    rw [if_pos zulu, read]
    exact ⟨rfl, rfl⟩
  · rw [not_or] at zulu
    rw [if_neg (not_or.2 zulu),
      zone_of_ne (mt upper.1 zulu.1) (mt lower.1 zulu.2), shift?_ahead]
    by_cases shape : isShiftAt b i = true
    · have digits := shape
      simp only [isShiftAt, digitsAt_two, Bool.and_eq_true,
        Option.isSome_iff_exists] at digits
      obtain ⟨⟨⟨-, ⟨hour, hh⟩⟩, -⟩, ⟨minute, hm⟩⟩ := digits
      rw [if_pos shape, if_pos shape, twoDigits?_of_two? hh,
        twoDigits?_of_two? hm, hh, hm]
      exact ⟨rfl, rfl⟩
    · rw [if_neg shape, if_neg shape]
      exact ⟨rfl, rfl⟩

-- ============================================================= the whole

/-- What may end a date or time is looked for in the bytes. -/
theorem isTerminator_eq (b : List UInt8) (i : Nat) :
    isTerminator b[i]? = endsBefore (ahead b i) := by
  have plain : " \t\n\r()\x7b\x7d$#\\".toList.all (·.toNat < 0x80) = true := by
    decide
  have some_cons {x : UInt8} {g : Glyph} {rest : List Glyph}
      (first : b[i]? = some x) (front : ahead b i = g :: rest) :
      isTerminator (some x) = endsBefore (g :: rest) := by
    have matched : ∀ c ∈ " \t\n\r()\x7b\x7d$#\\".toList,
        (x == ascii c) = true ↔ (g == scalar c) = true := by
      intro c hc
      have small := of_decide_eq_true (List.all_eq_true.1 plain c hc)
      have same := head?_ahead_iff (b := b) (i := i) small
      rw [first, front, List.head?_cons, Option.some_inj,
        Option.some_inj] at same
      rw [beq_iff_eq, beq_iff_eq, same]
    unfold isTerminator endsBefore
    rw [Option.all_some, Bool.eq_iff_iff, List.any_eq_true, List.any_eq_true]
    exact exists_congr fun c => and_congr_right (matched c)
  rcases ahead_cases b i with ⟨first, h⟩ | ⟨x, first, -, h⟩
    | ⟨x, g, rest, first, -, h, -⟩
  · rw [first, h]
    rfl
  · rw [first, h, some_cons first h]
  · rw [first, h, some_cons first h]

/-- A result on a condition. -/
theorem guard_bind {α : Type} {p : Prop} [Decidable p] (x : Option α) :
    ((guard p : Option Unit).bind fun _ => x) = if p then x else none := by
  by_cases h : p
  · have passed : (guard p : Option Unit) = some () := if_pos h
    rw [passed, if_pos h, Option.bind_some]
  · have stopped : (guard p : Option Unit) = none := if_neg h
    rw [stopped, if_neg h, Option.bind_none]

/-- Nothing is read at the front if there is no time of day and no
date. -/
theorem read?_of_none {src : List Glyph} (time : time? 0 src = none)
    (date : date? src = none) : read? src = none := by
  unfold read? shape?
  rw [time, date]
  rfl

/-- A time of day at the front is a time, if it may end there. -/
theorem read?_of_time {src : List Glyph} {p : Piece}
    (h : time? 0 src = some p) :
    read? src = if endsBefore p.rest then
      some ⟨.time, p.length, p.faults⟩ else none := by
  unfold read? shape?
  rw [h]
  exact guard_bind _

/-- A date at the front, with what follows it. -/
theorem read?_of_date {src : List Glyph} {p : Piece}
    (time : time? 0 src = none) (h : date? src = some p) :
    read? src = (afterDate? p).bind fun found =>
      if endsBefore found.2 then some found.1 else none := by
  unfold read? shape?
  rw [time, h]
  show (afterDate? p).bind _ = _
  exact Option.bind_congr fun found _ => guard_bind _

/-- What the first glance sees of a time of day. -/
theorem glance_of_time? {p : Piece} (h : time? 0 (ahead b 0) = some p) :
    8 ≤ b.length ∧ b[0]?.any isDigitByte ∧ b[1]?.any isDigitByte
      ∧ b[2]? = some (ascii ':') := by
  have shape := (rest_of_time? h).1
  obtain ⟨hour, minute, second, hh, -, hs⟩ := two?_of_isTimeAt shape
  obtain ⟨-, first, next⟩ := inside_of_two? hh
  simp only [isTimeAt, Bool.and_eq_true, beq_iff_eq] at shape
  exact ⟨(inside_of_two? hs).1, first, next, shape.1.1.1.2⟩

/-- What it sees of a date. -/
theorem glance_of_date? {p : Piece} (h : date? (ahead b 0) = some p) :
    10 ≤ b.length ∧ b[0]?.any isDigitByte ∧ b[1]?.any isDigitByte
      ∧ b[2]? ≠ some (ascii ':') ∧ b[4]? = some (ascii '-')
      ∧ b[5]? ≠ some (ascii ':') := by
  have shape := (rest_of_date? h).1
  simp only [isDateAt, digitsAt_add_two b 0 2, digitsAt_two,
    Bool.and_eq_true, beq_iff_eq, Option.isSome_iff_exists] at shape
  obtain ⟨⟨⟨⟨⟨⟨_, h0⟩, ⟨_, h2⟩⟩, h4⟩, ⟨_, h5⟩⟩, -⟩, ⟨_, h8⟩⟩ := shape
  obtain ⟨-, first, next⟩ := inside_of_two? h0
  refine ⟨(inside_of_two? h8).1, first, next, fun mark => ?_, h4,
    fun mark => ?_⟩
  · have digit := (inside_of_two? h2).2.1
    rw [mark] at digit
    exact absurd digit (by decide)
  · have digit := (inside_of_two? h5).2.1
    rw [mark] at digit
    exact absurd digit (by decide)

/-- Behind a `T` there is a time of day and a zone. -/
theorem afterDate?_of_t {p : Piece} {src : List Glyph}
    (h : p.rest = scalar 'T' :: src ∨ p.rest = scalar 't' :: src) :
    afterDate? p = (time? 11 src).map fun time =>
      let zone := zone (11 + time.length) time.rest
      (⟨.dateTime, 11 + time.length + zone.length,
        p.faults ++ time.faults ++ zone.faults⟩, zone.rest) := by
  unfold afterDate?
  rw [Option.map_eq_bind]
  rcases h with h | h
  · rw [h]
    rfl
  · rw [h]
    rfl

/-- What is behind the date is recognised where it is read. -/
theorem recognizeBehind?_eq (b : List UInt8) {p : Piece}
    (h : date? (ahead b 0) = some p) :
    recognizeBehind? b p.length p.faults
      = some ((afterDate? p).bind fun found =>
        if endsBefore found.2 then some found.1 else none) := by
  obtain ⟨-, length, rest⟩ := rest_of_date? h
  have upper := head?_ahead_iff (b := b) (i := 10) (c := 'T') (by decide)
  have lower := head?_ahead_iff (b := b) (i := 10) (c := 't') (by decide)
  unfold recognizeBehind?
  rw [length]
  by_cases both : b[10]? = some (ascii 'T') ∨ b[10]? = some (ascii 't')
  · have front : p.rest = scalar 'T' :: ahead b 11
        ∨ p.rest = scalar 't' :: ahead b 11 := by
      rw [rest]
      rcases both with t | t
      · exact .inl (ahead_of_ascii (x := ascii 'T') (by decide) t)
      · exact .inr (ahead_of_ascii (x := ascii 't') (by decide) t)
    rw [if_pos both, afterDate?_of_t front, timeAt?_eq]
    cases ht : time? 11 (ahead b 11) with
    | none => rfl
    | some time =>
        have behind := (rest_of_time? ht).2
        obtain ⟨found, left⟩ := zoneAt?_eq b (11 + time.length)
        dsimp only [Option.map_some, Option.bind_eq_bind, Option.bind_some]
        rw [found, behind, left, ← isTerminator_eq]
        rfl
  · rw [not_or] at both
    have plain : afterDate? p = some (ofPiece .date p) := by
      apply afterDate?_of_ne
      · rw [rest]
        exact mt upper.1 both.1
      · rw [rest]
        exact mt lower.1 both.2
    rw [← not_or] at both
    rw [if_neg both, plain]
    show some (endingAt b .date 10 p.faults) = some (if endsBefore p.rest
      then some (Temporal.mk .date p.length p.faults) else none)
    rw [rest, ← isTerminator_eq, length]
    rfl

/-- Where no date is, what is read is a time of day, if it may end. -/
theorem read?_of_no_date (date : ∀ p, date? (ahead b 0) ≠ some p) :
    read? (ahead b 0) = (time? 0 (ahead b 0)).bind fun p =>
      endingAt b .time p.length p.faults := by
  cases time : time? 0 (ahead b 0) with
  | none =>
      exact read?_of_none time (Option.eq_none_iff_forall_ne_some.2 date)
  | some p =>
      have behind := (rest_of_time? time).2
      rw [Nat.zero_add] at behind
      rw [read?_of_time time, behind, ← isTerminator_eq]
      rfl

/-- Where no time of day is, it is a date with what follows it. -/
theorem read?_of_no_time (time : ∀ p, time? 0 (ahead b 0) ≠ some p) :
    read? (ahead b 0) = (date? (ahead b 0)).bind fun p =>
      (afterDate? p).bind fun found =>
        if endsBefore found.2 then some found.1 else none := by
  have no_time := Option.eq_none_iff_forall_ne_some.2 time
  cases date : date? (ahead b 0) with
  | none => exact read?_of_none no_time date
  | some p => exact read?_of_date no_time date

/-- Eight bytes are looked at, so there must be as many. -/
theorem read?_of_short (short : b.length < 8) :
    read? (ahead b 0) = none := by
  refine read?_of_none (Option.eq_none_iff_forall_ne_some.2 fun p h => ?_)
    (Option.eq_none_iff_forall_ne_some.2 fun p h => ?_)
  · have := (glance_of_time? h).1
    omega
  · have := (glance_of_date? h).1
    omega

/-- A date and a time of day begin with two digits. -/
theorem read?_of_not_digits (other : ¬ (b[0]?.any isDigitByte = true
      ∧ b[1]?.any isDigitByte = true)) : read? (ahead b 0) = none := by
  refine read?_of_none (Option.eq_none_iff_forall_ne_some.2 fun p h => ?_)
    (Option.eq_none_iff_forall_ne_some.2 fun p h => ?_)
  · obtain ⟨-, first, next, -⟩ := glance_of_time? h
    exact other ⟨first, next⟩
  · obtain ⟨-, first, next, -⟩ := glance_of_date? h
    exact other ⟨first, next⟩

/-- A date or time is recognised where it is read. -/
theorem recognize?_eq (b : List UInt8) :
    recognize? b = some (read? (ofBytes b)) := by
  have whole : ofBytes b = ahead b 0 := rfl
  rw [whole]
  unfold recognize?
  by_cases short : b.length < 8
  · rw [if_pos short, read?_of_short short]
  have byte {i : Nat} (hi : i < 8) : ∃ x, b[i]? = some x :=
    ⟨_, List.getElem?_eq_getElem (by omega)⟩
  obtain ⟨b0, h0⟩ := byte (i := 0) (by decide)
  obtain ⟨b1, h1⟩ := byte (i := 1) (by decide)
  obtain ⟨b2, h2⟩ := byte (i := 2) (by decide)
  obtain ⟨b4, h4⟩ := byte (i := 4) (by decide)
  obtain ⟨b5, h5⟩ := byte (i := 5) (by decide)
  obtain ⟨b7, h7⟩ := byte (i := 7) (by decide)
  rw [if_neg short, h0, h1, h2, h4, h5, h7]
  dsimp only [Option.bind_eq_bind, Option.bind_some]
  split
  next other =>
    rw [read?_of_not_digits]
    rw [h0, h1, Option.any_some, Option.any_some]
    rintro ⟨d0, d1⟩
    rw [d0, d1] at other
    exact absurd other (by decide)
  split
  next colon =>
    have date (p : Piece) : date? (ahead b 0) ≠ some p := by
      intro h
      obtain ⟨-, -, -, left, -, right⟩ := glance_of_date? h
      rw [h2, Ne, Option.some_inj] at left
      rw [h5, Ne, Option.some_inj] at right
      exact colon.elim left right
    rw [timeAt?_eq, read?_of_no_date date]
    cases time? 0 (ahead b 0) with
    | none => rfl
    | some p =>
        dsimp only [Option.map_some, Option.bind_some]
        rw [Nat.zero_add]
  next plain =>
    have time (p : Piece) : time? 0 (ahead b 0) ≠ some p := by
      intro h
      obtain ⟨-, -, -, mark⟩ := glance_of_time? h
      rw [h2, Option.some_inj] at mark
      exact plain (.inl mark)
    rw [read?_of_no_time time]
    split
    next dash =>
      rw [dateAt?_eq (by omega)]
      cases date : date? (ahead b 0) with
      | none => rfl
      | some p => exact recognizeBehind?_eq b date
    next other =>
      have date : date? (ahead b 0) = none :=
        Option.eq_none_iff_forall_ne_some.2 fun p h => by
          obtain ⟨long, -, -, -, mark, -⟩ := glance_of_date? h
          rw [h4, Option.some_inj] at mark
          exact other ⟨.inl mark, long⟩
      rw [date]
      rfl

end BuildLexer.Temporal
