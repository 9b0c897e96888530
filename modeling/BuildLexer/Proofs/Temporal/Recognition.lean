/-
Dates and times are recognised by their grammar.

A stamp is read wherever it is written and may end (`shape?_written`),
and nothing is read where none is (`exists_of_shape?`), so the glyphs
ahead are a date or time exactly when they begin with a stamp that may
end there (`read?_eq_some_iff`). Which stamp it is does not depend on how
far one reads: a stamp holds no character that may follow one, so none is
longer than the one that ends (`Stamp.Leads.longest`).

In code a call takes the stamp as a whole and reports its fields that are
out of range. Where there is none the digits are read as a number, from
the same place and inside the same constructs, with nothing reported
(`stamps_recognized`). So it is wherever the scanner makes a step, also
behind a line join that the call has skipped (`Scanner.StepsAt`).
-/
import BuildLexer.Proofs.Scanner.Told
import BuildLexer.Proofs.Temporal.Stamp

namespace BuildLexer

open Glyph

-- ========================================================= what may follow

/-- The characters that may follow a date or time. -/
def terminators : List Char := " \t\n\r()\x7b\x7d$#\\".toList

/-- The characters that end a stamp are plain. -/
theorem plain_terminators : PlainText terminators :=
  forall_mem_of_all (by decide)

namespace Temporal

variable {src rest : List Glyph}

/-- What follows a date or time is the end or a terminator. -/
theorem exists_of_endsBefore (h : endsBefore rest = true) :
    rest = [] ∨ ∃ c ∈ terminators, ∃ more, rest = scalar c :: more := by
  cases rest with
  | nil => exact .inl rfl
  | cons g more =>
      obtain ⟨c, hc, same⟩ := List.any_eq_true.1 h
      exact .inr ⟨c, hc, more, congrArg (· :: more) (beq_iff_eq.1 same)⟩

/-- Nothing but one of these, or the end, is ahead where a stamp ends. -/
theorem head?_ne_of_endsBefore (h : endsBefore rest = true) {c : Char}
    (other : c ∉ terminators) : rest.head? ≠ some (scalar c) := by
  rcases exists_of_endsBefore h with rfl | ⟨d, hd, more, rfl⟩
  · nofun
  · intro same
    obtain rfl := scalar.inj (Option.some.inj same)
    exact other hd

/-- Nothing is wrong with it. -/
theorem faultsFrom_of_endsBefore (h : endsBefore rest = true)
    (offset : Nat) : faultsFrom offset (rest.take 1) = [] := by
  rcases exists_of_endsBefore h with rfl | ⟨c, hc, more, rfl⟩
  · rfl
  · have plain : PlainText [c] :=
      List.forall_mem_singleton.2 (plain_terminators c hc)
    exact faultsFrom_written plain offset

/-- No digit is among them, -/
theorem not_isDigit_terminators :
    ∀ c ∈ terminators, isDigit (scalar c) = false :=
  forall_mem_of_all (by decide)

/-- and neither a dot nor a digit goes on there. -/
theorem endsFraction_of_endsBefore (h : endsBefore rest = true) :
    EndsFraction rest where
  none := fractionLength_of_ne (head?_ne_of_endsBefore h (by decide))
  digits := by
    rcases exists_of_endsBefore h with rfl | ⟨c, hc, more, rfl⟩
    · rfl
    · exact not_isDigit_terminators c hc

/-- A zone goes on no fraction either. -/
theorem endsFraction_zone (z : Zone) (h : endsBefore rest = true) :
    EndsFraction (written z.text ++ rest) := by
  have first (c : Char) (more : List Glyph) (point : c ≠ '.')
      (digit : isDigit (scalar c) = false) : EndsFraction (scalar c :: more) :=
    ⟨fractionLength_of_ne fun same =>
      point (scalar.inj (Option.some.inj same)), digit⟩
  cases z with
  | missing => exact endsFraction_of_endsBefore h
  | universal capital =>
      exact first _ _ (by cases capital <;> decide)
        (by cases capital <;> decide)
  | shifted east hour minute =>
      exact first _ _ (by cases east <;> decide) (by cases east <;> decide)

-- ======================================================= reading stamps

/-- The mark between a date and a time, in both sizes. -/
theorem timeMark_cases (capital : Bool) (src : List Glyph) :
    scalar (if capital then 'T' else 't') :: src = scalar 'T' :: src
      ∨ scalar (if capital then 'T' else 't') :: src = scalar 't' :: src := by
  cases capital
  · exact .inr rfl
  · exact .inl rfl

/-- A stamp is read as it is written, where it may end. -/
theorem shape?_written (s : Stamp) (h : endsBefore rest = true) :
    shape? (written s.text ++ rest) = some (s.temporal, rest) := by
  unfold shape?
  cases s with
  | time clock =>
      have read := time?_written 0 clock (endsFraction_of_endsBefore h)
      show ((time? 0 (written clock.text ++ rest)).map _ <|> _) = _
      rw [read]
      rfl
  | date day =>
      show ((time? 0 (written day.text ++ rest)).map _
        <|> (date? (written day.text ++ rest)).bind afterDate?) = _
      rw [time?_written_day, date?_written]
      show afterDate? _ = _
      rw [afterDate?_of_ne]
      · rfl
      · exact head?_ne_of_endsBefore h (by decide)
      · exact head?_ne_of_endsBefore h (by decide)
  | dateTime day capital clock zone =>
      have read := time?_written 11 clock (endsFraction_zone zone h)
      have front : written (Stamp.dateTime day capital clock zone).text
            ++ rest
          = written day.text ++ (scalar (if capital then 'T' else 't')
            :: (written clock.text ++ (written zone.text ++ rest))) := by
        simp [Stamp.text]
      rw [front, time?_written_day, date?_written]
      show afterDate? _ = _
      rw [afterDate?_of_t (timeMark_cases capital _), read, Option.map_some]
      dsimp only
      rw [zone_written]
      · simp [Stamp.temporal, Stamp.kind, Stamp.text, Stamp.faults,
          Stamp.fields, Field.findings_append, Day.length_text]
        omega
      · have outside : ∀ c ∈ ['Z', 'z', '+', '-'], c ∉ terminators :=
          forall_mem_of_all (by decide)
        exact fun c hc => head?_ne_of_endsBefore h (outside c hc)

/-- What is read behind a date goes with it. -/
theorem exists_of_afterDate? {d : Day} {p : Piece} {t : Temporal}
    (h : afterDate? p = some (t, rest)) :
    ∃ s : Stamp, written d.text ++ p.rest = written s.text ++ rest := by
  have behind (capital : Bool) {src : List Glyph}
      (mark : p.rest = scalar (if capital then 'T' else 't') :: src)
      (h : afterDate? p = some (t, rest)) :
      ∃ s : Stamp, written d.text ++ p.rest = written s.text ++ rest := by
    have front := timeMark_cases capital src
    rw [← mark] at front
    rw [afterDate?_of_t front] at h
    obtain ⟨time, read, h⟩ := Option.map_eq_some_iff.1 h
    cases h
    obtain ⟨clock, written_clock⟩ := exists_of_time? read
    obtain ⟨zone, written_zone⟩ :=
      exists_of_zone (11 + time.length) time.rest
    refine ⟨.dateTime d capital clock zone, ?_⟩
    generalize (Temporal.zone (11 + time.length) time.rest).rest = rest
      at written_zone ⊢
    rw [mark, written_clock, written_zone]
    simp [Stamp.text]
  by_cases capital : p.rest.head? = some (scalar 'T')
  · obtain ⟨src, mark⟩ := List.head?_eq_some_iff.1 capital
    exact behind true mark h
  by_cases small : p.rest.head? = some (scalar 't')
  · obtain ⟨src, mark⟩ := List.head?_eq_some_iff.1 small
    exact behind false mark h
  · rw [afterDate?_of_ne capital small] at h
    cases h
    exact ⟨.date d, rfl⟩

/-- Whatever is read is a stamp. -/
theorem exists_of_shape? {t : Temporal} (h : shape? src = some (t, rest)) :
    ∃ s : Stamp, src = written s.text ++ rest := by
  unfold shape? at h
  cases time : time? 0 src with
  | some p =>
      rw [time] at h
      cases h
      obtain ⟨clock, front⟩ := exists_of_time? time
      exact ⟨.time clock, front⟩
  | none =>
      rw [time] at h
      obtain ⟨p, date, h⟩ := Option.bind_eq_some_iff.1 h
      obtain ⟨day, front⟩ := exists_of_date? date
      rw [front]
      exact exists_of_afterDate? h

/-- The glyphs ahead are a date or time when they begin with a stamp that
may end there. -/
theorem read?_eq_some_iff {t : Temporal} :
    read? src = some t
      ↔ ∃ (s : Stamp) (rest : List Glyph), src = written s.text ++ rest
        ∧ endsBefore rest = true ∧ t = s.temporal := by
  have read (s : Stamp) (rest : List Glyph) (ends : endsBefore rest = true) :
      read? (written s.text ++ rest) = some s.temporal := by
    unfold read?
    rw [shape?_written s ends]
    exact (guard_bind _).trans (if_pos ends)
  constructor
  · intro h
    obtain ⟨⟨found, rest⟩, shape, last⟩ := Option.bind_eq_some_iff.1 h
    have ends : endsBefore rest = true := by
      by_contra other
      dsimp only at last
      rw [Option.bind_eq_bind, guard_bind, if_neg other] at last
      cases last
    obtain ⟨s, rfl⟩ := exists_of_shape? shape
    rw [read s rest ends] at h
    exact ⟨s, rest, rfl, ends, (Option.some.inj h).symm⟩
  · rintro ⟨s, rest, rfl, ends, rfl⟩
    exact read s rest ends

end Temporal

-- ============================================================== in bytes

/-- The marks between the digits of stamps. -/
def stampMarks : List Char := [':', '-', '.', '+', 'T', 't', 'Z', 'z']

/-- The characters that stamps are made of. -/
def InStamps (c : Char) : Prop := (∃ d : Digit, c = d.char) ∨ c ∈ stampMarks

/-- The characters of stamps are plain, -/
theorem InStamps.plain {c : Char} (h : InStamps c) :
    0 < c.toNat ∧ c.toNat < 0x80 := by
  have marks : PlainText stampMarks := forall_mem_of_all (by decide)
  rcases h with ⟨d, rfl⟩ | h
  · exact d.plain
  · exact marks c h

/-- and none of them ends a stamp. -/
theorem InStamps.not_mem_terminators {c : Char} (h : InStamps c) :
    c ∉ terminators := by
  have marks : ∀ c ∈ stampMarks, c ∉ terminators :=
    forall_mem_of_all (by decide)
  rcases h with ⟨d, rfl⟩ | h
  · revert d
    decide
  · exact marks c h

/-- Marks are characters of stamps. -/
theorem inStamps_mark {c : Char}
    (h : c ∈ stampMarks) : InStamps c := .inr h

/-- So are the characters of two digits, -/
theorem TwoDigits.inStamps (n : TwoDigits) : ∀ c ∈ n.text, InStamps c := by
  simp [TwoDigits.text, InStamps]

/-- of times of day, -/
theorem Clock.inStamps (clock : Clock) : ∀ c ∈ clock.text, InStamps c := by
  have fraction : ∀ c ∈ fractionText clock.fraction, InStamps c := by
    cases clock.fraction with
    | nil => nofun
    | cons d digits =>
        refine List.forall_mem_cons.2 ⟨inStamps_mark (by decide), ?_⟩
        intro c hc
        obtain ⟨d, -, rfl⟩ := List.mem_map.1 hc
        exact .inl ⟨d, rfl⟩
  have colon : InStamps ':' := inStamps_mark (by decide)
  simp only [Clock.text, List.forall_mem_append, List.forall_mem_cons]
  exact ⟨clock.hour.inStamps, colon, clock.minute.inStamps, colon,
    clock.second.inStamps, fraction⟩

/-- of days, -/
theorem Day.inStamps (day : Day) : ∀ c ∈ day.text, InStamps c := by
  have dash : InStamps '-' := inStamps_mark (by decide)
  simp only [Day.text, List.forall_mem_append, List.forall_mem_cons]
  exact ⟨day.century.inStamps, day.year.inStamps, dash, day.month.inStamps,
    dash, day.day.inStamps⟩

/-- of zones, -/
theorem Zone.inStamps (zone : Zone) : ∀ c ∈ zone.text, InStamps c := by
  cases zone with
  | missing => nofun
  | universal capital =>
      refine List.forall_mem_cons.2 ⟨inStamps_mark ?_, nofun⟩
      cases capital <;> decide
  | shifted east hour minute =>
      simp only [Zone.text, List.forall_mem_append, List.forall_mem_cons]
      refine ⟨inStamps_mark ?_, hour.inStamps, inStamps_mark (by decide),
        minute.inStamps⟩
      cases east <;> decide

namespace Stamp

/-- and with that of stamps as a whole. -/
theorem inStamps (s : Stamp) : ∀ c ∈ s.text, InStamps c := by
  cases s with
  | time clock => exact clock.inStamps
  | date day => exact day.inStamps
  | dateTime day capital clock zone =>
      simp only [Stamp.text, List.forall_mem_append, List.forall_mem_cons]
      refine ⟨day.inStamps, inStamps_mark ?_, clock.inStamps, zone.inStamps⟩
      cases capital <;> decide

/-- No stamp is empty. -/
theorem text_ne_nil (s : Stamp) : s.text ≠ [] := by
  cases s <;> exact List.cons_ne_nil _ _

/-- Stamps are plain text, -/
theorem plain (s : Stamp) : PlainText s.text := fun c hc =>
  (s.inStamps c hc).plain

/-- all of it in one byte each. -/
theorem ascii (s : Stamp) : ∀ c ∈ s.text, c.toNat < 0x80 := fun c hc =>
  (s.plain c hc).2

/-- A stamp at the front of some bytes, where it may end. -/
structure Leads (s : Stamp) (b : List UInt8) : Prop where
  front : ∃ rest, b = asciiBytes s.text ++ rest
    ∧ Temporal.isTerminator rest.head? = true
  /-- There is no longer one. -/
  longest : ∀ other : Stamp, asciiBytes other.text <+: b →
    other.text.length ≤ s.text.length

/-- Where a stamp may end, none goes on. -/
theorem length_le_of_endsBefore (s : Stamp) {rest : List Glyph}
    (ends : Temporal.endsBefore rest = true) (other : Stamp)
    (front : written other.text <+: written s.text ++ rest) :
    other.text.length ≤ s.text.length := by
  by_contra longer
  obtain ⟨behind, split⟩ := front
  have inside : s.text.length < (written other.text).length := by
    rw [length_written]
    omega
  have place : (written other.text)[s.text.length]? = rest.head? := by
    have front : (written other.text ++ behind)[s.text.length]?
        = (written other.text)[s.text.length]? :=
      List.getElem?_append_left inside
    rw [← front, split, ← length_written s.text,
      List.getElem?_append_right (Nat.le_refl _), Nat.sub_self,
      List.head?_eq_getElem?]
  rcases Temporal.exists_of_endsBefore ends with rfl | ⟨c, hc, more, rfl⟩
  · exact absurd (List.getElem?_eq_none_iff.1 place) (Nat.not_le.2 inside)
  · obtain ⟨d, hd, same⟩ := List.mem_map.1 (List.mem_of_getElem? place)
    obtain rfl := scalar.inj same
    exact (other.inStamps d hd).not_mem_terminators hc

/-- A stamp leads some bytes when the glyphs that are read from them begin
with it. -/
theorem leads_iff {s : Stamp} {b : List UInt8} :
    s.Leads b
      ↔ ∃ rest, ofBytes b = written s.text ++ rest
        ∧ Temporal.endsBefore rest = true := by
  have ends (rest : List UInt8) :
      Temporal.isTerminator rest.head?
        = Temporal.endsBefore (ofBytes rest) := by
    rw [List.head?_eq_getElem?]
    exact Temporal.isTerminator_eq rest 0
  constructor
  · rintro ⟨⟨rest, rfl, last⟩, -⟩
    rw [ends] at last
    exact ⟨_, ofBytes_asciiBytes_append s.ascii rest, last⟩
  · rintro ⟨rest, front, last⟩
    obtain ⟨behind, rfl, rfl⟩ :=
      (ofBytes_eq_written_append_iff s.ascii).1 front
    refine ⟨⟨behind, rfl, (ends behind).trans last⟩, ?_⟩
    rintro other ⟨more, split⟩
    have read := ofBytes_asciiBytes_append other.ascii more
    rw [split, front] at read
    exact s.length_le_of_endsBefore last other ⟨_, read.symm⟩

end Stamp

/-- The date or time at the front of some bytes is the stamp there. -/
theorem Temporal.read?_ofBytes_eq_some_iff {b : List UInt8}
    {t : Temporal} :
    Temporal.read? (ofBytes b) = some t
      ↔ ∃ s : Stamp, s.Leads b ∧ t = s.temporal := by
  rw [Temporal.read?_eq_some_iff]
  constructor
  · rintro ⟨s, rest, front, ends, rfl⟩
    exact ⟨s, Stamp.leads_iff.2 ⟨rest, front, ends⟩, rfl⟩
  · rintro ⟨s, leads, rfl⟩
    obtain ⟨rest, front, ends⟩ := Stamp.leads_iff.1 leads
    exact ⟨s, rest, front, ends, rfl⟩

-- ============================================================ in a call

namespace Scanner

/-- A call that takes a stamp. -/
structure TakesStamp (s : Scanner) (stamp : Stamp) : Prop where
  lexeme : s.scan.1
    = ⟨s.file.handle s.offset, .literal stamp.kind, String.ofList stamp.text⟩
  rest : s.rest = written stamp.text ++ s.scan.2.rest
  offset : s.scan.2.offset = s.offset + stamp.text.length
  findings : s.scan.2.findings
    = s.findings ++ stamp.faults.map (Finding.shift s.offset)

variable {source : List UInt8} {s : Scanner}

/-- A stamp ahead is taken. -/
theorem takesStamp (reading : s.Reading source) (code : s.InCode)
    (digit : s.rest.head?.any isDigit = true) {stamp : Stamp}
    (leads : stamp.Leads (source.drop s.offset)) : s.TakesStamp stamp := by
  obtain ⟨rest, front, ends⟩ := Stamp.leads_iff.1 leads
  rw [← reading.stands] at front
  obtain ⟨g, more, first⟩ : ∃ g more, s.rest = g :: more := by
    refine List.exists_cons_of_ne_nil ?_
    rw [front]
    exact List.append_ne_nil_of_left_ne_nil
      (mt List.map_eq_nil_iff.1 stamp.text_ne_nil) rest
  have count : stamp.text.length = stamp.text.length - 1 + 1 :=
    (Nat.sub_add_cancel
      (List.length_pos_iff.2 stamp.text_ne_nil)).symm
  have read : Temporal.read? s.rest = some stamp.temporal :=
    Temporal.read?_eq_some_iff.2 ⟨stamp, rest, front, ends, rfl⟩
  rw [first, List.head?_cons, Option.any_some] at digit
  have plan : PlansText s.plan (.literal stamp.kind) stamp.text
      stamp.faults [] := by
    rw [code.plan_of_isDigit first digit]
    unfold Plan.digits
    rw [read, front]
    exact plansText_spanning stamp.plain count rest
  have takes := plan.takes front reading.ahead
  refine ⟨takes.lexeme, takes.rest, takes.offset, ?_⟩
  have behind : s.scan.2.rest = rest :=
    List.append_cancel_left (takes.rest.symm.trans front)
  rw [takes.findings, behind, Temporal.faultsFrom_of_endsBefore ends,
    List.append_nil, List.map_nil, List.append_nil]

/-- Where no stamp is ahead of a digit there is a number. -/
theorem plan_of_no_stamp (reading : s.Reading source) (code : s.InCode)
    {g : Glyph} {rest : List Glyph} (front : s.rest = g :: rest)
    (digit : g.isDigit = true)
    (none : ∀ stamp : Stamp, ¬ stamp.Leads (source.drop s.offset)) :
    s.plan = Plan.number (s.around g) 0 s.rest := by
  have unread : Temporal.read? s.rest = Option.none := by
    rw [Option.eq_none_iff_forall_ne_some]
    intro t read
    rw [show s.rest = _ from reading.stands,
      Temporal.read?_ofBytes_eq_some_iff] at read
    obtain ⟨stamp, leads, -⟩ := read
    exact none stamp leads
  rw [code.plan_of_isDigit front digit]
  unfold Plan.digits
  rw [unread]

/-- Dates and times are recognised by their grammar, and taken in code at
every place where they are recognised. -/
theorem stamps_recognized :
    (∀ (b : List UInt8),
      Temporal.recognize? b = some (Temporal.read? (ofBytes b))
        ∧ ∀ t, Temporal.read? (ofBytes b) = some t
          ↔ ∃ stamp : Stamp, stamp.Leads b ∧ t = stamp.temporal)
      ∧ (∀ stamp : Stamp,
        stamp.faults.Pairwise fun f g => f.offset < g.offset)
      ∧ ∀ (file : File) (mode : Mode) (source : List UInt8)
        (begun s : Scanner) (g : Glyph) (rest : List Glyph),
        Scanner.start file mode source = .ok begun →
        StepsAt begun s → s.InCode → s.rest = g :: rest →
        g.isDigit = true →
        (∀ stamp : Stamp, stamp.Leads (source.drop s.offset) →
          s.TakesStamp stamp)
        ∧ ((∀ stamp : Stamp, ¬ stamp.Leads (source.drop s.offset)) →
          s.plan = Plan.number (s.around g) 0 s.rest) := by
  refine ⟨fun b => ⟨Temporal.recognize?_eq b, fun t =>
    Temporal.read?_ofBytes_eq_some_iff⟩, Stamp.faults_ascend, ?_⟩
  intro file mode source begun s g rest started place code front digit
  have reading := place.reading started
  refine ⟨fun stamp leads => ?_, plan_of_no_stamp reading code front digit⟩
  refine takesStamp reading code ?_ leads
  rw [front]
  exact digit

/-- Before a line join, `23:60:00` and a blank. -/
def beforeJoinedStamp : Scanner :=
  ofGlyphs (File.alone "" 11) {}
    (ofBytes [92, 10, 50, 51, 58, 54, 48, 58, 48, 48, 32])

/-- Behind the join, in the same call. -/
def beforeLateMinute : Scanner :=
  beforeJoinedStamp.perform beforeJoinedStamp.plan

/-- Before `1-2`. -/
def beforeDifference : Scanner :=
  ofGlyphs (File.alone "" 3) {} (ofBytes [49, 45, 50])

/-- Behind a skipped line join a time of day with sixty minutes is one
token and one report, and a number before a word is left to the numbers. -/
theorem stamps_recognized_time_and_number :
    Scanner.start (File.alone "" 11) {}
        [92, 10, 50, 51, 58, 54, 48, 58, 48, 48, 32] = .ok beforeJoinedStamp
      ∧ StepsAt beforeJoinedStamp beforeLateMinute
      ∧ (Stamp.time ⟨⟨2, 3⟩, ⟨6, 0⟩, ⟨0, 0⟩, []⟩).Leads
        [50, 51, 58, 54, 48, 58, 48, 48, 32]
      ∧ beforeLateMinute.TakesStamp (.time ⟨⟨2, 3⟩, ⟨6, 0⟩, ⟨0, 0⟩, []⟩)
      ∧ (Stamp.time ⟨⟨2, 3⟩, ⟨6, 0⟩, ⟨0, 0⟩, []⟩).faults
        = [⟨3, .invalidMinute⟩]
      ∧ Scanner.start (File.alone "" 3) {} [49, 45, 50]
        = .ok beforeDifference
      ∧ beforeDifference.plan
        = Plan.number (beforeDifference.around (scalar '1')) 0
          [scalar '1', scalar '-', scalar '2'] := by
  have time : Scanner.start (File.alone "" 11) {}
      [92, 10, 50, 51, 58, 54, 48, 58, 48, 48, 32]
        = .ok beforeJoinedStamp := rfl
  have behind : StepsAt beforeJoinedStamp beforeLateMinute :=
    .skipped (.call (.done _)) (by decide +kernel)
  have number : Scanner.start (File.alone "" 3) {} [49, 45, 50]
      = .ok beforeDifference := rfl
  have leads : (Stamp.time ⟨⟨2, 3⟩, ⟨6, 0⟩, ⟨0, 0⟩, []⟩).Leads
      [50, 51, 58, 54, 48, 58, 48, 48, 32] :=
    Stamp.leads_iff.2 ⟨[scalar ' '], by decide +kernel, by decide⟩
  have unread : Temporal.read? (ofBytes [49, 45, 50]) = none := by
    decide +kernel
  have first : beforeLateMinute.rest = scalar '2' :: [scalar '3',
      scalar ':', scalar '6', scalar '0', scalar ':', scalar '0',
      scalar '0', scalar ' '] := by
    decide +kernel
  have second : beforeDifference.rest
      = scalar '1' :: [scalar '-', scalar '2'] := by
    decide +kernel
  have begins : beforeLateMinute.offset = 2 ∧ beforeDifference.offset = 0 := by
    decide +kernel
  refine ⟨time, behind, leads, ?_, by decide, number, ?_⟩
  · refine (stamps_recognized.2.2 _ _ _ _ beforeLateMinute (scalar '2') _
      time behind ⟨by decide +kernel, by decide +kernel⟩ first
      (by decide)).1 _ ?_
    rw [begins.1]
    exact leads
  · rw [← second]
    refine (stamps_recognized.2.2 _ _ _ _ beforeDifference (scalar '1') _
      number (.call (.done _)) ⟨by decide +kernel, by decide +kernel⟩ second
      (by decide)).2 ?_
    rw [begins.2]
    intro stamp leads
    have read := ((stamps_recognized.1 [49, 45, 50]).2 _).2
      ⟨stamp, leads, rfl⟩
    rw [unread] at read
    cases read

end Scanner

end BuildLexer
