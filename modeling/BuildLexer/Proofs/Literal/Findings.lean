/-
What can be wrong with a literal, and where.

Numbers, dates, times and escapes are measured by rules of their own.
The rest of the scanner has to know little about them: which kinds of
literal they can be, and that their faults are about themselves and lie
in what was read. So faults are sorted by what they are about
(`Fault.topic`), and findings are about one topic within a length
(`About`). A fault of a number never says that a string is open or that
a byte is broken, and it is never past the number.
-/
import BuildLexer.Literal.Escape
import BuildLexer.Literal.Number
import BuildLexer.Literal.Temporal

namespace BuildLexer

-- ============================================================== topics

/-- What a fault is about. -/
inductive Topic where
  /-- A glyph that is wrong wherever it stands. -/
  | encoding
  /-- A character that has no rule. -/
  | character
  | word
  | call
  | string
  | rawString
  | escape
  | number
  | temporal
  deriving DecidableEq

/-- The faults by topic. -/
def Fault.topic : Fault → Topic
  | nulCharacter | illFormedByte | strayByteOrderMark => .encoding
  | illegalCharacter _ => .character
  | unexpectedToken _ => .word
  | openColonCall => .call
  | openString => .string
  | openRawString => .rawString
  | unknownEscape | openEscape | brokenEscape | escapeOutOfRange => .escape
  | noBinaryDigits | noHexadecimalDigits | notBinaryDigit | notOctalDigit
  | misplacedSeparator => .number
  | invalidMonth | invalidDay | invalidHour | invalidMinute
  | invalidSecond | invalidZoneHour | invalidZoneMinute => .temporal

/-- Findings of one topic at offsets up to a length. -/
def About (topic : Topic) (length : Nat) (findings : List Finding) :
    Prop :=
  ∀ f ∈ findings, f.fault.topic = topic ∧ f.offset ≤ length

namespace About

variable {topic : Topic} {length : Nat} {a b : List Finding}

theorem nil : About topic length [] := nofun

/-- Findings together are about what each of them is about. -/
theorem append (ha : About topic length a) (hb : About topic length b) :
    About topic length (a ++ b) :=
  List.forall_mem_append.2 ⟨ha, hb⟩

/-- What lies within a length lies within a greater one. -/
theorem mono {longer : Nat} (h : About topic length a)
    (hl : length ≤ longer) : About topic longer a :=
  fun f hf => ⟨(h f hf).1, Nat.le_trans (h f hf).2 hl⟩

theorem single {offset : Nat} {fault : Fault} (ht : fault.topic = topic)
    (inside : offset ≤ length) : About topic length [⟨offset, fault⟩] := by
  intro f hf
  obtain rfl := List.mem_singleton.1 hf
  exact ⟨ht, inside⟩

/-- Findings of one fault at some offsets. -/
theorem map {offsets : List Nat} {fault : Fault} (ht : fault.topic = topic)
    (inside : ∀ offset ∈ offsets, offset ≤ length) :
    About topic length (offsets.map (⟨·, fault⟩)) := by
  intro f hf
  obtain ⟨offset, ho, rfl⟩ := List.mem_map.1 hf
  exact ⟨ht, inside offset ho⟩

/-- The same findings, seen from further back. -/
theorem shift (h : About topic length a) (distance : Nat) :
    About topic (distance + length) (a.map (Finding.shift distance)) := by
  intro f hf
  obtain ⟨f, hm, rfl⟩ := List.mem_map.1 hf
  exact ⟨(h f hm).1, Nat.add_le_add_left (h f hm).2 distance⟩

end About

-- =============================================================== kinds

/-- The kinds of number. -/
def Literal.isNumber : Literal → Bool
  | binary | octal | integer | hexadecimal | float => true
  | _ => false

/-- The kinds of date and time. -/
def Literal.isTemporal : Literal → Bool
  | date | time | dateTime => true
  | _ => false

-- ============================================================= numbers

namespace Number

/-- A doubled separator is noted inside its run. -/
theorem doubledFrom_lt {start offset : Nat} {glyphs : List Glyph}
    (h : offset ∈ Run.doubledFrom start glyphs) :
    offset < start + glyphs.length := by
  fun_induction Run.doubledFrom start glyphs with
  | case1 start a b rest _ ih =>
      simp only [List.length_cons] at ih ⊢
      rcases List.mem_cons.1 h with rfl | h
      · omega
      · have := ih h
        omega
  | case2 start a b rest _ ih =>
      simp only [List.length_cons] at ih ⊢
      have := ih h
      omega
  | case3 => cases h

/-- Doubled separators are about the number, within the run. -/
theorem about_doubled (r : Run) : About .number r.stop r.doubled :=
  About.map rfl fun _ h => Nat.le_of_lt (doubledFrom_lt h)

/-- So is a separator at the end of the run. -/
theorem about_dangling (r : Run) : About .number r.stop r.dangling := by
  unfold Run.dangling
  split
  · exact About.single rfl (Nat.sub_le _ _)
  · exact About.nil

/-- The digit that is too large is none behind the run. -/
theorem tooLarge?_le {base offset : Nat} {r : Run}
    (h : r.tooLarge? base = some offset) : offset ≤ r.stop := by
  obtain ⟨index, hi, rfl⟩ := Option.map_eq_some_iff.1 h
  obtain ⟨inside, -⟩ := List.findIdx?_eq_some_iff_getElem.1 hi
  unfold Run.stop
  omega

/-- What is found early in some runs is about the number, and as far as
they reach. -/
theorem about_earlyOf {bound : Nat} {runs : List Run}
    (h : ∀ r ∈ runs, r.stop ≤ bound) :
    About .number bound (earlyOf runs) := by
  fun_induction earlyOf runs with
  | case1 => exact About.nil
  | case2 last => exact (about_doubled last).mono (h last List.mem_cons_self)
  | case3 r rest _ ih =>
      have inside := h r List.mem_cons_self
      refine (((about_doubled r).mono inside).append
        ((about_dangling r).mono inside)).append (ih ?_)
      exact fun r hr => h r (List.mem_cons_of_mem _ hr)

/-- What is found late comes from the last run alone. -/
theorem about_lateOf {bound : Nat} {runs : List Run}
    (h : ∀ r ∈ runs, r.stop ≤ bound) :
    About .number bound (lateOf runs) := by
  unfold lateOf
  split
  next last hl =>
    exact (about_dangling last).mono (h last (List.mem_of_getLast? hl))
  next => exact About.nil

/-- Runs from an offset on, none of which stops behind the last. -/
structure Ascends (start : Nat) (runs : List Run) : Prop where
  behind : start ≤ stopOf start runs
  stops : ∀ r ∈ runs, r.stop ≤ stopOf start runs

/-- Runs behind others begin where those stop. -/
theorem stopOf_append (start : Nat) (a b : List Run) :
    stopOf start (a ++ b) = stopOf (stopOf start a) b := by
  unfold stopOf
  rw [List.getLast?_append]
  cases b.getLast? with
  | none => rfl
  | some last => rfl

namespace Ascends

variable {start : Nat} {a b : List Run}

theorem nil : Ascends start [] := ⟨Nat.le_refl _, nofun⟩

theorem single {r : Run} (h : start ≤ r.start) : Ascends start [r] where
  behind := Nat.le_trans h (Nat.le_add_right _ _)
  stops := fun _ hr => List.mem_singleton.1 hr ▸ Nat.le_refl _

/-- Runs that go on where others stop ascend together with them. -/
theorem append (ha : Ascends start a) (hb : Ascends (stopOf start a) b) :
    Ascends start (a ++ b) where
  behind := by
    rw [stopOf_append]
    exact Nat.le_trans ha.behind hb.behind
  stops := by
    intro r hr
    rw [stopOf_append]
    rcases List.mem_append.1 hr with hr | hr
    · exact Nat.le_trans (ha.stops r hr) hb.behind
    · exact hb.stops r hr

end Ascends

/-- The runs of a float ascend from where its mantissa stops. -/
theorem ascends_floatRuns (start : Nat) (src : List Glyph) :
    Ascends start (floatRuns start src) := by
  refine Ascends.append ?_ ?_
  · unfold fractionRun
    split
    · exact Ascends.single (Nat.le_succ start)
    · exact Ascends.nil
  · unfold exponentRun
    split
    · exact Ascends.single (Nat.le_add_right _ _)
    · exact Ascends.nil

/-- A number is of a kind for numbers, and what is wrong with it is about
it and in it. -/
structure Proper (number : Number) : Prop where
  kind : number.kind.isNumber = true
  findings : About .number number.length (number.early ++ number.late)

/-- A number that begins with 0 is of a kind for numbers, and its fault is
in its digits. -/
theorem proper_zeroKind (mantissa : Run) (rest : List Glyph) :
    (zeroKind mantissa rest).1.isNumber = true
      ∧ About .number mantissa.stop (zeroKind mantissa rest).2 := by
  unfold zeroKind
  split
  next => exact ⟨rfl, About.nil⟩
  split
  next offset h => exact ⟨rfl, About.single rfl (tooLarge?_le h)⟩
  next => exact ⟨rfl, About.nil⟩

/-- A decimal is proper: whole or a float, its faults are its own. -/
theorem proper_decimal (start : Nat) (src : List Glyph) :
    (decimal start src).Proper := by
  unfold decimal
  dsimp only
  split
  next =>
    constructor
    · split
      · exact (proper_zeroKind _ _).1
      · rfl
    · refine (about_doubled _).append ((about_dangling _).append ?_)
      split
      · exact (proper_zeroKind _ _).2
      · exact About.nil
  next =>
    have runs := ascends_floatRuns
      (start + (runOf Glyph.isDigit src).length)
      (src.drop (runOf Glyph.isDigit src).length)
    refine ⟨rfl, (about_earlyOf ?_).append (about_lateOf runs.stops)⟩
    intro r hr
    rcases List.mem_cons.1 hr with rfl | hr
    · exact runs.behind
    · exact runs.stops r hr

/-- A number of the binary system is proper, without digits too. -/
theorem proper_binary (start : Nat) (src : List Glyph) :
    (binary start src).Proper := by
  refine ⟨rfl, (about_doubled _).append ((about_dangling _).append ?_)⟩
  split
  · exact About.single rfl (Nat.zero_le _)
  · refine About.map rfl fun offset ho => ?_
    exact tooLarge?_le (Option.mem_toList.1 ho)

theorem proper_hexadecimal (start : Nat) (src : List Glyph) :
    (hexadecimal start src).Proper := by
  refine ⟨rfl, (about_doubled _).append ((about_dangling _).append ?_)⟩
  split
  · exact About.single rfl (Nat.zero_le _)
  · exact About.nil

/-- Whatever the digits, what is read as a number is proper. -/
theorem proper_read (start : Nat) (src : List Glyph) :
    (read start src).Proper := by
  unfold read
  split
  · split
    · exact proper_binary _ _
    split
    · exact proper_hexadecimal _ _
    · exact proper_decimal _ _
  · exact proper_decimal _ _

end Number

-- ====================================================== dates and times

namespace Temporal

/-- A field out of range is reported at the field. -/
theorem about_check {length offset : Nat} {fault : Fault} (inRange : Bool)
    (ht : fault.topic = .temporal) (inside : offset ≤ length) :
    About .temporal length (check inRange offset fault) := by
  unfold check
  split
  · exact About.nil
  · exact About.single ht inside

/-- What two readings in turn give, the second gives. -/
theorem exists_of_bind {α β : Type} {x : Option α} {f : α → Option β}
    {b : β} (h : x >>= f = some b) : ∃ a, f a = some b := by
  obtain ⟨a, -, ha⟩ := Option.bind_eq_some_iff.1 h
  exact ⟨a, ha⟩

/-- The faults of a time are in the time. -/
theorem about_time? {start : Nat} {src : List Glyph} {p : Piece}
    (h : time? start src = some p) :
    About .temporal (start + p.length) p.faults := by
  obtain ⟨⟨hour, a⟩, h⟩ := exists_of_bind h
  obtain ⟨b, h⟩ := exists_of_bind h
  obtain ⟨⟨minute, c⟩, h⟩ := exists_of_bind h
  obtain ⟨d, h⟩ := exists_of_bind h
  obtain ⟨⟨second, e⟩, h⟩ := exists_of_bind h
  obtain rfl := Option.some.inj h
  dsimp only
  refine ((about_check _ rfl ?_).append (about_check _ rfl ?_)).append
    (about_check _ rfl ?_) <;> omega

/-- A date is ten glyphs long, and its faults are in it. -/
theorem about_date? {src : List Glyph} {p : Piece}
    (h : date? src = some p) :
    p.length = 10 ∧ About .temporal 10 p.faults := by
  obtain ⟨⟨century, a⟩, h⟩ := exists_of_bind h
  obtain ⟨⟨year, b⟩, h⟩ := exists_of_bind h
  obtain ⟨c, h⟩ := exists_of_bind h
  obtain ⟨⟨month, d⟩, h⟩ := exists_of_bind h
  obtain ⟨e, h⟩ := exists_of_bind h
  obtain ⟨⟨day, f⟩, h⟩ := exists_of_bind h
  obtain rfl := Option.some.inj h
  refine ⟨rfl, (about_check _ rfl ?_).append (about_check _ rfl ?_)⟩ <;>
    omega

theorem about_shift? {start : Nat} {src : List Glyph} {p : Piece}
    (h : shift? start src = some p) :
    About .temporal (start + p.length) p.faults := by
  cases src with
  | nil => cases h
  | cons g rest =>
      obtain ⟨_, h⟩ := exists_of_bind h
      obtain ⟨⟨hour, a⟩, h⟩ := exists_of_bind h
      obtain ⟨b, h⟩ := exists_of_bind h
      obtain ⟨⟨minute, c⟩, h⟩ := exists_of_bind h
      obtain rfl := Option.some.inj h
      dsimp only
      refine (about_check _ rfl ?_).append (about_check _ rfl ?_) <;> omega

/-- The faults of a zone are in the zone. -/
theorem about_zone (start : Nat) (src : List Glyph) :
    About .temporal (start + (zone start src).length)
      (zone start src).faults := by
  unfold zone
  split
  · exact About.nil
  · exact About.nil
  · cases h : shift? start src with
    | none => exact About.nil
    | some p => exact about_shift? h

/-- A date or time is of a kind for those, and what is wrong with it is
about it and in it. -/
structure Proper (temporal : Temporal) : Prop where
  kind : temporal.kind.isTemporal = true
  findings : About .temporal temporal.length temporal.faults

/-- The second half of a date-time. -/
theorem proper_dateTime {date : Piece} {src : List Glyph}
    {found : Temporal × List Glyph} (hd : About .temporal 10 date.faults)
    (h : (do
      let time ← time? 11 src
      let zone := zone (11 + time.length) time.rest
      some (⟨.dateTime, 11 + time.length + zone.length,
        date.faults ++ time.faults ++ zone.faults⟩, zone.rest))
      = some found) : found.1.Proper := by
  obtain ⟨time, ht, h⟩ := Option.bind_eq_some_iff.1 h
  obtain rfl := Option.some.inj h
  have timed := about_time? ht
  have zoned := about_zone (11 + time.length) time.rest
  refine ⟨rfl, ((hd.mono ?_).append (timed.mono ?_)).append zoned⟩ <;>
    dsimp only <;> omega

/-- What a date goes on to is proper: a date alone or with a time and a
zone. -/
theorem proper_afterDate? {date : Piece} {found : Temporal × List Glyph}
    (hl : date.length = 10) (hd : About .temporal 10 date.faults)
    (h : afterDate? date = some found) : found.1.Proper := by
  unfold afterDate? at h
  split at h
  · exact proper_dateTime hd h
  · exact proper_dateTime hd h
  · obtain rfl := Option.some.inj h
    exact ⟨rfl, hd.mono (Nat.le_of_eq hl.symm)⟩

/-- What is read as a date or a time is proper. -/
theorem proper_read? {src : List Glyph} {temporal : Temporal}
    (h : read? src = some temporal) : temporal.Proper := by
  obtain ⟨found, shaped, h⟩ := Option.bind_eq_some_iff.1 h
  obtain ⟨_, h⟩ := exists_of_bind h
  obtain rfl := Option.some.inj h
  unfold shape? at shaped
  rw [Option.orElse_eq_orElse, Option.orElse_eq_or] at shaped
  rcases Option.or_eq_some_iff.1 shaped with ht | ⟨-, hd⟩
  · obtain ⟨p, hp, rfl⟩ := Option.map_eq_some_iff.1 ht
    have timed := about_time? hp
    rw [Nat.zero_add] at timed
    exact ⟨rfl, timed⟩
  · obtain ⟨date, hp, hd⟩ := Option.bind_eq_some_iff.1 hd
    obtain ⟨length, dated⟩ := about_date? hp
    exact proper_afterDate? length dated hd

end Temporal

-- ============================================================= escapes

namespace Escape

variable {src : List Glyph} {length count greatest n : Nat}
  {finding : Finding}

/-- A number that is too large is reported within the escape that writes
it. -/
theorem about_ofNumber
    (h : ofNumber count greatest n = .invalid length finding) :
    About .escape length [finding] := by
  unfold ofNumber at h
  split at h
  · cases h
  · cases h
    exact About.single rfl (Nat.zero_le _)

/-- An escape by hexadecimal digits that is none is reported where it
breaks off. -/
theorem about_hexadecimal
    (h : hexadecimal count greatest src = .invalid length finding) :
    About .escape length [finding] := by
  unfold hexadecimal at h
  dsimp only at h
  split at h
  · cases h
    refine About.single ?_ (Nat.le_refl _)
    split <;> rfl
  · exact about_ofNumber h

/-- An escape breaks off where it is read. -/
theorem about_read (h : read src = .invalid length finding) :
    About .escape length [finding] := by
  unfold read at h
  split at h
  · cases h
    exact About.single rfl (Nat.le_refl _)
  split at h
  · cases h
  split at h
  · cases h
  split at h
  · exact about_hexadecimal h
  split at h
  · exact about_hexadecimal h
  split at h
  · exact about_hexadecimal h
  split at h
  · cases h
    exact About.single rfl (Nat.le_refl _)
  · exact about_ofNumber h

end Escape

end BuildLexer
