/-
Numbers, dates and times stand on one line.

A number is digits, separators, a point, a mark and a sign, and a date
or a time is fields with marks between them; none of that is a newline.
So there is no newline in what one of them takes (`OneLine`), and each
part that a reader passes adds to the line (`Passes.trans`).
-/
import BuildLexer.Proofs.Literal.Findings
import BuildLexer.Text.Glyph.Reading

namespace BuildLexer

open Glyph

-- =========================================================== one line

/-- A run does not hold what stops it. -/
theorem not_mem_takeWhile {p : Glyph → Bool} {g : Glyph}
    (h : p g = false) (src : List Glyph) : g ∉ src.takeWhile p := by
  intro hg
  have passed := List.all_eq_true.1 List.all_takeWhile _ hg
  rw [h] at passed
  cases passed

/-- The first glyphs are on one line: there is no newline among them. -/
def OneLine (count : Nat) (src : List Glyph) : Prop :=
  newline ∉ src.take count

namespace OneLine

variable {src rest : List Glyph} {a b : Nat}

theorem zero : OneLine 0 src := by
  unfold OneLine
  rw [List.take_zero]
  exact List.not_mem_nil

/-- A glyph that is no newline lengthens the line. -/
theorem cons {g : Glyph} (h : g ≠ newline) (later : OneLine a rest) :
    OneLine (a + 1) (g :: rest) := by
  unfold OneLine
  rw [List.take_succ_cons]
  exact List.not_mem_cons_of_ne_of_not_mem h.symm later

/-- What is on the line up to a place, and from there on, is on one
line. -/
theorem add (first : OneLine a src) (later : OneLine b (src.drop a)) :
    OneLine (a + b) src := by
  unfold OneLine
  rw [List.take_add]
  exact List.not_mem_append first later

/-- What is before a place on the line is on the line. -/
theorem mono (h : OneLine b src) (hl : a ≤ b) : OneLine a src := by
  intro hn
  rw [← Nat.min_eq_left hl, ← List.take_take] at hn
  exact h (List.mem_of_mem_take hn)

/-- Glyphs that a newline is not one of are on one line. -/
theorem takeWhile {p : Glyph → Bool} (stops : p newline = false) :
    OneLine (src.takeWhile p).length src := by
  unfold OneLine
  rw [← List.prefix_iff_eq_take.1 (List.takeWhile_prefix p)]
  exact not_mem_takeWhile stops src

end OneLine

-- ============================================================ numbers

namespace Number

variable {src : List Glyph}

/-- A run of digits that a newline is not one of is on one line. -/
theorem oneLine_runOf {isDigit : Glyph → Bool}
    (stops : isDigit newline = false) :
    OneLine (runOf isDigit src).length src :=
  OneLine.takeWhile (by rw [stops]; rfl)

/-- A fraction is on one line with its point. -/
theorem oneLine_fraction? {digits : List Glyph}
    (h : fraction? src = some digits) : OneLine (digits.length + 1) src := by
  unfold fraction? at h
  split at h
  next d rest =>
    split at h
    next =>
      obtain rfl := Option.some.inj h
      exact .cons (by decide) (oneLine_runOf rfl)
    next => cases h
  next => cases h

/-- An exponent is on one line with its mark and its sign. -/
theorem oneLine_exponent? {before : Nat} {digits : List Glyph}
    (h : exponent? src = some (before, digits)) :
    OneLine (before + digits.length) src := by
  unfold exponent? at h
  split at h
  next e s rest =>
    split at h
    next => cases h
    next mark =>
      have first : e ≠ newline := by
        rintro rfl
        exact mark rfl
      split at h
      next =>
        cases h
        rw [Nat.add_comm]
        exact .cons first (oneLine_runOf rfl)
      split at h
      next sign =>
        cases h
        have second : s ≠ newline := by
          rintro rfl
          cases sign
        rw [Nat.add_comm]
        exact .cons first (.cons second (oneLine_runOf rfl))
      next => cases h
  next => cases h

/-- All runs of a float are on the line that the mantissa stops on. -/
theorem oneLine_floatRuns (start : Nat) (src : List Glyph) :
    OneLine (stopOf start (floatRuns start src) - start) src := by
  have fraction :
      OneLine (stopOf start (fractionRun start src) - start) src := by
    unfold fractionRun
    split
    next digits h =>
      refine (oneLine_fraction? h).mono ?_
      show start + 1 + digits.length - start ≤ digits.length + 1
      omega
    next => exact OneLine.zero.mono (Nat.le_of_eq (Nat.sub_self start))
  have exponent (stop : Nat) (rest : List Glyph) :
      OneLine (stopOf stop (exponentRun stop rest) - stop) rest := by
    unfold exponentRun
    split
    next before digits h =>
      refine (oneLine_exponent? h).mono ?_
      show stop + before + digits.length - stop ≤ before + digits.length
      omega
    next => exact OneLine.zero.mono (Nat.le_of_eq (Nat.sub_self stop))
  unfold floatRuns
  dsimp only
  rw [stopOf_append]
  refine (fraction.add (exponent (stopOf start (fractionRun start src))
    _)).mono ?_
  omega

/-- The digits of a number in another base, behind its mark. -/
theorem oneLine_based {isDigit : Glyph → Bool} {mark : Glyph}
    {rest : List Glyph} (start : Nat) (other : mark ≠ newline)
    (stops : isDigit newline = false) :
    OneLine (start + 2 + (runOf isDigit rest).length - start)
      (.scalar '0' :: mark :: rest) := by
  have digits : OneLine (runOf isDigit rest).length rest :=
    oneLine_runOf stops
  refine (OneLine.cons (by decide) (.cons other digits)).mono ?_
  omega

/-- A decimal is on one line, whole or with a fraction or an exponent. -/
theorem oneLine_decimal (start : Nat) (src : List Glyph) :
    OneLine ((decimal start src).length - start) src := by
  have mantissa : OneLine (runOf Glyph.isDigit src).length src :=
    oneLine_runOf rfl
  unfold decimal
  dsimp only
  split
  next =>
    refine mantissa.mono ?_
    show start + (runOf Glyph.isDigit src).length - start ≤ _
    omega
  next =>
    refine (mantissa.add (oneLine_floatRuns
      (start + (runOf Glyph.isDigit src).length) _)).mono ?_
    dsimp only [Run.stop]
    omega

/-- A number is on one line. -/
theorem oneLine_read (start : Nat) (src : List Glyph) :
    OneLine ((read start src).length - start) src := by
  unfold read
  split
  next mark rest =>
    split
    next hm =>
      refine oneLine_based start ?_ rfl
      rcases hm with rfl | rfl <;> decide
    split
    next hm =>
      refine oneLine_based start ?_ rfl
      rcases hm with rfl | rfl <;> decide
    next => exact oneLine_decimal _ _
  next => exact oneLine_decimal _ _

end Number

-- ==================================================== dates and times

/-- A reader passes some glyphs on one line and goes on behind them. -/
structure Passes (count : Nat) (src rest : List Glyph) : Prop where
  rest : src.drop count = rest
  line : OneLine count src

namespace Passes

variable {src mid rest : List Glyph} {a b : Nat}

theorem none : Passes 0 src src := ⟨rfl, .zero⟩

/-- Two readers, one behind the other, pass one line together. -/
theorem trans (first : Passes a src mid) (later : Passes b mid rest) :
    Passes (a + b) src rest where
  rest := by
    rw [← later.rest, ← first.rest, List.drop_drop]
  line := by
    refine first.line.add ?_
    rw [first.rest]
    exact later.line

theorem cons {g : Glyph} (h : g ≠ newline) (later : Passes a src rest) :
    Passes (a + 1) (g :: src) rest :=
  ⟨later.rest, .cons h later.line⟩

end Passes

namespace Temporal

variable {src rest : List Glyph} {p : Piece}

/-- A pair of digits is passed on the line. -/
theorem passes_pair? {n : Nat} (h : pair? src = some (n, rest)) :
    Passes 2 src rest := by
  unfold pair? at h
  split at h
  next g g' left =>
    obtain ⟨tens, ht, h⟩ := Option.bind_eq_some_iff.1 h
    obtain ⟨ones, ho, h⟩ := Option.bind_eq_some_iff.1 h
    cases h
    have first : g ≠ newline := by
      rintro rfl
      cases ht
    have second : g' ≠ newline := by
      rintro rfl
      cases ho
    exact .cons first (.cons second .none)
  next => cases h

/-- A mark between two fields is passed, unless it is a newline. -/
theorem passes_after? {c : Char} (hc : Glyph.scalar c ≠ newline)
    (h : after? c src = some rest) : Passes 1 src rest := by
  unfold after? at h
  split at h
  next g left =>
    split at h
    next hg =>
      cases h
      exact .cons (hg ▸ hc) .none
    next => cases h
  next => cases h

/-- The digits of a fraction of a second are passed on the line. -/
theorem passes_fraction (src : List Glyph) :
    Passes (fractionLength src) src (src.drop (fractionLength src)) := by
  refine ⟨rfl, ?_⟩
  fun_cases fractionLength src with
  | case1 rest none => exact .zero
  | case2 rest other => exact .cons (by decide) (.takeWhile rfl)
  | case3 _ other => exact .zero

/-- A time is passed field by field. -/
theorem passes_time? {start : Nat} (h : time? start src = some p) :
    Passes p.length src p.rest := by
  obtain ⟨⟨hour, a⟩, ha, h⟩ := Option.bind_eq_some_iff.1 h
  obtain ⟨b, hb, h⟩ := Option.bind_eq_some_iff.1 h
  obtain ⟨⟨minute, c⟩, hc, h⟩ := Option.bind_eq_some_iff.1 h
  obtain ⟨d, hd, h⟩ := Option.bind_eq_some_iff.1 h
  obtain ⟨⟨second, e⟩, he, h⟩ := Option.bind_eq_some_iff.1 h
  cases h
  exact (((((passes_pair? ha).trans (passes_after? (by decide) hb)).trans
    (passes_pair? hc)).trans (passes_after? (by decide) hd)).trans
    (passes_pair? he)).trans (passes_fraction e)

/-- A date is passed field by field. -/
theorem passes_date? (h : date? src = some p) :
    Passes p.length src p.rest := by
  obtain ⟨⟨century, a⟩, ha, h⟩ := Option.bind_eq_some_iff.1 h
  obtain ⟨⟨year, b⟩, hb, h⟩ := Option.bind_eq_some_iff.1 h
  obtain ⟨c, hc, h⟩ := Option.bind_eq_some_iff.1 h
  obtain ⟨⟨month, d⟩, hd, h⟩ := Option.bind_eq_some_iff.1 h
  obtain ⟨e, he, h⟩ := Option.bind_eq_some_iff.1 h
  obtain ⟨⟨day, f⟩, hf, h⟩ := Option.bind_eq_some_iff.1 h
  cases h
  exact (((((passes_pair? ha).trans (passes_pair? hb)).trans
    (passes_after? (by decide) hc)).trans (passes_pair? hd)).trans
    (passes_after? (by decide) he)).trans (passes_pair? hf)

/-- So is the shift of a zone. -/
theorem passes_shift? {start : Nat} (h : shift? start src = some p) :
    Passes p.length src p.rest := by
  cases src with
  | nil => cases h
  | cons g rest =>
      obtain ⟨_, hg, h⟩ := Option.bind_eq_some_iff.1 h
      obtain ⟨⟨hour, a⟩, ha, h⟩ := Option.bind_eq_some_iff.1 h
      obtain ⟨b, hb, h⟩ := Option.bind_eq_some_iff.1 h
      obtain ⟨⟨minute, c⟩, hc, h⟩ := Option.bind_eq_some_iff.1 h
      cases h
      have sign : g ≠ newline := by
        rintro rfl
        cases hg
      exact .cons sign (((passes_pair? ha).trans
        (passes_after? (by decide) hb)).trans (passes_pair? hc))

/-- So is a zone, if only by nothing. -/
theorem passes_zone (start : Nat) (src : List Glyph) :
    Passes (zone start src).length src (zone start src).rest := by
  unfold zone
  split
  · exact .cons (by decide) .none
  · exact .cons (by decide) .none
  · cases h : shift? start src with
    | none => exact .none
    | some p => exact passes_shift? h

/-- The second half of a date-time. -/
theorem passes_dateTime {date : Piece} {g : Glyph} {behind : List Glyph}
    {found : Temporal × List Glyph} (hd : Passes 10 src (g :: behind))
    (hg : g ≠ newline)
    (h : (do
      let time ← time? 11 behind
      let zone := zone (11 + time.length) time.rest
      some (⟨.dateTime, 11 + time.length + zone.length,
        date.faults ++ time.faults ++ zone.faults⟩, zone.rest))
      = some found) : Passes found.1.length src found.2 := by
  obtain ⟨time, ht, h⟩ := Option.bind_eq_some_iff.1 h
  cases h
  exact ((hd.trans (.cons hg .none)).trans (passes_time? ht)).trans
    (passes_zone _ _)

/-- What follows a date is passed behind the date. -/
theorem passes_afterDate? {date : Piece} {found : Temporal × List Glyph}
    (hd : Passes date.length src date.rest) (hl : date.length = 10)
    (h : afterDate? date = some found) :
    Passes found.1.length src found.2 := by
  have whole := hd
  rw [hl] at hd
  unfold afterDate? at h
  split at h
  next behind hr => exact passes_dateTime (hr ▸ hd) (by decide) h
  next behind hr => exact passes_dateTime (hr ▸ hd) (by decide) h
  next =>
    cases h
    exact whole

/-- A date or time is on one line. -/
theorem oneLine_read? {temporal : Temporal}
    (h : read? src = some temporal) : OneLine temporal.length src := by
  obtain ⟨found, shaped, h⟩ := Option.bind_eq_some_iff.1 h
  obtain ⟨_, h⟩ := exists_of_bind h
  obtain rfl := Option.some.inj h
  unfold shape? at shaped
  rw [Option.orElse_eq_orElse, Option.orElse_eq_or] at shaped
  rcases Option.or_eq_some_iff.1 shaped with ht | ⟨-, hd⟩
  · obtain ⟨p, hp, rfl⟩ := Option.map_eq_some_iff.1 ht
    exact (passes_time? hp).line
  · obtain ⟨date, hp, hd⟩ := Option.bind_eq_some_iff.1 hd
    exact (passes_afterDate? (passes_date? hp) (about_date? hp).1 hd).line

end Temporal

end BuildLexer
