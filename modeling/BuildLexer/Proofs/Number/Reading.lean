/-
What is read of a numeral.

The reader of numbers goes over the same runs as the numeral has
(`Numeral.runs`): the mantissa, the fraction if a point and a digit are
next, the exponent if a mark and a digit are. So where a numeral spans
the front of what is ahead, the number that is read is as long as the
numeral and of its kind, and its faults are those of its runs and of the
base (`read_binary`, `read_hexadecimal`, `read_whole`, `read_float`).
-/
import BuildLexer.Proofs.Number.Numeral

namespace BuildLexer

open Glyph Number

variable {rest src : List Glyph} {start : Nat}

-- ============================================================ fractions

/-- Where no fraction begins none is read. -/
theorem fraction?_of_not_begins (h : ¬ BeginsFraction src) :
    fraction? src = none := by
  unfold fraction?
  split
  next d more =>
    split
    next digit => exact absurd ⟨d, more, rfl, digit⟩ h
    next => rfl
  next => rfl

/-- The digits of a fraction are read as they are written. -/
theorem fraction?_written {digits : List Char} (run : DigitRun digits)
    (ends : EndsRun Char.isDigit rest) :
    fraction? (scalar '.' :: (written digits ++ rest))
      = some (written digits) := by
  have read := runOf_written sameDigits_decimal run.all ends
  obtain ⟨d, more, rfl, -⟩ := run.exists_cons
  show (if (scalar d.char).isDigit then
    some (runOf Glyph.isDigit (written (d.char :: more) ++ rest))
      else none) = _
  rw [d.isDigit_char, if_pos rfl, read]

def fractionRuns (start : Nat) : Option (List Char) → List Run
  | none => []
  | some digits => [⟨start + 1, written digits⟩]

/-- The run of a fraction is that of its digits, and there is none where no
fraction begins. -/
theorem fractionRun_written {fraction : Option (List Char)}
    (run : ∀ digits ∈ fraction, DigitRun digits)
    (ends : EndsRun Char.isDigit rest)
    (unread : fraction = none → ¬ BeginsFraction rest) :
    fractionRun start (written (fractionText fraction) ++ rest)
      = fractionRuns start fraction := by
  unfold fractionRun
  cases fraction with
  | none =>
      have read : fraction? (written (fractionText none) ++ rest) = none :=
        fraction?_of_not_begins (unread rfl)
      rw [read]
      rfl
  | some digits =>
      have read : fraction? (written (fractionText (some digits)) ++ rest)
          = some (written digits) := fraction?_written (run digits rfl) ends
      rw [read]
      rfl

/-- The runs of a fraction stop where its text does. -/
theorem stopOf_fractionRuns (start : Nat)
    (fraction : Option (List Char)) :
    stopOf start (fractionRuns start fraction)
      = start + (fractionText fraction).length := by
  cases fraction with
  | none => rfl
  | some digits =>
      show start + 1 + (written digits).length
        = start + (digits.length + 1)
      rw [length_written]
      omega

-- ============================================================ exponents

/-- The mark of an exponent and what may stand behind it. -/
theorem exponent?_of_not_begins (h : ¬ BeginsExponent src) :
    exponent? src = none := by
  have mark {e : Glyph} (he : isExponentMark e = true) :
      ∃ capital : Bool, e = scalar (if capital then 'E' else 'e') := by
    rcases Bool.or_eq_true_iff.1 he with small | large
    · exact ⟨false, beq_iff_eq.1 small⟩
    · exact ⟨true, beq_iff_eq.1 large⟩
  have signed {s : Glyph} (hs : isSign s = true) :
      ∃ minus : Bool, s = scalar (if minus then '-' else '+') := by
    rcases Bool.or_eq_true_iff.1 hs with plus | minus
    · exact ⟨false, beq_iff_eq.1 plus⟩
    · exact ⟨true, beq_iff_eq.1 minus⟩
  unfold exponent?
  split
  next e s more =>
    split
    next => rfl
    next he =>
      obtain ⟨capital, rfl⟩ := mark (by simpa using he)
      split
      next digit =>
        exact absurd ⟨⟨capital, none, []⟩, s, more, rfl, digit⟩ h
      next =>
        split
        next hs =>
          obtain ⟨sign, digit⟩ := Bool.and_eq_true_iff.1 hs
          obtain ⟨minus, rfl⟩ := signed sign
          cases more with
          | nil => cases digit
          | cons d more =>
              exact absurd ⟨⟨capital, some minus, []⟩, d, more, rfl, digit⟩ h
        next => rfl
  next => rfl

/-- The digits of an exponent are read as they are written. -/
theorem exponent?_written {e : Exponent} (run : DigitRun e.digits)
    (ends : EndsRun Char.isDigit rest) :
    exponent? (written e.text ++ rest)
      = some (e.front.length, written e.digits) := by
  have read := runOf_written sameDigits_decimal run.all ends
  obtain ⟨capital, sign, digits⟩ := e
  obtain ⟨d, more, same, -⟩ := run.exists_cons
  obtain rfl : digits = d.char :: more := same
  have first : (scalar d.char).isDigit = true := d.isDigit_char
  cases sign with
  | none =>
      show (if !isExponentMark (scalar (if capital then 'E' else 'e')) then
          none
        else if (scalar d.char).isDigit then
          some (1, runOf Glyph.isDigit (written (d.char :: more) ++ rest))
        else _) = _
      rw [first, read]
      cases capital <;> rfl
  | some minus =>
      show (if !isExponentMark (scalar (if capital then 'E' else 'e')) then
          none
        else if (scalar (if minus then '-' else '+')).isDigit then _
        else if isSign (scalar (if minus then '-' else '+'))
            && (scalar d.char).isDigit then
          some (2, runOf Glyph.isDigit (written (d.char :: more) ++ rest))
        else none) = _
      rw [first, read]
      cases capital <;> cases minus <;> rfl

def exponentRuns (start : Nat) : Option Exponent → List Run
  | none => []
  | some e => [⟨start + e.front.length, written e.digits⟩]

/-- The run of an exponent is that of its digits, and there is none where
no exponent begins. -/
theorem exponentRun_written {exponent : Option Exponent}
    (run : ∀ e ∈ exponent, DigitRun e.digits)
    (ends : EndsRun Char.isDigit rest)
    (unread : exponent = none → ¬ BeginsExponent rest) :
    exponentRun start (written (exponentText exponent) ++ rest)
      = exponentRuns start exponent := by
  unfold exponentRun
  cases exponent with
  | none =>
      have read : exponent? (written (exponentText none) ++ rest) = none :=
        exponent?_of_not_begins (unread rfl)
      rw [read]
      rfl
  | some e =>
      have read : exponent? (written (exponentText (some e)) ++ rest)
          = some (e.front.length, written e.digits) :=
        exponent?_written (run e rfl) ends
      rw [read]
      rfl

-- ======================================================= whole numbers

/-- A character that is not of a run ends it. -/
theorem endsRun_of_head {isChar : Char → Bool} {c : Char}
    (outside : inRun isChar c = false) (more : List Glyph) :
    EndsRun isChar (scalar c :: more) := by
  rintro d ⟨⟩
  exact outside

section Decimal

variable {mantissa : List Char} {fraction : Option (List Char)}
  {exponent : Option Exponent}

/-- An exponent ends a run of digits, -/
theorem endsRun_exponentText (exponent : Option Exponent)
    (ends : EndsRun Char.isDigit rest) :
    EndsRun Char.isDigit (written (exponentText exponent) ++ rest) := by
  cases exponent with
  | none => exact ends
  | some e => exact endsRun_of_head (by cases e.capital <;> decide) _

/-- and so does a fraction. -/
theorem endsRun_fractionText (fraction : Option (List Char))
    (ends : EndsRun Char.isDigit rest) :
    EndsRun Char.isDigit (written (fractionText fraction) ++ rest) := by
  cases fraction with
  | none => exact ends
  | some digits => exact endsRun_of_head (by decide) _

/-- An exponent is no fraction. -/
theorem not_beginsFraction_exponentText
    (none : exponent = none → ¬ BeginsFraction rest) :
    ¬ BeginsFraction (written (exponentText exponent) ++ rest) := by
  cases exponent with
  | none => exact none rfl
  | some e =>
      rintro ⟨d, more, front, -⟩
      have point := scalar.inj (List.cons.inj front).1
      revert point
      cases e.capital <;> decide

/-- The runs behind the mantissa. -/
theorem floatRuns_written (proper : (Numeral.decimal mantissa fraction
      exponent).Proper)
    (stops : (Numeral.decimal mantissa fraction exponent).Stops rest) :
    floatRuns start (written (fractionText fraction)
        ++ (written (exponentText exponent) ++ rest))
      = fractionRuns start fraction
        ++ exponentRuns (start + (fractionText fraction).length)
          exponent := by
  obtain ⟨-, fractionRun, exponentRun⟩ := proper
  obtain ⟨ends, noExponent, unmarked⟩ := stops
  have unread : fraction = none →
      ¬ BeginsFraction (written (exponentText exponent) ++ rest) :=
    fun hf => not_beginsFraction_exponentText fun he => (unmarked hf he).1
  have behind : (written (fractionText fraction)
      ++ (written (exponentText exponent) ++ rest)).drop
        (fractionText fraction).length
        = written (exponentText exponent) ++ rest := by
    rw [← length_written]
    exact List.drop_left
  unfold floatRuns
  dsimp only
  rw [fractionRun_written fractionRun (endsRun_exponentText exponent ends)
      unread, stopOf_fractionRuns, Nat.add_sub_cancel_left, behind,
    exponentRun_written exponentRun ends noExponent]

/-- A character that begins neither a fraction nor an exponent stands
behind a mantissa only where there are none. -/
theorem none_of_head? {mark : Char}
    (other : mark ≠ '.' ∧ mark ≠ 'e' ∧ mark ≠ 'E')
    (first : (written (fractionText fraction)
      ++ (written (exponentText exponent) ++ rest)).head?
        = some (scalar mark)) :
    fraction = none ∧ exponent = none
      ∧ rest.head? = some (scalar mark) := by
  cases fraction with
  | some digits =>
      exact absurd (scalar.inj (Option.some.inj first)).symm other.1
  | none =>
      cases exponent with
      | none => exact ⟨rfl, rfl, first⟩
      | some e =>
          obtain ⟨capital, sign, digits⟩ := e
          have same := (scalar.inj (Option.some.inj first)).symm
          cases capital with
          | false => exact absurd same other.2.1
          | true => exact absurd same other.2.2

/-- Nothing in front of a number in digits marks another base. -/
theorem not_marked (proper : (Numeral.decimal mantissa fraction
      exponent).Proper)
    (stops : (Numeral.decimal mantissa fraction exponent).Stops rest)
    {mark : Char} (hm : mark ∈ ['b', 'B', 'x', 'X']) (more : List Glyph) :
    written (Numeral.decimal mantissa fraction exponent).text ++ rest
      ≠ scalar '0' :: scalar mark :: more := by
  have marks : ∀ mark ∈ ['b', 'B', 'x', 'X'],
      inRun Char.isDigit mark = false ∧ mark ≠ '.' ∧ mark ≠ 'e'
        ∧ mark ≠ 'E' := forall_mem_of_all (by decide)
  obtain ⟨outside, other⟩ := marks mark hm
  intro front
  obtain ⟨d, digits, rfl, run⟩ := proper.1.exists_cons
  rw [Numeral.written_decimal] at front
  obtain ⟨zero, behind⟩ := List.cons.inj front
  cases digits with
  | cons c digits =>
      have same := scalar.inj (List.cons.inj behind).1
      have inside := run c List.mem_cons_self
      rw [same, outside] at inside
      cases inside
  | nil =>
      -- The mantissa is 0 alone, and then the mark is what it stops at.
      have first := congrArg List.head? behind
      obtain ⟨rfl, rfl, first⟩ := none_of_head? other first
      have alone : [d.char] = ['0'] := by rw [scalar.inj zero]
      exact (stops.2.2 rfl rfl).2 alone mark hm first

/-- What has no mark of another base is read in digits. -/
theorem read_of_not_marked (h : ∀ mark ∈ ['b', 'B', 'x', 'X'],
      ∀ more, src ≠ scalar '0' :: scalar mark :: more) :
    Number.read start src = decimal start src := by
  unfold Number.read
  split
  next mark more =>
    rw [if_neg, if_neg]
    · rintro (rfl | rfl)
      · exact h 'x' (by decide) more rfl
      · exact h 'X' (by decide) more rfl
    · rintro (rfl | rfl)
      · exact h 'b' (by decide) more rfl
      · exact h 'B' (by decide) more rfl
  next => rfl

/-- A number in digits is read with its runs. -/
theorem read_decimal (proper : (Numeral.decimal mantissa fraction
      exponent).Proper)
    (stops : (Numeral.decimal mantissa fraction exponent).Stops rest)
    {digits : Run} (begins : digits = ⟨start, written mantissa⟩)
    {runs : List Run} (further : runs = fractionRuns digits.stop fraction
      ++ exponentRuns (digits.stop + (fractionText fraction).length)
        exponent) :
    Number.read start
        (written (Numeral.decimal mantissa fraction exponent).text ++ rest)
      = if runs.isEmpty then
          let (kind, whole) :=
            if mantissa.head? = some '0' then
              zeroKind digits (written (fractionText fraction)
                ++ (written (exponentText exponent) ++ rest))
            else (.integer, [])
          ⟨kind, digits.stop, digits.doubled, digits.dangling ++ whole⟩
        else
          ⟨.float, stopOf digits.stop runs, earlyOf (digits :: runs),
            lateOf runs⟩ := by
  have run := runOf_written sameDigits_decimal proper.1.all
    (endsRun_fractionText fraction (endsRun_exponentText exponent stops.1))
  have first : (written mantissa ++ (written (fractionText fraction)
      ++ (written (exponentText exponent) ++ rest))).head?
        = some (scalar '0') ↔ mantissa.head? = some '0' := by
    obtain ⟨d, more, rfl, -⟩ := proper.1.exists_cons
    simp
  rw [read_of_not_marked fun mark hm => not_marked proper stops hm,
    Numeral.written_decimal]
  unfold decimal
  dsimp only
  rw [run, List.drop_left, ← begins, floatRuns_written proper stops,
    ← further, if_congr first rfl rfl]

/-- A number in digits alone. -/
theorem read_whole (proper : (Numeral.decimal mantissa none none).Proper)
    (stops : (Numeral.decimal mantissa none none).Stops rest) :
    Number.read start
        (written (Numeral.decimal mantissa none none).text ++ rest)
      = let digits : Run := ⟨start, written mantissa⟩
        let (kind, whole) :=
          if mantissa.head? = some '0' then zeroKind digits rest
          else (.integer, [])
        ⟨kind, digits.stop, digits.doubled, digits.dangling ++ whole⟩ :=
  read_decimal proper stops rfl rfl

/-- A number with a fraction or an exponent. -/
theorem read_float (proper : (Numeral.decimal mantissa fraction
      exponent).Proper)
    (stops : (Numeral.decimal mantissa fraction exponent).Stops rest)
    {digits : Run} (begins : digits = ⟨start, written mantissa⟩)
    {runs : List Run} (further : runs = fractionRuns digits.stop fraction
      ++ exponentRuns (digits.stop + (fractionText fraction).length)
        exponent)
    (float : runs ≠ []) :
    Number.read start
        (written (Numeral.decimal mantissa fraction exponent).text ++ rest)
      = ⟨.float, stopOf digits.stop runs, earlyOf (digits :: runs),
          lateOf runs⟩ := by
  have some : ¬ runs.isEmpty = true := mt List.isEmpty_iff.1 float
  rw [read_decimal proper stops begins further, if_neg some]

end Decimal

-- =========================================================== other bases

/-- A binary number is read as it is written, -/
theorem read_binary {digits : List Char} (capital : Bool)
    (run : IsRun Char.isDigit digits) (ends : EndsRun Char.isDigit rest) :
    Number.read start (written (Numeral.binary capital digits).text ++ rest)
      = let run : Run := ⟨start + 2, written digits⟩
        let whole : List Finding :=
          if !run.glyphs.any Glyph.isDigit then [⟨0, .noBinaryDigits⟩]
          else (run.tooLarge? 2).toList.map (⟨·, .notBinaryDigit⟩)
        ⟨.binary, run.stop, run.doubled, run.dangling ++ whole⟩ := by
  have read : Number.read start
      (written (Numeral.binary capital digits).text ++ rest)
        = Number.binary (start + 2) (written digits ++ rest) := by
    cases capital <;> rfl
  rw [read]
  unfold Number.binary
  rw [runOf_written sameDigits_decimal run ends]

/-- and so is a hexadecimal one. -/
theorem read_hexadecimal {digits : List Char} (capital : Bool)
    (run : IsRun isHexChar digits) (ends : EndsRun isHexChar rest) :
    Number.read start
        (written (Numeral.hexadecimal capital digits).text ++ rest)
      = let run : Run := ⟨start + 2, written digits⟩
        let whole : List Finding :=
          if !run.glyphs.any isHexDigit then [⟨0, .noHexadecimalDigits⟩]
          else []
        ⟨.hexadecimal, run.stop, run.doubled, run.dangling ++ whole⟩ := by
  have read : Number.read start
      (written (Numeral.hexadecimal capital digits).text ++ rest)
        = Number.hexadecimal (start + 2) (written digits ++ rest) := by
    cases capital <;> rfl
  rw [read]
  unfold Number.hexadecimal
  rw [runOf_written sameDigits_hexadecimal run ends]

end BuildLexer
