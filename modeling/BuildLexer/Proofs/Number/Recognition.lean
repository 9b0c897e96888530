/-
Numbers are recognised by their grammar.

In code a number stands at a digit where no date or time is read, and at
a minus sign before a digit (`Scanner.BeforeNumber`). What follows the
sign begins with a numeral, and the call takes that numeral with its sign
as a whole. The token is of the kind of the numeral, and the call reports
something about it unless its text is strict (`numbers_recognized`). So
it is wherever the scanner makes a step, also behind a line join that the
call has skipped (`Scanner.StepsAt`).
-/
import BuildLexer.Proofs.Number.Faults
import BuildLexer.Proofs.Scanner.Told

namespace BuildLexer

open Glyph

-- ============================================================ plain texts

/-- A run is plain if its digits are. -/
theorem IsRun.plain {isDigit : Char → Bool} {text : List Char}
    (digits : ∀ c, isDigit c = true → 0 < c.toNat ∧ c.toNat < 0x80)
    (run : IsRun isDigit text) : PlainText text := by
  intro c hc
  rcases Bool.or_eq_true_iff.1 (run c hc) with mark | digit
  · rw [beq_iff_eq.1 mark]
    decide
  · exact digits c digit

/-- A decimal digit is an ASCII character. -/
theorem plain_of_isDigit (c : Char) (h : c.isDigit = true) :
    0 < c.toNat ∧ c.toNat < 0x80 := by
  obtain ⟨d, same⟩ := exists_of_isDigit (g := scalar c) h
  obtain rfl := scalar.inj same
  exact d.plain

/-- So is a hexadecimal one. -/
theorem plain_of_isHexChar (c : Char) (h : isHexChar c = true) :
    0 < c.toNat ∧ c.toNat < 0x80 := by
  have letters : PlainText "abcdefABCDEF".toList :=
    forall_mem_of_all (by decide)
  rcases Bool.or_eq_true_iff.1 h with digit | letter
  · exact plain_of_isDigit c digit
  · exact letters c (List.contains_iff_mem.1 letter)

theorem DigitRun.plain {text : List Char} (run : DigitRun text) :
    PlainText text := run.all.plain plain_of_isDigit

/-- So are the marks of an exponent. -/
theorem Exponent.plain_front (e : Exponent) : PlainText e.front := by
  have plain (capital : Bool) (sign : Option Bool) :
      PlainText (Exponent.front ⟨capital, sign, []⟩) := by
    cases capital <;> rcases sign with _ | _ | _ <;>
      exact forall_mem_of_all (by decide)
  exact plain e.capital e.sign

/-- A number is written in ASCII characters. -/
theorem Numeral.Proper.plain {n : Numeral} (proper : n.Proper) :
    PlainText n.text := by
  cases n with
  | binary capital digits =>
      refine List.forall_mem_cons.2 ⟨by decide,
        List.forall_mem_cons.2 ⟨?_, IsRun.plain plain_of_isDigit proper⟩⟩
      cases capital <;> decide
  | hexadecimal capital digits =>
      refine List.forall_mem_cons.2 ⟨by decide,
        List.forall_mem_cons.2 ⟨?_, IsRun.plain plain_of_isHexChar proper⟩⟩
      cases capital <;> decide
  | decimal mantissa fraction exponent =>
      obtain ⟨first, second, third⟩ := proper
      refine List.forall_mem_append.2 ⟨first.plain,
        List.forall_mem_append.2 ⟨?_, ?_⟩⟩
      · cases fraction with
        | none => exact nofun
        | some digits =>
            exact List.forall_mem_cons.2 ⟨by decide, (second _ rfl).plain⟩
      · cases exponent with
        | none => exact nofun
        | some e =>
            exact List.forall_mem_append.2
              ⟨e.plain_front, (third _ rfl).plain⟩

/-- Every number has a digit. -/
theorem Numeral.Proper.text_ne_nil {n : Numeral} (proper : n.Proper) :
    n.text ≠ [] := by
  cases n with
  | binary => exact List.cons_ne_nil _ _
  | hexadecimal => exact List.cons_ne_nil _ _
  | decimal mantissa fraction exponent =>
      obtain ⟨d, more, rfl, -⟩ := proper.1.exists_cons
      exact List.cons_ne_nil _ _

-- ============================================================== in a call

namespace Scanner

/-- In code before a number: a minus sign or none, and what follows it. -/
structure BeforeNumber (s : Scanner) (sign : List Char)
    (src : List Glyph) : Prop where
  code : s.InCode
  ahead : s.rest = written sign ++ src
  digit : src.head?.any isDigit = true
  sign : sign = [] ∧ Temporal.read? src = none ∨ sign = ['-']

variable {source : List UInt8} {s : Scanner} {sign : List Char}
  {src rest : List Glyph}

namespace BeforeNumber

/-- A sign is an ASCII character, or there is none. -/
theorem plain (h : s.BeforeNumber sign src) : PlainText sign := by
  rcases h.sign with ⟨rfl, -⟩ | rfl
  · exact nofun
  · exact List.forall_mem_singleton.2 (by decide)

/-- The plan before a number is to read it, behind its sign. -/
theorem plan (h : s.BeforeNumber sign src) :
    ∃ n, s.plan = Plan.number n sign.length s.rest := by
  obtain ⟨code, ahead, digit, none | minus⟩ := h
  · obtain ⟨rfl, unread⟩ := none
    obtain rfl : s.rest = src := ahead
    cases front : s.rest with
    | nil =>
        rw [front] at digit
        cases digit
    | cons g more =>
        rw [front] at digit
        rw [code.plan_of_isDigit front digit, ← front]
        unfold Plan.digits
        rw [unread]
        exact ⟨_, rfl⟩
  · obtain rfl := minus
    exact ⟨_, code.plan_of_minus ahead digit⟩

end BeforeNumber

/-- The numeral ahead is taken with its sign, and what is noted about it
is what is noted when it is read. -/
theorem takes_read (reading : s.Reading source)
    (before : s.BeforeNumber sign src) {n : Numeral}
    (spans : n.Spans src rest) :
    s.Takes (.literal (n.kind (beforeI rest))) (sign ++ n.text)
      (Number.read sign.length src).early
      (Number.read sign.length src).late := by
  obtain ⟨nesting, plan⟩ := before.plan
  have read := readsAs_of_spans spans sign.length
  have front : s.rest = written (sign ++ n.text) ++ rest := by
    rw [before.ahead, spans.front, written_append, List.append_assoc]
  have behind : s.rest.drop sign.length = src := by
    rw [before.ahead, ← length_written, List.drop_left]
  have plain : PlainText (sign ++ n.text) :=
    List.forall_mem_append.2 ⟨before.plain, spans.proper.plain⟩
  -- A plan counts the glyphs behind the first one.
  have count : (sign ++ n.text).length
      = (Number.read sign.length src).length - 1 + 1 := by
    have := List.length_pos_iff.2 spans.proper.text_ne_nil
    rw [read.length, List.length_append]
    omega
  have plans : PlansText s.plan (.literal (n.kind (beforeI rest)))
      (sign ++ n.text) (Number.read sign.length src).early
      (Number.read sign.length src).late := by
    rw [plan]
    unfold Plan.number
    dsimp only
    rw [behind, read.kind, front]
    exact plansText_spanning plain count rest
  exact plans.takes front reading.ahead

/-- Nothing is noted exactly about what is strict. -/
theorem takes_number (reading : s.Reading source)
    (before : s.BeforeNumber sign src) {n : Numeral}
    (spans : n.Spans src rest) :
    ∃ early late, s.Takes (.literal (n.kind (beforeI rest)))
        (sign ++ n.text) early late
      ∧ (early ++ late = []
        ↔ Strict (beforeI rest) (n.kind (beforeI rest)) n.text) :=
  ⟨_, _, takes_read reading before spans,
    (readsAs_of_spans spans sign.length).faults⟩

/-- At every place numbers are taken by their grammar, and reported
unless they are strict. -/
theorem numbers_recognized (file : File) (mode : Mode)
    (source : List UInt8) (begun s : Scanner) (sign : List Char)
    (src : List Glyph)
    (started : Scanner.start file mode source = .ok begun)
    (place : StepsAt begun s) (before : s.BeforeNumber sign src) :
    (∃ (n : Numeral) (rest : List Glyph), n.Spans src rest)
      ∧ ∀ (n : Numeral) (rest : List Glyph), n.Spans src rest →
        ∃ early late, s.Takes (.literal (n.kind (beforeI rest)))
            (sign ++ n.text) early late
          ∧ (early ++ late = []
            ↔ Strict (beforeI rest) (n.kind (beforeI rest)) n.text) :=
  ⟨exists_spans before.digit, fun _ _ spans =>
    takes_number (place.reading started) before spans⟩

/-- Before `07i`. -/
def beforeImaginary : Scanner :=
  ofGlyphs (File.alone "" 3) {} (ofBytes [48, 55, 105])

/-- Before a line join and `-08_`. -/
def beforeJoinedNumber : Scanner :=
  ofGlyphs (File.alone "" 6) {} (ofBytes [92, 10, 45, 48, 56, 95])

/-- Behind the join, in the same call. -/
def beforeNegative : Scanner :=
  beforeJoinedNumber.perform beforeJoinedNumber.plan

/-- The first number is decimal and strict because an `i` follows, the
second ends with a separator. -/
theorem numbers_recognized_before_i_and_negative :
    Scanner.start (File.alone "" 3) {} [48, 55, 105] = .ok beforeImaginary
      ∧ (∃ early late,
        beforeImaginary.Takes (.literal .integer) ['0', '7'] early late
          ∧ early ++ late = [])
      ∧ Scanner.start (File.alone "" 6) {} [92, 10, 45, 48, 56, 95]
        = .ok beforeJoinedNumber
      ∧ (StepsAt beforeJoinedNumber beforeNegative
        ∧ beforeNegative.offset = 2)
      ∧ ∃ early late,
        beforeNegative.Takes (.literal .integer) ['-', '0', '8', '_']
            early late
          ∧ early ++ late ≠ [] := by
  have first : Scanner.start (File.alone "" 3) {} [48, 55, 105]
      = .ok beforeImaginary := rfl
  have second : Scanner.start (File.alone "" 6) {} [92, 10, 45, 48, 56, 95]
      = .ok beforeJoinedNumber := rfl
  have behind : StepsAt beforeJoinedNumber beforeNegative :=
    .skipped (.call (.done _)) (by decide +kernel)
  have imaginary : beforeImaginary.BeforeNumber []
      [scalar '0', scalar '7', scalar 'i'] :=
    ⟨⟨by decide +kernel, by decide +kernel⟩, by decide +kernel, rfl,
      .inl ⟨rfl, by decide +kernel⟩⟩
  have negative : beforeNegative.BeforeNumber ['-']
      [scalar '0', scalar '8', scalar '_'] :=
    ⟨⟨by decide +kernel, by decide +kernel⟩, by decide +kernel, rfl,
      .inr rfl⟩
  have imaginary_spans : (Numeral.decimal ['0', '7'] none none).Spans
      [scalar '0', scalar '7', scalar 'i'] [scalar 'i'] := by
    refine ⟨rfl, ⟨⟨rfl, ?_⟩, nofun, nofun⟩, endsRun_of_head rfl [], ?_, ?_⟩
    · exact forall_mem_of_all (by decide)
    · rintro - ⟨e, d, more, front, -⟩
      have mark := scalar.inj (List.cons.inj front).1
      revert mark
      cases e.capital <;> decide
    · rintro - -
      refine ⟨?_, nofun⟩
      rintro ⟨d, more, front, -⟩
      cases front
  have negative_spans : (Numeral.decimal ['0', '8', '_'] none none).Spans
      [scalar '0', scalar '8', scalar '_'] [] := by
    refine ⟨rfl, ⟨⟨rfl, ?_⟩, nofun, nofun⟩, stops_nil _⟩
    exact forall_mem_of_all (by decide)
  refine ⟨first, ?_, second, ⟨behind, by decide +kernel⟩, ?_⟩
  · obtain ⟨early, late, takes, fine⟩ := (numbers_recognized _ _ _ _ _ _ _
      first (.call (.done _)) imaginary).2 _ _ imaginary_spans
    exact ⟨early, late, takes, fine.2 (.zeros rfl (.digit rfl .nil) nofun)⟩
  · obtain ⟨early, late, takes, fine⟩ := (numbers_recognized _ _ _ _ _ _ _
      second behind negative).2 _ _ negative_spans
    refine ⟨early, late, takes, fun none => ?_⟩
    have strict : Strict false .integer ['0', '8', '_'] := fine.1 none
    simp [strict_integer_zero_iff] at strict

end Scanner

end BuildLexer
