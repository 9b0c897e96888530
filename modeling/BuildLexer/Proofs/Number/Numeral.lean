/-
Numerals: how far a number reaches.

A numeral is a number as it stands in a source, as a tree of its runs of
digits and separators (`Numeral`). It spans the front of some glyphs when
it is written there and they do not go on with it (`Numeral.Spans`): each
run takes all the digits and separators there are, and what could be the
mark of a base, a fraction or an exponent is not left behind. Nothing is
asked of where separators stand or whether digits are those of the base;
that decides about faults only.

At a digit there is always a numeral (`exists_spans`).
-/
import BuildLexer.Literal.Number
import BuildLexer.Proofs.Literal.Digits

namespace BuildLexer

open Glyph

-- ================================================ digits and separators

/-- Whether a character is a hexadecimal digit. -/
def isHexChar (c : Char) : Bool :=
  c.isDigit || "abcdefABCDEF".toList.contains c

/-- Whether a character can be in a run of some digits. -/
def inRun (isDigit : Char → Bool) (c : Char) : Bool := c == '_' || isDigit c

/-- A run of some digits and separators. -/
def IsRun (isDigit : Char → Bool) (text : List Char) : Prop :=
  ∀ c ∈ text, inRun isDigit c = true

/-- A run of decimal digits and separators, of which the first is a
digit. -/
structure DigitRun (text : List Char) : Prop where
  first : text.head?.any Char.isDigit = true
  all : IsRun Char.isDigit text

/-- What follows a run does not belong to it. -/
def EndsRun (isDigit : Char → Bool) (rest : List Glyph) : Prop :=
  ∀ c, rest.head? = some (scalar c) → inRun isDigit c = false

-- ============================================================ numerals

/-- An exponent: its mark, a sign or none, and its digits. -/
structure Exponent where
  capital : Bool
  /-- Whether a sign is a minus. -/
  sign : Option Bool
  digits : List Char
  deriving DecidableEq

/-- A number as it is written, without its sign. -/
inductive Numeral where
  | binary (capital : Bool) (digits : List Char)
  | hexadecimal (capital : Bool) (digits : List Char)
  | decimal (mantissa : List Char) (fraction : Option (List Char))
      (exponent : Option Exponent)
  deriving DecidableEq

def fractionText : Option (List Char) → List Char
  | none => []
  | some digits => '.' :: digits

namespace Exponent

/-- The mark and the sign. -/
def front (e : Exponent) : List Char :=
  (if e.capital then 'E' else 'e') ::
    match e.sign with
    | none => []
    | some minus => [if minus then '-' else '+']

def text (e : Exponent) : List Char := e.front ++ e.digits

end Exponent

def exponentText : Option Exponent → List Char
  | none => []
  | some e => e.text

namespace Numeral

def text : Numeral → List Char
  | binary capital digits => '0' :: (if capital then 'B' else 'b') :: digits
  | hexadecimal capital digits =>
    '0' :: (if capital then 'X' else 'x') :: digits
  | decimal mantissa fraction exponent =>
    mantissa ++ (fractionText fraction ++ exponentText exponent)

/-- The text of a decimal is its parts, one behind the other. -/
theorem written_decimal (mantissa : List Char)
    (fraction : Option (List Char)) (exponent : Option Exponent)
    (rest : List Glyph) :
    written (decimal mantissa fraction exponent).text ++ rest
      = written mantissa ++ (written (fractionText fraction)
        ++ (written (exponentText exponent) ++ rest)) := by
  simp [text]

/-- Runs are made of the digits that they may hold. -/
def Proper : Numeral → Prop
  | binary _ digits => IsRun Char.isDigit digits
  | hexadecimal _ digits => IsRun isHexChar digits
  | decimal mantissa fraction exponent =>
    DigitRun mantissa ∧ (∀ digits ∈ fraction, DigitRun digits)
      ∧ ∀ e ∈ exponent, DigitRun e.digits

end Numeral

-- =========================================================== the longest

/-- A point and a digit. -/
def BeginsFraction (src : List Glyph) : Prop :=
  ∃ d rest, src = scalar '.' :: d :: rest ∧ d.isDigit = true

/-- A mark, a sign or none, and a digit. -/
def BeginsExponent (src : List Glyph) : Prop :=
  ∃ (e : Exponent) (d : Glyph) (rest : List Glyph),
    src = written e.front ++ d :: rest ∧ d.isDigit = true

namespace Numeral

/-- Glyphs that do not go on with a numeral. -/
def Stops (rest : List Glyph) : Numeral → Prop
  | binary _ _ => EndsRun Char.isDigit rest
  | hexadecimal _ _ => EndsRun isHexChar rest
  | decimal mantissa fraction exponent =>
    EndsRun Char.isDigit rest
      ∧ (exponent = none → ¬ BeginsExponent rest)
      ∧ (fraction = none → exponent = none → ¬ BeginsFraction rest
        ∧ (mantissa = ['0'] →
          ∀ mark ∈ ['b', 'B', 'x', 'X'], rest.head? ≠ some (scalar mark)))

/-- A numeral at the front of some glyphs, and no longer one. -/
structure Spans (n : Numeral) (src rest : List Glyph) : Prop where
  front : src = written n.text ++ rest
  proper : n.Proper
  stops : n.Stops rest

end Numeral

-- ================================================================ runs

/-- Glyphs and characters that are digits of a kind. -/
structure SameDigits (isDigit : Glyph → Bool) (isChar : Char → Bool) :
    Prop where
  scalar : ∀ c, isDigit (scalar c) = isChar c
  broken : ∀ b, isDigit (broken b) = false

theorem sameDigits_decimal : SameDigits Glyph.isDigit Char.isDigit :=
  ⟨fun _ => rfl, fun _ => rfl⟩

/-- Hexadecimal digits are ASCII characters, so the two tests agree. -/
theorem isHexDigit_ascii {n : Nat} (h : n < 0x80) :
    Number.isHexDigit (scalar (Char.ofNat n))
      = isHexChar (Char.ofNat n) := by
  revert n
  decide +kernel

theorem sameDigits_hexadecimal :
    SameDigits Number.isHexDigit isHexChar where
  scalar := by
    intro c
    by_cases small : c.toNat < 0x80
    · have same := isHexDigit_ascii small
      rwa [Char.ofNat_toNat] at same
    · have foreign : Foreign (scalar c) := by
        intro d hd same
        obtain rfl := scalar.inj same
        exact small hd
      have digit : c.isDigit = false := isDigit_foreign foreign
      have letter : "abcdefABCDEF".toList.contains c = false := by
        rw [Bool.eq_false_iff]
        intro hc
        have low : ∀ d ∈ "abcdefABCDEF".toList, d.toNat < 0x80 :=
          forall_mem_of_all (by decide)
        exact small (low c (List.contains_iff_mem.1 hc))
      unfold Number.isHexDigit isHexChar
      rw [digitValue?_foreign foreign, digit, letter]
      rfl
  broken := by
    intro b
    show Number.isHexDigit (Glyph.scalar '\uFFFD') = false
    decide

section Runs

variable {isDigit : Glyph → Bool} {isChar : Char → Bool}
  {text : List Char} {src rest : List Glyph}

/-- A run takes a text of its digits up to what does not belong to it. -/
theorem runOf_written (same : SameDigits isDigit isChar)
    (run : IsRun isChar text) (ends : EndsRun isChar rest) :
    Number.runOf isDigit (written text ++ rest) = written text := by
  have test (c : Char) : (scalar c == Number.separator || isDigit (scalar c))
      = inRun isChar c := by
    have mark : (scalar c == Number.separator) = (c == '_') := by
      rw [Bool.eq_iff_iff, beq_iff_eq, beq_iff_eq]
      exact Iff.of_eq (scalar.injEq c '_')
    rw [mark, same.scalar]
    rfl
  unfold Number.runOf
  apply takeWhile_append_of_stop
  · intro g hg
    obtain ⟨c, hc, rfl⟩ := List.mem_map.1 hg
    rw [test]
    exact run c hc
  · intro g first
    cases g with
    | scalar c =>
        rw [test]
        exact ends c first
    | broken b =>
        rw [same.broken]
        rfl

/-- At the front of any glyphs there is a run, which may be empty. -/
theorem exists_run (isChar : Char → Bool) (src : List Glyph) :
    ∃ text rest, src = written text ++ rest ∧ IsRun isChar text
      ∧ EndsRun isChar rest := by
  induction src with
  | nil => exact ⟨[], [], rfl, nofun, nofun⟩
  | cons g src ih =>
      by_cases member : ∃ c, g = scalar c ∧ inRun isChar c = true
      · obtain ⟨c, rfl, inside⟩ := member
        obtain ⟨text, rest, rfl, run, ends⟩ := ih
        exact ⟨c :: text, rest, rfl, List.forall_mem_cons.2 ⟨inside, run⟩,
          ends⟩
      · refine ⟨[], g :: src, rfl, nofun, fun c first => ?_⟩
        rw [Bool.eq_false_iff]
        exact fun inside => member ⟨c, Option.some.inj first, inside⟩

/-- At a digit there is a run that begins with it. -/
theorem exists_digitRun (digit : src.head?.any Glyph.isDigit = true) :
    ∃ text rest, src = written text ++ rest ∧ DigitRun text
      ∧ EndsRun Char.isDigit rest := by
  obtain ⟨text, rest, rfl, run, ends⟩ := exists_run Char.isDigit src
  refine ⟨text, rest, rfl, ⟨?_, run⟩, ends⟩
  cases text with
  | cons c text => exact digit
  | nil =>
      cases rest with
      | nil => cases digit
      | cons g rest =>
          obtain ⟨d, rfl⟩ := exists_of_isDigit digit
          have outside := ends _ rfl
          have inside : inRun Char.isDigit d.char = true := by
            unfold inRun
            rw [show d.char.isDigit = true from d.isDigit_char,
              Bool.or_true]
          rw [inside] at outside
          cases outside

/-- A run of digits begins with a digit. -/
theorem DigitRun.exists_cons (h : DigitRun text) :
    ∃ d : Digit, ∃ more, text = d.char :: more ∧ IsRun Char.isDigit more := by
  cases text with
  | nil => exact absurd h.first (by decide)
  | cons c text =>
      obtain ⟨d, same⟩ := exists_of_isDigit (g := scalar c) h.first
      obtain rfl := scalar.inj same
      exact ⟨d, text, rfl, (List.forall_mem_cons.1 h.all).2⟩

end Runs

-- =========================================================== existence

variable {src : List Glyph}

/-- Behind a mantissa there is a fraction, or none begins. -/
theorem exists_fractionText (ends : EndsRun Char.isDigit src) :
    ∃ fraction rest, src = written (fractionText fraction) ++ rest
      ∧ (∀ digits ∈ fraction, DigitRun digits)
      ∧ EndsRun Char.isDigit rest
      ∧ (fraction = none → ¬ BeginsFraction rest) := by
  by_cases begins : BeginsFraction src
  · obtain ⟨d, more, rfl, digit⟩ := begins
    have first : (d :: more).head?.any Glyph.isDigit = true := digit
    obtain ⟨text, rest, split, run, ends⟩ := exists_digitRun first
    refine ⟨some text, rest, ?_, ?_, ends, nofun⟩
    · rw [split]
      rfl
    · rintro _ ⟨⟩
      exact run
  · exact ⟨none, src, rfl, nofun, ends, fun _ => begins⟩

/-- Behind that there is an exponent, or none begins. -/
theorem exists_exponentText (ends : EndsRun Char.isDigit src) :
    ∃ exponent rest, src = written (exponentText exponent) ++ rest
      ∧ (∀ e ∈ exponent, DigitRun e.digits)
      ∧ EndsRun Char.isDigit rest
      ∧ (exponent = none → ¬ BeginsExponent rest) := by
  by_cases begins : BeginsExponent src
  · obtain ⟨e, d, more, rfl, digit⟩ := begins
    have first : (d :: more).head?.any Glyph.isDigit = true := digit
    obtain ⟨text, rest, split, run, ends⟩ := exists_digitRun first
    refine ⟨some { e with digits := text }, rest, ?_, ?_, ends, nofun⟩
    · rw [split, ← List.append_assoc, ← written_append]
      rfl
    · rintro _ ⟨⟩
      exact run
  · exact ⟨none, src, rfl, nofun, ends, fun _ => begins⟩

/-- At a digit there is a numeral. -/
theorem exists_spans (digit : src.head?.any Glyph.isDigit = true) :
    ∃ n rest, Numeral.Spans n src rest := by
  by_cases binary : ∃ (capital : Bool) (more : List Glyph),
      src = scalar '0' :: scalar (if capital then 'B' else 'b') :: more
  · obtain ⟨capital, more, rfl⟩ := binary
    obtain ⟨text, rest, rfl, run, ends⟩ := exists_run Char.isDigit more
    exact ⟨.binary capital text, rest, rfl, run, ends⟩
  by_cases hexadecimal : ∃ (capital : Bool) (more : List Glyph),
      src = scalar '0' :: scalar (if capital then 'X' else 'x') :: more
  · obtain ⟨capital, more, rfl⟩ := hexadecimal
    obtain ⟨text, rest, rfl, run, ends⟩ := exists_run isHexChar more
    exact ⟨.hexadecimal capital text, rest, rfl, run, ends⟩
  obtain ⟨mantissa, behind, rfl, run, ends⟩ := exists_digitRun digit
  obtain ⟨fraction, behind, rfl, fractionRun, ends, noFraction⟩ :=
    exists_fractionText ends
  obtain ⟨exponent, rest, rfl, exponentRun, ends, noExponent⟩ :=
    exists_exponentText ends
  refine ⟨.decimal mantissa fraction exponent, rest, ?_,
    ⟨run, fractionRun, exponentRun⟩, ends, noExponent, ?_⟩
  · rw [Numeral.written_decimal]
  · rintro rfl rfl
    refine ⟨noFraction rfl, ?_⟩
    rintro rfl mark hm first
    obtain ⟨more, rfl⟩ := List.head?_eq_some_iff.1 first
    rcases List.mem_cons.1 hm with rfl | hm
    · exact binary ⟨false, more, rfl⟩
    rcases List.mem_cons.1 hm with rfl | hm
    · exact binary ⟨true, more, rfl⟩
    rcases List.mem_cons.1 hm with rfl | hm
    · exact hexadecimal ⟨false, more, rfl⟩
    · obtain rfl := List.mem_singleton.1 hm
      exact hexadecimal ⟨true, more, rfl⟩

end BuildLexer
