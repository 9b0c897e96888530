/-
What is wrong with a number.

Where a numeral spans the front of what is ahead, the number that is read
is as long as the numeral, it is of its kind, and nothing is wrong with
it exactly when its text is strict (`readsAs_of_spans`). This is shown
for each form apart, because each has faults of its own: a number in
another base may have no digits or too large ones, a number that starts
with 0 is octal only if all its digits are (`WholeKind`), and a float has
several runs.
-/
import BuildLexer.Proofs.Literal.Findings
import BuildLexer.Proofs.Number.Strict

namespace BuildLexer

open Glyph Number

-- =============================================================== kinds

/-- Whether a text is 0 and further digits, all of them octal. -/
def isOctalText : List Char → Bool
  | '0' :: digits =>
    digits.any Char.isDigit && (digits.filter Char.isDigit).all isOctalChar
  | _ => false

/-- The kind of a number, directly before an `i` or not. -/
def Numeral.kind (beforeI : Bool) : Numeral → Literal
  | binary _ _ => .binary
  | hexadecimal _ _ => .hexadecimal
  | decimal mantissa none none =>
    if !beforeI && isOctalText mantissa then .octal else .integer
  | decimal _ _ _ => .float

/-- What is read of a numeral, from an offset on. -/
structure ReadsAs (n : Numeral) (start : Nat) (beforeI : Bool)
    (number : Number) : Prop where
  kind : number.kind = n.kind beforeI
  length : number.length = start + n.text.length
  faults : number.early ++ number.late = []
    ↔ Strict beforeI (n.kind beforeI) n.text

/-- Whether an `i` is next. -/
def beforeI (rest : List Glyph) : Bool := rest.head? == some (scalar 'i')

-- ========================================================= other bases

variable {rest src : List Glyph} {start : Nat}

/-- A number that is one run has no fault when its digits are in groups
and nothing is wrong with the whole. -/
theorem faults_run_iff {isDigit : Char → Bool}
    (mark : isDigit '_' = false) {text : List Char}
    (run : IsRun isDigit text) (start : Nat) (whole : List Finding) :
    (⟨start, written text⟩ : Run).doubled
        ++ ((⟨start, written text⟩ : Run).dangling ++ whole) = []
      ↔ Groups isDigit text ∧ whole = [] := by
  rw [← clean_iff_groups mark run start, ← List.append_assoc,
    List.append_eq_nil_iff, List.append_eq_nil_iff]
  rfl

/-- A text has a digit when its glyphs have one. -/
theorem any_written {isDigit : Glyph → Bool} {isChar : Char → Bool}
    (same : SameDigits isDigit isChar) (text : List Char) :
    (written text).any isDigit = text.any isChar := by
  unfold written
  rw [List.any_map]
  exact congrArg text.any (funext same.scalar)

/-- A run stops as many glyphs behind its start as it has. -/
theorem stop_written (start : Nat) (text : List Char) :
    (⟨start, written text⟩ : Run).stop = start + text.length := by
  unfold Run.stop
  rw [length_written]

/-- A number of the binary system, which is at fault without a digit and at
a digit above 1. -/
theorem readsAs_binary {digits : List Char} (capital : Bool)
    (run : IsRun Char.isDigit digits) (ends : EndsRun Char.isDigit rest) :
    ReadsAs (.binary capital digits) start (beforeI rest)
      (Number.read start
        (written (Numeral.binary capital digits).text ++ rest)) := by
  rw [read_binary capital run ends]
  refine ⟨rfl, ?_, ?_⟩
  · show Run.stop _ = start + (digits.length + 2)
    rw [stop_written]
    omega
  · show _ ↔ Strict _ .binary _
    dsimp only
    rw [faults_run_iff rfl run, strict_binary_iff,
      groups_base_iff digitsOf_binary (start + 2), and_assoc]
    refine and_congr_right fun groups => ?_
    rw [any_written sameDigits_decimal, ← groups.any_iff]
    cases digits.any Char.isDigit with
    | false => simp
    | true => simp

/-- A hexadecimal number, which is at fault without a digit. -/
theorem readsAs_hexadecimal {digits : List Char} (capital : Bool)
    (run : IsRun isHexChar digits) (ends : EndsRun isHexChar rest) :
    ReadsAs (.hexadecimal capital digits) start (beforeI rest)
      (Number.read start
        (written (Numeral.hexadecimal capital digits).text ++ rest)) := by
  rw [read_hexadecimal capital run ends]
  refine ⟨rfl, ?_, ?_⟩
  · show Run.stop _ = start + (digits.length + 2)
    rw [stop_written]
    omega
  · show _ ↔ Strict _ .hexadecimal _
    dsimp only
    rw [faults_run_iff rfl run, strict_hexadecimal_iff]
    refine and_congr_right fun groups => ?_
    rw [any_written sameDigits_hexadecimal, ← groups.any_iff]
    cases digits.any isHexChar with
    | false => simp
    | true => simp

-- ======================================================= whole numbers

/-- The 0 at the front is no digit that is too large. -/
theorem tooLarge?_zero_iff (start : Nat) (digits : List Char) :
    (⟨start, written ('0' :: digits)⟩ : Run).tooLarge? 8 = none
      ↔ (⟨start + 1, written digits⟩ : Run).tooLarge? 8 = none := by
  rw [tooLarge?_eq_none_iff digitsOf_octal,
    tooLarge?_eq_none_iff digitsOf_octal, List.forall_mem_cons]
  exact and_iff_right fun _ => rfl

/-- 0 and further digits are octal if none of them is too large. -/
theorem isOctalText_zero_iff (start : Nat) (digits : List Char) :
    isOctalText ('0' :: digits) = true
      ↔ digits.any Char.isDigit = true
        ∧ (⟨start, written ('0' :: digits)⟩ : Run).tooLarge? 8 = none := by
  rw [tooLarge?_zero_iff, tooLarge?_eq_none_iff digitsOf_octal, isOctalText,
    Bool.and_eq_true_iff, List.all_eq_true]
  simp only [List.mem_filter, and_imp]

/-- What is decided about a whole number: its kind, and whether more than
the place of a separator is wrong with it. -/
structure WholeKind (mantissa : List Char) (beforeI : Bool)
    (decided : Literal × List Finding) : Prop where
  kind : decided.1 = (Numeral.decimal mantissa none none).kind beforeI
  faults : Groups Char.isDigit mantissa ∧ decided.2 = []
    ↔ Strict beforeI decided.1 mantissa

namespace WholeKind

variable {digits : List Char}

/-- Before an `i` the number is decimal, and 0 may stand at its front. -/
theorem before_i (digits : List Char) :
    WholeKind ('0' :: digits) true (.integer, []) where
  kind := rfl
  faults := by
    rw [groups_cons_iff rfl rfl, strict_integer_zero_iff]
    constructor
    · exact fun h => .inr ⟨rfl, h.1⟩
    · rintro (rfl | h)
      · exact ⟨.nil, rfl⟩
      · exact ⟨h.2, rfl⟩

/-- Without another digit it is 0 with separators. -/
theorem alone (none : digits.any Char.isDigit = false) :
    WholeKind ('0' :: digits) false (.integer, []) where
  kind := by
    show _ = if _ && (digits.any _ && _) then _ else _
    rw [none]
    rfl
  faults := by
    rw [groups_cons_iff rfl rfl, strict_integer_zero_iff]
    constructor
    · rintro ⟨groups, -⟩
      have empty := mt groups.any_iff.2 (Bool.eq_false_iff.1 none)
      exact .inl (not_not.1 empty)
    · rintro (rfl | ⟨h, -⟩)
      · exact ⟨.nil, rfl⟩
      · cases h

/-- With further digits that are all octal it is octal. -/
theorem octal {start : Nat} (any : digits.any Char.isDigit = true)
    (fit : (⟨start, written ('0' :: digits)⟩ : Run).tooLarge? 8 = none) :
    WholeKind ('0' :: digits) false (.octal, []) where
  kind := by
    have inside := (isOctalText_zero_iff start digits).2 ⟨any, fit⟩
    show _ = if _ && isOctalText _ then _ else _
    rw [inside]
    rfl
  faults := by
    have some : digits ≠ [] := by
      rintro rfl
      cases any
    rw [tooLarge?_zero_iff] at fit
    rw [groups_cons_iff rfl rfl, strict_octal_iff,
      groups_base_iff digitsOf_octal (start + 1)]
    simp [fit, some]

/-- A digit too large for an octal number makes it a faulty decimal. -/
theorem tooLarge {start offset : Nat} {finding : Finding}
    (any : digits.any Char.isDigit = true)
    (large : (⟨start, written ('0' :: digits)⟩ : Run).tooLarge? 8
      = some offset) :
    WholeKind ('0' :: digits) false (.integer, [finding]) where
  kind := by
    have other : isOctalText ('0' :: digits) = false := by
      rw [Bool.eq_false_iff, ne_eq, isOctalText_zero_iff start, large]
      exact fun h => Option.some_ne_none _ h.2
    show _ = if _ && isOctalText _ then _ else _
    rw [other]
    rfl
  faults := by
    have some : digits ≠ [] := by
      rintro rfl
      cases any
    rw [groups_cons_iff rfl rfl, strict_integer_zero_iff]
    simp [some]

/-- A number that starts with another digit is decimal. -/
theorem of_ne_zero {d : Digit} (other : d.char ≠ '0') (beforeI : Bool) :
    WholeKind (d.char :: digits) beforeI (.integer, []) where
  kind := by
    have octal : isOctalText (d.char :: digits) = false := by
      unfold isOctalText
      split
      next same => exact absurd (List.cons.inj same).1 other
      next => rfl
    show _ = if _ && isOctalText _ then _ else _
    rw [octal, Bool.and_false]
    rfl
  faults := by
    have digit : d.char.isDigit = true := d.isDigit_char
    rw [strict_integer_iff digit other, groups_cons_iff rfl digit]
    exact and_iff_left rfl

end WholeKind

/-- What is decided about a number that starts with 0. -/
theorem zeroKind_written (start : Nat) (digits : List Char)
    (rest : List Glyph) :
    WholeKind ('0' :: digits) (beforeI rest)
      (zeroKind ⟨start, written ('0' :: digits)⟩ rest) := by
  have before : rest.head? = some (scalar 'i') ↔ beforeI rest = true :=
    beq_iff_eq.symm
  have further : ((⟨start, written ('0' :: digits)⟩ : Run).glyphs.drop 1).any
      Glyph.isDigit = digits.any Char.isDigit :=
    any_written sameDigits_decimal digits
  unfold zeroKind
  rw [further, if_congr (or_congr before Iff.rfl) rfl rfl]
  cases beforeI rest with
  | true => exact .before_i digits
  | false =>
      cases any : digits.any Char.isDigit with
      | false => exact .alone any
      | true =>
          cases large : (⟨start, written ('0' :: digits)⟩ : Run).tooLarge? 8
          with
          | none => exact .octal any large
          | some offset => exact .tooLarge any large

/-- What is decided about any whole number. -/
theorem wholeKind_mantissa {mantissa : List Char} (run : DigitRun mantissa)
    (start : Nat) (rest : List Glyph) :
    WholeKind mantissa (beforeI rest)
      (if mantissa.head? = some '0' then
        zeroKind ⟨start, written mantissa⟩ rest
      else (.integer, [])) := by
  obtain ⟨d, digits, rfl, -⟩ := run.exists_cons
  rw [List.head?_cons]
  by_cases zero : d.char = '0'
  · rw [zero, if_pos rfl]
    exact zeroKind_written start digits rest
  · rw [if_neg fun first => zero (Option.some.inj first)]
    exact .of_ne_zero zero _

/-- A number without fraction and exponent. -/
theorem readsAs_whole {mantissa : List Char}
    (proper : (Numeral.decimal mantissa none none).Proper)
    (stops : (Numeral.decimal mantissa none none).Stops rest) :
    ReadsAs (.decimal mantissa none none) start (beforeI rest)
      (Number.read start
        (written (Numeral.decimal mantissa none none).text ++ rest)) := by
  have text : (Numeral.decimal mantissa none none).text = mantissa :=
    List.append_nil mantissa
  have decided := wholeKind_mantissa proper.1 start rest
  rw [read_whole proper stops]
  refine ⟨decided.kind, ?_, ?_⟩
  · rw [text]
    exact stop_written start mantissa
  · rw [text, ← decided.kind, ← decided.faults]
    exact faults_run_iff rfl proper.1.all start _

-- ============================================================== floats

/-- Some runs have no fault, early or late, when all are clean. -/
theorem faults_runs_iff {r : Run} {runs : List Run} :
    earlyOf (r :: runs) ++ lateOf (r :: runs) = []
      ↔ ∀ x ∈ r :: runs, x.Clean := by
  induction runs generalizing r with
  | nil =>
      rw [List.append_eq_nil_iff, List.forall_mem_singleton]
      rfl
  | cons r' runs ih =>
      have late : lateOf (r :: r' :: runs) = lateOf (r' :: runs) := by
        unfold lateOf
        rw [List.getLast?_cons_cons]
      rw [late, List.forall_mem_cons, ← ih]
      show r.doubled ++ r.dangling ++ earlyOf (r' :: runs) ++ _ = [] ↔ _
      rw [List.append_assoc, List.append_eq_nil_iff,
        List.append_eq_nil_iff (p := r.doubled)]
      rfl

section Floats

variable {mantissa : List Char} {fraction : Option (List Char)}
  {exponent : Option Exponent}

/-- The runs of an exponent stop where its text does. -/
theorem stopOf_exponentRuns (start : Nat) (exponent : Option Exponent) :
    stopOf start (exponentRuns start exponent)
      = start + (exponentText exponent).length := by
  cases exponent with
  | none => rfl
  | some e =>
      show start + e.front.length + (written e.digits).length
        = start + (e.front ++ e.digits).length
      rw [length_written, List.length_append, Nat.add_assoc]

/-- The run of digits is clean when they are in groups. -/
theorem clean_iff_digitGroups {text : List Char} (run : DigitRun text)
    (start : Nat) :
    (⟨start, written text⟩ : Run).Clean ↔ DigitGroups text := by
  rw [digitGroups_iff run, clean_iff_groups rfl run.all]

/-- The run of a fraction is clean when its digits are in groups. -/
theorem clean_fractionRuns_iff
    (run : ∀ digits ∈ fraction, DigitRun digits) (start : Nat) :
    (∀ r ∈ fractionRuns start fraction, r.Clean)
      ↔ ∀ digits ∈ fraction, DigitGroups digits := by
  cases fraction with
  | none => exact iff_of_true nofun nofun
  | some digits =>
      have clean := clean_iff_digitGroups (run digits rfl) (start + 1)
      simpa [fractionRuns] using clean

theorem clean_exponentRuns_iff
    (run : ∀ e ∈ exponent, DigitRun e.digits) (start : Nat) :
    (∀ r ∈ exponentRuns start exponent, r.Clean)
      ↔ ∀ e ∈ exponent, DigitGroups e.digits := by
  cases exponent with
  | none => exact iff_of_true nofun nofun
  | some e =>
      have clean := clean_iff_digitGroups (run e rfl) (start + e.front.length)
      simpa [exponentRuns] using clean

/-- What is found late does not depend on the first of several runs. -/
theorem lateOf_cons (r : Run) {runs : List Run} (some : runs ≠ []) :
    lateOf (r :: runs) = lateOf runs := by
  obtain ⟨r', runs, rfl⟩ := List.exists_cons_of_ne_nil some
  unfold lateOf
  rw [List.getLast?_cons_cons]

/-- With a fraction or an exponent a number is a float. -/
theorem kind_of_float (mantissa : List Char)
    (float : fraction ≠ none ∨ exponent ≠ none) (beforeI : Bool) :
    (Numeral.decimal mantissa fraction exponent).kind beforeI = .float := by
  cases fraction with
  | some digits => rfl
  | none =>
      cases exponent with
      | some e => rfl
      | none => simp at float

/-- A float, of which every run is at fault for itself. -/
theorem readsAs_float
    (proper : (Numeral.decimal mantissa fraction exponent).Proper)
    (stops : (Numeral.decimal mantissa fraction exponent).Stops rest)
    (float : fraction ≠ none ∨ exponent ≠ none) :
    ReadsAs (.decimal mantissa fraction exponent) start (beforeI rest)
      (Number.read start
        (written (Numeral.decimal mantissa fraction exponent).text
          ++ rest)) := by
  obtain ⟨runs, further⟩ : ∃ runs, runs
      = fractionRuns (start + mantissa.length) fraction
        ++ exponentRuns (start + mantissa.length
          + (fractionText fraction).length) exponent := ⟨_, rfl⟩
  have nonempty : runs ≠ [] := by
    rw [further]
    cases fraction with
    | some digits => exact List.cons_ne_nil _ _
    | none =>
        cases exponent with
        | some e => exact List.cons_ne_nil _ _
        | none => simp at float
  have begins := stop_written start mantissa
  rw [read_float proper stops rfl (by rw [begins]; exact further) nonempty]
  have kind := kind_of_float mantissa float (beforeI rest)
  refine ⟨kind.symm, ?_, ?_⟩
  · show stopOf _ runs = _
    rw [begins, further, stopOf_append, stopOf_fractionRuns,
      stopOf_exponentRuns, Numeral.text, List.length_append,
      List.length_append]
    omega
  · show _ ++ lateOf runs = [] ↔ _
    rw [← lateOf_cons ⟨start, written mantissa⟩ nonempty, faults_runs_iff,
      kind, strict_float_iff proper, List.forall_mem_cons, further,
      List.forall_mem_append, clean_iff_digitGroups proper.1,
      clean_fractionRuns_iff proper.2.1, clean_exponentRuns_iff proper.2.2]

end Floats

/-- What is read of a numeral. -/
theorem readsAs_of_spans {n : Numeral} (spans : n.Spans src rest)
    (start : Nat) :
    ReadsAs n start (beforeI rest) (Number.read start src) := by
  obtain ⟨rfl, proper, stops⟩ := spans
  cases n with
  | binary capital digits => exact readsAs_binary capital proper stops
  | hexadecimal capital digits =>
      exact readsAs_hexadecimal capital proper stops
  | decimal mantissa fraction exponent =>
      by_cases float : fraction ≠ none ∨ exponent ≠ none
      · exact readsAs_float proper stops float
      · obtain ⟨rfl, rfl⟩ : fraction = none ∧ exponent = none := by
          simpa using float
        exact readsAs_whole proper stops

end BuildLexer
