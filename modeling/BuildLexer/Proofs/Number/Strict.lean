/-
The strict grammar of numbers.

A number is written as it should be when each separator stands between
two digits, and all digits are those of the base (`Strict`). Which base
that is depends on the kind of the number: 0 goes on with octal digits,
unless the number is directly followed by an `i`.

A run has no doubled and no dangling separator exactly when it is made of
digits that are separated once at most (`clean_iff_groups`), and no digit
is too large for a base exactly when all are digits of it
(`groups_base_iff`). For each kind there is a lemma that says what strict
means for a numeral. For a float it needs that a text cannot be taken
apart in two ways (`runs_unique`).
-/
import BuildLexer.Proofs.Number.Reading

namespace BuildLexer

open Glyph Number

-- ============================================================== groups

/-- Digits with a separator before each of them or not: `(_?d)*`. -/
inductive Groups (isDigit : Char → Bool) : List Char → Prop
  | nil : Groups isDigit []
  | digit {c : Char} {text : List Char} : isDigit c = true →
      Groups isDigit text → Groups isDigit (c :: text)
  | separated {c : Char} {text : List Char} : isDigit c = true →
      Groups isDigit text → Groups isDigit ('_' :: c :: text)

/-- A decimal digit and more of them, in groups: `d(_?d)*`. -/
inductive DigitGroups : List Char → Prop
  | digits {c : Char} {text : List Char} : c.isDigit = true →
      Groups Char.isDigit text → DigitGroups (c :: text)

def isBinaryChar (c : Char) : Bool := c == '0' || c == '1'

def isOctalChar (c : Char) : Bool := "01234567".toList.contains c

/-- The texts of numbers as they should be, by kind, directly before an
`i` or not. -/
inductive Strict (beforeI : Bool) : Literal → List Char → Prop
  | binary (capital : Bool) {digits : List Char} :
      Groups isBinaryChar digits → digits ≠ [] →
      Strict beforeI .binary ('0' :: (if capital then 'B' else 'b') :: digits)
  | hexadecimal (capital : Bool) {digits : List Char} :
      Groups isHexChar digits → digits ≠ [] →
      Strict beforeI .hexadecimal
        ('0' :: (if capital then 'X' else 'x') :: digits)
  | octal {digits : List Char} :
      Groups isOctalChar digits → digits ≠ [] →
      Strict beforeI .octal ('0' :: digits)
  | zero : Strict beforeI .integer ['0']
  | integer {c : Char} {digits : List Char} : c.isDigit = true → c ≠ '0' →
      Groups Char.isDigit digits → Strict beforeI .integer (c :: digits)
  | zeros {digits : List Char} : beforeI = true →
      Groups Char.isDigit digits → digits ≠ [] →
      Strict beforeI .integer ('0' :: digits)
  | float {mantissa : List Char} {fraction : Option (List Char)}
      {exponent : Option Exponent} : DigitGroups mantissa →
      (∀ digits ∈ fraction, DigitGroups digits) →
      (∀ e ∈ exponent, DigitGroups e.digits) →
      Strict beforeI .float
        (mantissa ++ (fractionText fraction ++ exponentText exponent))

section Groups

variable {isDigit isLarger : Char → Bool} {c : Char} {text : List Char}

/-- A digit at the front changes nothing. -/
theorem groups_cons_iff (mark : isDigit '_' = false)
    (digit : isDigit c = true) :
    Groups isDigit (c :: text) ↔ Groups isDigit text := by
  constructor
  · intro h
    cases h with
    | digit _ later => exact later
    | separated =>
        rw [mark] at digit
        cases digit
  · exact .digit digit

/-- A separator at the front needs a digit behind it. -/
theorem groups_separator_iff (mark : isDigit '_' = false) :
    Groups isDigit ('_' :: c :: text)
      ↔ isDigit c = true ∧ Groups isDigit text := by
  constructor
  · intro h
    cases h with
    | digit digit =>
        rw [mark] at digit
        cases digit
    | separated digit later => exact ⟨digit, later⟩
  · exact fun h => .separated h.1 h.2

/-- A separator alone is in no group. -/
theorem not_groups_separator (mark : isDigit '_' = false) :
    ¬ Groups isDigit ['_'] := by
  rintro (_ | ⟨digit, _⟩)
  rw [mark] at digit
  cases digit

/-- What is in groups is a run. -/
theorem Groups.isRun (h : Groups isDigit text) : IsRun isDigit text := by
  have inside {c : Char} (digit : isDigit c = true) :
      inRun isDigit c = true := by
    unfold inRun
    rw [digit, Bool.or_true]
  induction h with
  | nil => exact nofun
  | digit digit _ ih => exact List.forall_mem_cons.2 ⟨inside digit, ih⟩
  | separated digit _ ih =>
      exact List.forall_mem_cons.2
        ⟨rfl, List.forall_mem_cons.2 ⟨inside digit, ih⟩⟩

/-- Groups hold a digit unless they are empty. -/
theorem Groups.any_iff (h : Groups isDigit text) :
    text.any isDigit = true ↔ text ≠ [] := by
  cases h with
  | nil => simp
  | digit digit => simp [digit]
  | separated digit => simp [digit]

/-- Groups of fewer digits are groups with only those in them. -/
theorem groups_iff_of_le (mark : isLarger '_' = false)
    (le : ∀ c, isDigit c = true → isLarger c = true) :
    Groups isDigit text ↔ Groups isLarger text
      ∧ ∀ c ∈ text, isLarger c = true → isDigit c = true := by
  constructor
  · intro h
    induction h with
    | nil => exact ⟨.nil, nofun⟩
    | digit digit _ ih =>
        exact ⟨.digit (le _ digit) ih.1,
          List.forall_mem_cons.2 ⟨fun _ => digit, ih.2⟩⟩
    | separated digit _ ih =>
        refine ⟨.separated (le _ digit) ih.1, List.forall_mem_cons.2
          ⟨fun larger => ?_, List.forall_mem_cons.2 ⟨fun _ => digit, ih.2⟩⟩⟩
        rw [mark] at larger
        cases larger
  · rintro ⟨h, only⟩
    induction h with
    | nil => exact .nil
    | digit larger _ ih =>
        rw [List.forall_mem_cons] at only
        exact .digit (only.1 larger) (ih only.2)
    | separated larger _ ih =>
        rw [List.forall_mem_cons, List.forall_mem_cons] at only
        exact .separated (only.2.1 larger) (ih only.2.2)

theorem DigitGroups.digitRun (h : DigitGroups text) : DigitRun text := by
  cases h with
  | digits digit later =>
      have whole : Groups Char.isDigit _ := .digit digit later
      exact ⟨digit, whole.isRun⟩

/-- In a run that begins with a digit, groups of digits are groups. -/
theorem digitGroups_iff (run : DigitRun text) :
    DigitGroups text ↔ Groups Char.isDigit text := by
  obtain ⟨d, more, rfl, -⟩ := run.exists_cons
  have digit : d.char.isDigit = true := d.isDigit_char
  rw [groups_cons_iff rfl digit]
  constructor
  · rintro ⟨-, later⟩
    exact later
  · exact .digits digit

end Groups

-- ============================================================ clean runs

/-- A run in which no separator is out of place. -/
def Number.Run.Clean (r : Run) : Prop := r.doubled = [] ∧ r.dangling = []

/-- A run is clean if no separator follows one or ends it. -/
theorem clean_iff {start : Nat} {gs : List Glyph} :
    (⟨start, gs⟩ : Run).Clean ↔ Run.doubledFrom start gs = []
      ∧ gs.getLast? ≠ some separator := by
  unfold Number.Run.Clean Run.doubled Run.dangling
  rw [List.map_eq_nil_iff]
  refine and_congr_right fun _ => ?_
  split
  next last => exact iff_of_false (List.cons_ne_nil _ _) fun h => h last
  next other => exact iff_of_true rfl other

section Clean

variable {start : Nat} {a : Glyph} {gs : List Glyph}

/-- Nothing is out of place at a digit. -/
theorem clean_cons_of_ne (digit : a ≠ separator) :
    (⟨start, a :: gs⟩ : Run).Clean ↔ (⟨start + 1, gs⟩ : Run).Clean := by
  rw [clean_iff, clean_iff]
  cases gs with
  | nil =>
      refine iff_of_true ⟨rfl, fun last => ?_⟩ ⟨rfl, nofun⟩
      exact digit (Option.some.inj last)
  | cons b gs =>
      rw [Run.doubledFrom, if_neg fun both => digit both.1,
        List.getLast?_cons_cons]

/-- A separator has to be followed by a digit. -/
theorem clean_separator_cons :
    (⟨start, separator :: gs⟩ : Run).Clean
      ↔ (∃ b ∈ gs.head?, b ≠ separator)
        ∧ (⟨start + 1, gs⟩ : Run).Clean := by
  rw [clean_iff, clean_iff]
  cases gs with
  | nil => exact iff_of_false (fun h => h.2 rfl) (by simp)
  | cons b gs =>
      rw [Run.doubledFrom, List.getLast?_cons_cons]
      by_cases doubled : b = separator
      · rw [if_pos ⟨rfl, doubled⟩]
        simp [doubled]
      · rw [if_neg fun both => doubled both.2]
        simp [doubled]

end Clean

/-- A run is clean when its digits are in groups. -/
theorem clean_iff_groups {isDigit : Char → Bool}
    (mark : isDigit '_' = false) {text : List Char}
    (run : IsRun isDigit text) (start : Nat) :
    (⟨start, written text⟩ : Run).Clean ↔ Groups isDigit text := by
  have other {c : Char} (digit : isDigit c = true) :
      scalar c ≠ separator := by
    intro same
    rw [scalar.inj same, mark] at digit
    cases digit
  induction text generalizing start with
  | nil => exact iff_of_true (clean_iff.2 ⟨rfl, nofun⟩) .nil
  | cons c text ih =>
      -- A digit is passed by; a separator is judged by what follows it.
      obtain ⟨first, later⟩ := List.forall_mem_cons.1 run
      have step : (⟨start + 1, written text⟩ : Run).Clean
          ↔ Groups isDigit text := ih later (start + 1)
      rcases Bool.or_eq_true_iff.1 first with separated | digit
      · obtain rfl : c = '_' := beq_iff_eq.1 separated
        show (⟨start, separator :: written text⟩ : Run).Clean ↔ _
        rw [clean_separator_cons, step]
        cases text with
        | nil => simp [not_groups_separator mark]
        | cons d text =>
            have second := (List.forall_mem_cons.1 later).1
            rw [groups_separator_iff mark]
            rcases Bool.or_eq_true_iff.1 second with doubled | digit
            · obtain rfl : d = '_' := beq_iff_eq.1 doubled
              simp [separator, mark]
            · simp [groups_cons_iff mark digit, digit, other digit]
      · rw [written_cons, clean_cons_of_ne (other digit), step,
          groups_cons_iff mark digit]

-- ========================================================= other bases

/-- The decimal digits that have a value in a smaller base. -/
structure DigitsOf (base : Nat) (isBase : Char → Bool) : Prop where
  decimal : ∀ c, isBase c = true → c.isDigit = true
  value : ∀ d : Digit,
    ((scalar d.char).digitValue? base).isNone = !isBase d.char

theorem digitsOf_binary : DigitsOf 2 isBinaryChar where
  decimal := by
    intro c hc
    rcases Bool.or_eq_true_iff.1 hc with zero | one
    · rw [beq_iff_eq.1 zero]
      rfl
    · rw [beq_iff_eq.1 one]
      rfl
  value := by decide

theorem digitsOf_octal : DigitsOf 8 isOctalChar where
  decimal := by
    intro c hc
    have digits : ∀ d ∈ "01234567".toList, d.isDigit = true :=
      forall_mem_of_all (by decide)
    exact digits c (List.contains_iff_mem.1 hc)
  value := by decide

section Bases

variable {base : Nat} {isBase : Char → Bool} {text : List Char}

/-- No digit is too large if all digits are digits of the base. -/
theorem tooLarge?_eq_none_iff (h : DigitsOf base isBase) (start : Nat) :
    (⟨start, written text⟩ : Run).tooLarge? base = none
      ↔ ∀ c ∈ text, c.isDigit = true → isBase c = true := by
  have test (c : Char) :
      ((scalar c).isDigit && ((scalar c).digitValue? base).isNone) = false
        ↔ (c.isDigit = true → isBase c = true) := by
    by_cases digit : c.isDigit = true
    · obtain ⟨d, same⟩ := exists_of_isDigit (g := scalar c) digit
      obtain rfl := scalar.inj same
      rw [d.isDigit_char, h.value d]
      simp [digit]
    · have other : (scalar c).isDigit = false := Bool.eq_false_iff.2 digit
      simp [digit, other]
  unfold Run.tooLarge? written
  rw [Option.map_eq_none_iff, List.findIdx?_eq_none_iff]
  simp only [List.forall_mem_map, test]

/-- Groups of the digits of a smaller base are groups in which no digit is
too large for it. -/
theorem groups_base_iff (h : DigitsOf base isBase) (start : Nat) :
    Groups isBase text ↔ Groups Char.isDigit text
      ∧ (⟨start, written text⟩ : Run).tooLarge? base = none := by
  rw [tooLarge?_eq_none_iff h, groups_iff_of_le rfl h.decimal]

end Bases

-- ====================================================== strict by kind

section Kinds

variable {beforeI : Bool} {digits : List Char}

/-- Strict is, in the binary system, what is in groups of its digits. -/
theorem strict_binary_iff (capital : Bool) :
    Strict beforeI .binary (Numeral.binary capital digits).text
      ↔ Groups isBinaryChar digits ∧ digits ≠ [] := by
  constructor
  · intro h
    generalize same : (Numeral.binary capital digits).text = text at h
    cases h with
    | binary _ groups some =>
        obtain rfl := (List.cons.inj (List.cons.inj same).2).2
        exact ⟨groups, some⟩
  · exact fun h => .binary capital h.1 h.2

/-- The same holds of hexadecimal numbers. -/
theorem strict_hexadecimal_iff (capital : Bool) :
    Strict beforeI .hexadecimal (Numeral.hexadecimal capital digits).text
      ↔ Groups isHexChar digits ∧ digits ≠ [] := by
  constructor
  · intro h
    generalize same : (Numeral.hexadecimal capital digits).text = text at h
    cases h with
    | hexadecimal _ groups some =>
        obtain rfl := (List.cons.inj (List.cons.inj same).2).2
        exact ⟨groups, some⟩
  · exact fun h => .hexadecimal capital h.1 h.2

/-- And of octal numbers, behind the 0. -/
theorem strict_octal_iff :
    Strict beforeI .octal ('0' :: digits)
      ↔ Groups isOctalChar digits ∧ digits ≠ [] := by
  constructor
  · rintro (_ | _ | ⟨groups, some⟩)
    exact ⟨groups, some⟩
  · exact fun h => .octal h.1 h.2

/-- A number that starts with 0 is strict as an integer if it is 0, and
before an `i`. -/
theorem strict_integer_zero_iff :
    Strict beforeI .integer ('0' :: digits)
      ↔ digits = []
        ∨ beforeI = true ∧ Groups Char.isDigit digits := by
  constructor
  · intro h
    cases h with
    | zero => exact .inl rfl
    | integer _ other => exact absurd rfl other
    | zeros before groups => exact .inr ⟨before, groups⟩
  · intro h
    by_cases empty : digits = []
    · rw [empty]
      exact .zero
    · obtain ⟨before, groups⟩ := h.resolve_left empty
      exact .zeros before groups empty

/-- A decimal that begins with another digit is strict in groups. -/
theorem strict_integer_iff {c : Char} (digit : c.isDigit = true)
    (other : c ≠ '0') :
    Strict beforeI .integer (c :: digits) ↔ Groups Char.isDigit digits := by
  constructor
  · intro h
    cases h with
    | zero => exact absurd rfl other
    | integer _ _ groups => exact groups
    | zeros => exact absurd rfl other
  · exact .integer digit other

end Kinds

-- ============================================================== floats

theorem stops_nil (n : Numeral) : n.Stops [] := by
  cases n with
  | binary => exact nofun
  | hexadecimal => exact nofun
  | decimal mantissa fraction exponent =>
      refine ⟨nofun, fun _ => ?_, fun _ _ => ⟨?_, fun _ _ _ => nofun⟩⟩
      · rintro ⟨e, d, rest, front, -⟩
        cases front
      · rintro ⟨d, rest, front, -⟩
        cases front

/-- A fraction can be told from its runs. -/
theorem fractionRuns_injective (start : Nat) :
    Function.Injective (fractionRuns start) := by
  intro a b same
  cases a <;> cases b
  · rfl
  · cases same
  · cases same
  · obtain ⟨run, -⟩ := List.cons.inj same
    exact congrArg some (written_inj.1 (Run.mk.inj run).2)

/-- The digits of an exponent can be told from its runs. -/
theorem digits_of_exponentRuns {start : Nat} {a b : Option Exponent}
    (same : exponentRuns start a = exponentRuns start b) :
    a.map Exponent.digits = b.map Exponent.digits := by
  cases a <;> cases b
  · rfl
  · cases same
  · cases same
  · obtain ⟨run, -⟩ := List.cons.inj same
    exact congrArg some (written_inj.1 (Run.mk.inj run).2)

section Floats

variable {mantissa mantissa' : List Char}
  {fraction fraction' : Option (List Char)}
  {exponent exponent' : Option Exponent}

/-- The runs of a number are read off its text. -/
theorem runs_written
    (proper : (Numeral.decimal mantissa fraction exponent).Proper) :
    runOf Glyph.isDigit
        (written (Numeral.decimal mantissa fraction exponent).text)
          = written mantissa
      ∧ fractionRun 0 (written (fractionText fraction
          ++ exponentText exponent)) = fractionRuns 0 fraction
      ∧ exponentRun 0 (written (exponentText exponent))
          = exponentRuns 0 exponent := by
  obtain ⟨ends, noExponent, unmarked⟩ :=
    stops_nil (.decimal mantissa fraction exponent)
  have behind := endsRun_exponentText exponent ends
  have mantissaRun := runOf_written sameDigits_decimal proper.1.all
    (endsRun_fractionText fraction behind)
  have unread : fraction = none →
      ¬ BeginsFraction (written (exponentText exponent) ++ []) := fun hf =>
    not_beginsFraction_exponentText fun he => (unmarked hf he).1
  have pointRun : fractionRun 0 _ = fractionRuns 0 fraction :=
    fractionRun_written proper.2.1 behind unread
  have markRun : exponentRun 0 _ = exponentRuns 0 exponent :=
    exponentRun_written proper.2.2 ends noExponent
  rw [List.append_nil] at mantissaRun pointRun markRun
  refine ⟨?_, ?_, markRun⟩
  · simpa [Numeral.text] using mantissaRun
  · simpa using pointRun

/-- A text is that of one number only: its runs are told apart by what
stands between them. -/
theorem runs_unique
    (proper : (Numeral.decimal mantissa fraction exponent).Proper)
    (proper' : (Numeral.decimal mantissa' fraction' exponent').Proper)
    (same : (Numeral.decimal mantissa fraction exponent).text
      = (Numeral.decimal mantissa' fraction' exponent').text) :
    mantissa = mantissa' ∧ fraction = fraction'
      ∧ exponent.map Exponent.digits = exponent'.map Exponent.digits := by
  -- Each run is the same in both, so what stands behind it is, too.
  have whole := (runs_written proper).1
  rw [same, (runs_written proper').1] at whole
  obtain rfl := written_inj.1 whole
  have behind := List.append_cancel_left same
  have point := (runs_written proper).2.1
  rw [behind, (runs_written proper').2.1] at point
  obtain rfl := fractionRuns_injective 0 point
  have mark := (runs_written proper).2.2
  rw [List.append_cancel_left behind, (runs_written proper').2.2] at mark
  exact ⟨rfl, rfl, (digits_of_exponentRuns mark).symm⟩

/-- A float is strict when each of its runs is. -/
theorem strict_float_iff {beforeI : Bool}
    (proper : (Numeral.decimal mantissa fraction exponent).Proper) :
    Strict beforeI .float (Numeral.decimal mantissa fraction exponent).text
      ↔ DigitGroups mantissa ∧ (∀ digits ∈ fraction, DigitGroups digits)
        ∧ ∀ e ∈ exponent, DigitGroups e.digits := by
  constructor
  · intro h
    generalize same :
      (Numeral.decimal mantissa fraction exponent).text = text at h
    cases h with
    | @float mantissa' fraction' exponent' first second third =>
        have proper' :
            (Numeral.decimal mantissa' fraction' exponent').Proper :=
          ⟨first.digitRun, fun digits hd => (second digits hd).digitRun,
            fun e he => (third e he).digitRun⟩
        obtain ⟨rfl, rfl, digits⟩ := runs_unique proper proper' same
        refine ⟨first, second, fun e he => ?_⟩
        obtain rfl : exponent = some e := he
        obtain ⟨e', rfl, equal⟩ := Option.map_eq_some_iff.1 digits.symm
        rw [← equal]
        exact third e' rfl
  · exact fun h => .float h.1 h.2.1 h.2.2

end Floats

end BuildLexer
