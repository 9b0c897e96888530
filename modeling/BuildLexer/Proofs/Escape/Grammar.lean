/-
Escapes by their grammar.

An escape is one character, one to three octal digits, or a letter with a
fixed number of hexadecimal digits (`Escape.Form`). The numbers that the
digits write are limited (`IsEscape`); what belongs to a form is not told
by its number. A text is accepted where it begins a form and goes on with
no character that belongs to it (`Accepts`).

Behind every backslash there is one text that is accepted. The reader
takes it, as an escape exactly if it is one (`exists_verdict`,
`Accepts.unique`). The forms are told apart by their first character
(`Form.first`), and each of them by its digits and how many they are.
-/
import BuildLexer.Literal.Escape
import BuildLexer.Proofs.Literal.Digits
import BuildLexer.Proofs.Literal.Findings
import Mathlib.Data.List.Induction
import Mathlib.Data.Nat.Digits.Defs

namespace BuildLexer

open Glyph

namespace Escape

-- =============================================================== grammar

/-- The characters that make an escape alone. -/
def singleChars : List Char := "abfnrtv\\$\"".toList

def octalChars : List Char := "01234567".toList

def hexChars : List Char := "0123456789abcdefABCDEF".toList

/-- How many hexadecimal digits follow a letter. -/
def digitsAfter : Char → Option Nat
  | 'x' => some 2
  | 'u' => some 4
  | 'U' => some 8
  | _ => none

/-- What a digit counts. -/
def digitOf (c : Char) : Nat := "0123456789abcdef".toList.idxOf c.toLower

/-- The number that some digits write. -/
def number (base : Nat) (digits : List Char) : Nat :=
  Nat.ofDigits base (digits.map digitOf).reverse

/-- The forms of an escape, whose numbers fit under a greatest one. -/
inductive Form (fits : Nat → Nat → Prop) : List Char → Prop
  | single {c : Char} : c ∈ singleChars → Form fits [c]
  | octal {digits : List Char} :
      (∀ c ∈ digits, c ∈ octalChars) →
      0 < digits.length → digits.length ≤ 3 →
      fits 255 (number 8 digits) → Form fits digits
  | hexadecimal {letter : Char} {count : Nat} {digits : List Char} :
      digitsAfter letter = some count → (∀ c ∈ digits, c ∈ hexChars) →
      digits.length = count → fits 0x10FFFF (number 16 digits) →
      Form fits (letter :: digits)

/-- A number up to the greatest that is no surrogate. -/
def Allowed (greatest n : Nat) : Prop :=
  n ≤ greatest ∧ ¬ (0xD800 ≤ n ∧ n ≤ 0xDFFF)

/-- What is an escape behind a backslash. -/
def IsEscape (text : List Char) : Prop := Form Allowed text

/-- What a form begins with. -/
def Begins (text : List Char) : Prop :=
  ∃ more, Form (fun _ _ => True) (text ++ more)

/-- A text that begins a form and is followed by no character that would
be the next one of a form. -/
structure Accepts (text : List Char) (behind : List Glyph) : Prop where
  begins : Begins text
  longest : ∀ c more, behind = scalar c :: more → ¬ Begins (text ++ [c])

-- ====================================================== first characters

variable {c letter : Char} {count : Nat} {text more : List Char}
  {fits : Nat → Nat → Prop}

/-- The characters that can begin an escape are of one kind each. -/
theorem not_octal_of_single (h : c ∈ singleChars) : c ∉ octalChars := by
  have apart : ∀ c ∈ singleChars, c ∉ octalChars :=
    forall_mem_of_all (by decide)
  exact apart c h

/-- A character that is an escape by itself awaits no digits. -/
theorem digitsAfter_single (h : c ∈ singleChars) : digitsAfter c = none := by
  have apart : ∀ c ∈ singleChars, digitsAfter c = none :=
    forall_mem_of_all (by decide)
  exact apart c h

theorem digitsAfter_octal (h : c ∈ octalChars) : digitsAfter c = none := by
  have apart : ∀ c ∈ octalChars, digitsAfter c = none :=
    forall_mem_of_all (by decide)
  exact apart c h

/-- What a single character begins is complete with it. -/
theorem form_single_iff (h : c ∈ singleChars) :
    Form fits (c :: text) ↔ text = [] := by
  constructor
  · intro form
    cases form with
    | single => rfl
    | octal octal =>
        exact absurd (octal c List.mem_cons_self) (not_octal_of_single h)
    | hexadecimal letter =>
        rw [digitsAfter_single h] at letter
        cases letter
  · rintro rfl
    exact .single h

/-- An octal escape has up to two more digits behind the first. -/
theorem form_octal_iff (h : c ∈ octalChars) :
    Form fits (c :: text) ↔ (∀ d ∈ text, d ∈ octalChars)
      ∧ text.length ≤ 2 ∧ fits 255 (number 8 (c :: text)) := by
  constructor
  · intro form
    cases form with
    | single single => exact absurd h (not_octal_of_single single)
    | octal octal _ short fits =>
        exact ⟨fun d hd => octal d (List.mem_cons_of_mem c hd),
          Nat.le_of_succ_le_succ short, fits⟩
    | hexadecimal letter =>
        rw [digitsAfter_octal h] at letter
        cases letter
  · rintro ⟨octal, short, fits⟩
    exact .octal (List.forall_mem_cons.2 ⟨h, octal⟩) (Nat.succ_pos _)
      (Nat.succ_le_succ short) fits

/-- An escape by a letter has as many digits as the letter says. -/
theorem form_letter_iff (h : digitsAfter letter = some count) :
    Form fits (letter :: text) ↔ (∀ d ∈ text, d ∈ hexChars)
      ∧ text.length = count ∧ fits 0x10FFFF (number 16 text) := by
  constructor
  · intro form
    cases form with
    | single single =>
        rw [digitsAfter_single single] at h
        cases h
    | octal octal =>
        rw [digitsAfter_octal (octal _ List.mem_cons_self)] at h
        cases h
    | hexadecimal letter hex length fits =>
        exact ⟨hex, length.trans (Option.some.inj (letter.symm.trans h)),
          fits⟩
  · rintro ⟨hex, length, fits⟩
    exact .hexadecimal h hex length fits

/-- A form begins with such a character. -/
theorem Form.first (h : Form fits (c :: text)) :
    c ∈ singleChars ∨ c ∈ octalChars
      ∨ ∃ count, digitsAfter c = some count := by
  cases h with
  | single single => exact .inl single
  | octal octal => exact .inr (.inl (octal c List.mem_cons_self))
  | hexadecimal letter => exact .inr (.inr ⟨_, letter⟩)

-- ============================================================ beginnings

/-- Every form begins with nothing. -/
theorem begins_nil : Begins [] := ⟨['a'], .single (by decide)⟩

/-- What begins with more of a text begins with less of it. -/
theorem Begins.of_append (h : Begins (text ++ more)) : Begins text := by
  obtain ⟨further, form⟩ := h
  rw [List.append_assoc] at form
  exact ⟨_, form⟩

/-- Nothing begins behind a single character. -/
theorem begins_single_iff (h : c ∈ singleChars) :
    Begins (c :: text) ↔ text = [] := by
  unfold Begins
  simp only [List.cons_append, form_single_iff h, List.append_eq_nil_iff,
    exists_and_left, exists_eq, and_true]

/-- Octal digits begin an escape while there are at most three of them. -/
theorem begins_octal_iff (h : c ∈ octalChars) :
    Begins (c :: text)
      ↔ (∀ d ∈ text, d ∈ octalChars) ∧ text.length ≤ 2 := by
  constructor
  · rintro ⟨more, form⟩
    rw [List.cons_append] at form
    obtain ⟨octal, short, -⟩ := (form_octal_iff h).1 form
    rw [List.length_append] at short
    exact ⟨fun d hd => octal d (List.mem_append_left more hd), by omega⟩
  · rintro ⟨octal, short⟩
    refine ⟨[], ?_⟩
    rw [List.append_nil]
    exact (form_octal_iff h).2 ⟨octal, short, trivial⟩

/-- Hexadecimal digits begin one while the letter has room for them. -/
theorem begins_letter_iff (h : digitsAfter letter = some count) :
    Begins (letter :: text)
      ↔ (∀ d ∈ text, d ∈ hexChars) ∧ text.length ≤ count := by
  constructor
  · rintro ⟨more, form⟩
    rw [List.cons_append] at form
    obtain ⟨hex, length, -⟩ := (form_letter_iff h).1 form
    rw [List.length_append] at length
    exact ⟨fun d hd => hex d (List.mem_append_left more hd), by omega⟩
  · rintro ⟨hex, short⟩
    refine ⟨List.replicate (count - text.length) '0', ?_⟩
    rw [List.cons_append]
    refine (form_letter_iff h).2 ⟨?_, ?_, trivial⟩
    · refine List.forall_mem_append.2 ⟨hex, fun d hd => ?_⟩
      rw [List.eq_of_mem_replicate hd]
      decide
    · rw [List.length_append, List.length_replicate]
      omega

/-- What is accepted goes no further within a text that begins a form. -/
theorem Accepts.eq_nil {behind rest : List Glyph}
    (h : Accepts text behind) (split : behind = written more ++ rest)
    (begins : Begins (text ++ more)) : more = [] := by
  cases more with
  | nil => rfl
  | cons c more =>
      rw [List.append_cons] at begins
      exact absurd begins.of_append (h.longest c _ split)

/-- Only one text is accepted. -/
theorem Accepts.unique {text' : List Char} {behind behind' : List Glyph}
    (h : Accepts text behind) (h' : Accepts text' behind')
    (same : written text ++ behind = written text' ++ behind') :
    text = text' ∧ behind = behind' := by
  rcases List.append_eq_append_iff.1 same with ⟨more, front, rest⟩
    | ⟨more, front, rest⟩
  · obtain ⟨a, b, rfl, ha, rfl⟩ := List.map_eq_append_iff.1 front
    obtain rfl := written_inj.1 ha
    obtain rfl := h.eq_nil rest h'.begins
    exact ⟨(List.append_nil a).symm, rest⟩
  · obtain ⟨a, b, rfl, ha, rfl⟩ := List.map_eq_append_iff.1 front
    obtain rfl := written_inj.1 ha
    obtain rfl := h'.eq_nil rest h.begins
    exact ⟨List.append_nil a, rest.symm⟩

-- ================================================================ digits

/-- The digits of a base are some characters. -/
def DigitChars (base : Nat) (chars : List Char) : Prop :=
  ∀ c, (scalar c).digitValue? base
    = if c ∈ chars then some (digitOf c) else none

/-- What is told of all ASCII characters by their numbers. -/
theorem digitChars_of_ascii {base : Nat} {chars : List Char}
    (plain : ∀ c ∈ chars, c.toNat < 0x80)
    (small : ∀ n < 0x80, (scalar (Char.ofNat n)).digitValue? base
      = if Char.ofNat n ∈ chars then some (digitOf (Char.ofNat n))
        else none) :
    DigitChars base chars := by
  intro c
  by_cases hc : c.toNat < 0x80
  · have here := small _ hc
    rwa [Char.ofNat_toNat] at here
  · rw [if_neg fun member => hc (plain c member)]
    refine digitValue?_foreign fun d hd same => ?_
    rw [scalar.inj same] at hc
    exact hc hd

theorem digitChars_octal : DigitChars 8 octalChars :=
  digitChars_of_ascii (forall_mem_of_all (by decide)) (by decide +kernel)

theorem digitChars_hexadecimal : DigitChars 16 hexChars :=
  digitChars_of_ascii (forall_mem_of_all (by decide)) (by decide +kernel)

/-- A hexadecimal digit is less than 16. -/
theorem digitOf_lt (h : c ∈ hexChars) : digitOf c < 16 := by
  have small : ∀ c ∈ hexChars, digitOf c < 16 :=
    forall_mem_of_all (by decide)
  exact small c h

/-- The number is read digit by digit. -/
theorem value_eq_number (base : Nat) (ds : List Char) :
    value base (ds.map digitOf) = number base ds := by
  induction ds using List.reverseRecOn with
  | nil => rfl
  | append_singleton ds c ih =>
      unfold value number at ih ⊢
      rw [List.map_append, List.foldl_append, ih, List.reverse_append]
      show Nat.ofDigits base (ds.map digitOf).reverse * base + digitOf c
        = digitOf c + base * Nat.ofDigits base (ds.map digitOf).reverse
      rw [Nat.mul_comm, Nat.add_comm]

/-- Some digits at the front: all there are, or as many as asked for. -/
structure Digits (chars : List Char) (count : Nat) (src : List Glyph)
    (ds : List Char) (behind : List Glyph) : Prop where
  front : src = written ds ++ behind
  all : ∀ c ∈ ds, c ∈ chars
  most : ds.length ≤ count
  longest : ds.length < count →
    ∀ c more, behind = scalar c :: more → c ∉ chars

/-- The digits at the front are read. -/
theorem exists_digits {base : Nat} {chars : List Char}
    (same : DigitChars base chars) (count : Nat) (src : List Glyph) :
    ∃ ds behind, Digits chars count src ds behind
      ∧ digits base count src = ds.map digitOf := by
  induction count generalizing src with
  | zero => exact ⟨[], src, ⟨rfl, nofun, Nat.le_refl 0,
      fun short => absurd short (Nat.lt_irrefl 0)⟩, rfl⟩
  | succ count ih =>
      have none (h : ∀ c more, src = scalar c :: more → c ∉ chars)
          (unread : digits base (count + 1) src = []) :
          ∃ ds behind, Digits chars (count + 1) src ds behind
            ∧ digits base (count + 1) src = ds.map digitOf :=
        ⟨[], src, ⟨rfl, nofun, Nat.zero_le _, fun _ => h⟩, unread⟩
      match src with
      | [] => exact none nofun rfl
      | broken b :: rest =>
          refine none nofun ?_
          have foreign : Foreign (broken b) := fun _ _ => Glyph.noConfusion
          rw [digits, digitValue?_foreign foreign]
      | scalar c :: rest =>
          by_cases member : c ∈ chars
          · obtain ⟨ds, behind, ⟨front, all, most, longest⟩, read⟩ := ih rest
            refine ⟨c :: ds, behind,
              ⟨by rw [front]; rfl, List.forall_mem_cons.2 ⟨member, all⟩,
                Nat.succ_le_succ most,
                fun short => longest (Nat.lt_of_succ_lt_succ short)⟩, ?_⟩
            rw [digits, same c, if_pos member]
            exact congrArg (_ :: ·) read
          · refine none ?_ ?_
            · rintro d more he
              rwa [← scalar.inj (List.cons.inj he).1]
            · rw [digits, same c, if_neg member]

-- =============================================================== verdicts

/-- What is decided of a text behind a backslash. -/
inductive Verdict (text : List Char) : Escape → Prop
  | valid : IsEscape text → Verdict text (.valid text.length)
  | invalid {f : Finding} :
      ¬ IsEscape text → Verdict text (.invalid text.length f)

/-- A number is allowed if it is not too great and no surrogate. -/
theorem allowed_iff {greatest n : Nat} :
    Allowed greatest n
      ↔ n ≤ greatest ∧ ¬ (0xD800 ≤ n ∧ n < 0xE000) := by
  unfold Allowed
  omega

/-- A number decides of the form that it is in. -/
theorem verdict_ofNumber {greatest n : Nat}
    (h : IsEscape text ↔ Allowed greatest n) :
    Verdict text (ofNumber text.length greatest n) := by
  unfold ofNumber
  split
  next allowed => exact .valid (h.2 (allowed_iff.2 allowed))
  next other => exact .invalid fun is => other (allowed_iff.1 (h.1 is))

/-- Octal digits. -/
theorem exists_octal {src : List Glyph} (some : digits 8 3 src ≠ []) :
    ∃ text behind, src = written text ++ behind ∧ Accepts text behind
      ∧ Verdict text
        (ofNumber (digits 8 3 src).length 255 (value 8 (digits 8 3 src))) := by
  obtain ⟨ds, behind, ⟨front, all, most, longest⟩, read⟩ :=
    exists_digits digitChars_octal 3 src
  rw [read] at some ⊢
  cases ds with
  | nil => exact absurd rfl some
  | cons d ds =>
      obtain ⟨first, later⟩ := List.forall_mem_cons.1 all
      have short := Nat.le_of_succ_le_succ most
      refine ⟨d :: ds, behind, front, ⟨?_, ?_⟩, ?_⟩
      · exact (begins_octal_iff first).2 ⟨later, short⟩
      · intro c more next begins
        rw [List.cons_append] at begins
        obtain ⟨digits, length⟩ := (begins_octal_iff first).1 begins
        rw [List.length_append] at length
        exact longest (Nat.succ_le_succ length) c more next
          (digits c (List.mem_append_right ds (List.mem_singleton_self c)))
      · rw [List.length_map, value_eq_number]
        refine verdict_ofNumber ?_
        rw [IsEscape, form_octal_iff first]
        exact ⟨fun h => h.2.2, fun h => ⟨later, short, h⟩⟩

/-- Hexadecimal digits behind a letter. -/
theorem exists_hexadecimal {letter : Char} {count greatest : Nat}
    (after : digitsAfter letter = some count)
    (limit : ∀ n, n < 16 ^ count → (n ≤ greatest ↔ n ≤ 0x10FFFF))
    (src : List Glyph) :
    ∃ text behind, scalar letter :: src = written text ++ behind
      ∧ Accepts text behind
      ∧ Verdict text (hexadecimal count greatest src) := by
  obtain ⟨ds, behind, ⟨front, all, most, longest⟩, read⟩ :=
    exists_digits digitChars_hexadecimal count src
  refine ⟨letter :: ds, behind, ?_, ⟨?_, ?_⟩, ?_⟩
  · rw [front]
    rfl
  · exact (begins_letter_iff after).2 ⟨all, most⟩
  · intro c more next begins
    rw [List.cons_append] at begins
    obtain ⟨digits, length⟩ := (begins_letter_iff after).1 begins
    rw [List.length_append] at length
    exact longest length c more next
      (digits c (List.mem_append_right ds (List.mem_singleton_self c)))
  · unfold hexadecimal
    dsimp only
    rw [read, List.length_map, value_eq_number]
    split
    next short =>
      refine .invalid fun is => ?_
      have full := ((form_letter_iff after).1 is).2.1
      omega
    next =>
      have full : ds.length = count := by omega
      have small : number 16 ds < 16 ^ count := by
        have digit : ∀ d ∈ (ds.map digitOf).reverse, d < 16 := by
          intro d hd
          obtain ⟨c, hc, rfl⟩ := List.mem_map.1 (List.mem_reverse.1 hd)
          exact digitOf_lt (all c hc)
        have bound := Nat.ofDigits_lt_base_pow_length (by decide) digit
        rwa [List.length_reverse, List.length_map, full] at bound
      rw [← full]
      refine verdict_ofNumber ?_
      rw [IsEscape, form_letter_iff after, Allowed, Allowed,
        limit _ small]
      exact ⟨fun h => h.2.2, fun h => ⟨all, full, h⟩⟩

theorem not_isEscape_nil : ¬ IsEscape [] := by
  intro form
  cases form with
  | octal _ some => cases some

/-- Three letters await digits. -/
theorem eq_of_digitsAfter (h : digitsAfter c = some count) :
    c = 'x' ∨ c = 'u' ∨ c = 'U' := by
  unfold digitsAfter at h
  split at h
  next => exact .inl rfl
  next => exact .inr (.inl rfl)
  next => exact .inr (.inr rfl)
  next => cases h

/-- Nothing is accepted of what begins no escape. -/
theorem accepts_nil {src : List Glyph}
    (other : ∀ c more, src = scalar c :: more →
      c ∉ singleChars ∧ c ∉ octalChars ∧ c ≠ 'x' ∧ c ≠ 'u' ∧ c ≠ 'U') :
    Accepts [] src where
  begins := begins_nil
  longest := by
    rintro c more rfl ⟨further, form⟩
    obtain ⟨noSingle, noOctal, noLetter⟩ := other c more rfl
    rcases form.first with single | octal | ⟨count, after⟩
    · exact noSingle single
    · exact noOctal octal
    · rcases eq_of_digitsAfter after with rfl | rfl | rfl
      · exact noLetter.1 rfl
      · exact noLetter.2.1 rfl
      · exact noLetter.2.2 rfl

/-- A single character is accepted, whatever is behind it. -/
theorem accepts_single (h : c ∈ singleChars) (behind : List Glyph) :
    Accepts [c] behind where
  begins := (begins_single_iff h).2 rfl
  longest d _ _ begins :=
    List.cons_ne_nil d [] ((begins_single_iff h).1 begins)

/-- An octal digit is read as one. -/
theorem digits_octal_ne_nil (h : c ∈ octalChars) (rest : List Glyph) :
    digits 8 3 (scalar c :: rest) ≠ [] := by
  rw [digits, digitChars_octal c, if_pos h]
  exact List.cons_ne_nil _ _

/-- Behind each backslash that joins no lines the reader takes the text
that is accepted there. -/
theorem exists_verdict {src : List Glyph}
    (joins : src.head? ≠ some .newline) :
    ∃ text behind, src = written text ++ behind ∧ Accepts text behind
      ∧ Verdict text (read src) := by
  unfold read
  split
  next => exact ⟨[], [], rfl, accepts_nil nofun, .invalid not_isEscape_nil⟩
  next g rest =>
    split
    next single =>
      obtain ⟨c, member, same⟩ := List.any_eq_true.1 single
      obtain rfl := beq_iff_eq.1 same
      exact ⟨[c], rest, rfl, accepts_single member rest,
        .valid (.single member)⟩
    next noSingle =>
      rw [if_neg fun newline => joins (congrArg some newline)]
      split
      next hx =>
        rw [hx]
        refine exists_hexadecimal rfl (fun n small => ?_) rest
        omega
      split
      next hu =>
        rw [hu]
        exact exists_hexadecimal rfl (fun _ _ => Iff.rfl) rest
      split
      next hU =>
        rw [hU]
        exact exists_hexadecimal rfl (fun _ _ => Iff.rfl) rest
      next noX noU noLong =>
        split
        next none =>
          refine ⟨[], _, rfl, accepts_nil ?_, .invalid not_isEscape_nil⟩
          rintro c more front
          obtain ⟨rfl, rfl⟩ := List.cons.inj front
          refine ⟨fun single => noSingle ?_, fun octal => ?_, ?_, ?_, ?_⟩
          · exact List.any_eq_true.2 ⟨c, single, beq_self_eq_true _⟩
          · exact digits_octal_ne_nil octal rest none
          · exact fun hc => noX (congrArg scalar hc)
          · exact fun hc => noU (congrArg scalar hc)
          · exact fun hc => noLong (congrArg scalar hc)
        next some => exact exists_octal some

end Escape

end BuildLexer
