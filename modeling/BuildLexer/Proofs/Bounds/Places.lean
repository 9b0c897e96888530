/-
Bytes at places, and the glyphs that are read from there on.

Some readers look at the bytes by their numbers: is there a digit here,
a colon two places on. Others take glyphs from the front, one after the
other. The glyphs at a place are those of the bytes from there on
(`Glyph.ahead`). As long as only ASCII characters are asked for, the
first of them is the byte at that place and the others are those at the
next one (`Glyph.head?_ahead_iff`, `Glyph.ahead_of_ascii`), so both sorts
of readers agree on marks (`Temporal.after?_ahead`) and on digits
(`Temporal.pair?_ahead`, `Temporal.takeWhile_isDigit_ahead`).

The number of two digits is worked out in eight bits, where each digit
must be no less than 0 and each result must fit (`Temporal.twoDigits?`).
-/
import BuildLexer.Literal.Temporal
import BuildLexer.Proofs.Bounds.Cursor

namespace BuildLexer

open Glyph

-- ======================================================== ASCII at a place

/-- The byte of an ASCII character. -/
def ascii (c : Char) : UInt8 := UInt8.ofNat c.toNat

theorem toNat_ascii {c : Char} (h : c.toNat < 0x80) :
    (ascii c).toNat = c.toNat :=
  Utf8.toNat_ofNat_of_lt (by omega)

theorem encode_ascii {c : Char} (h : c.toNat < 0x80) :
    String.utf8EncodeChar c = [ascii c] := by
  rw [Utf8.encode_eq]
  exact if_pos (by omega)

/-- A byte is that of an ASCII character when it is read as it. -/
theorem ofNat_eq_iff {x : UInt8} {c : Char} (hx : x.toNat < 0x80)
    (hc : c.toNat < 0x80) : Char.ofNat x.toNat = c ↔ x = ascii c := by
  constructor
  · rintro rfl
    rw [ascii, Utf8.toNat_ofNat_ascii hx, UInt8.ofNat_toNat]
  · rintro rfl
    rw [toNat_ascii hc, Char.ofNat_toNat]

/-- Whether a byte is a digit. -/
def isDigitByte (b : UInt8) : Bool := 48 ≤ b.toNat && b.toNat ≤ 57

namespace Glyph

/-- What is read from a place of some bytes on. -/
def ahead (b : List UInt8) (i : Nat) : List Glyph := ofBytes (b.drop i)

variable {b : List UInt8} {i : Nat} {c : Char}

/-- No ASCII character, but a longer one or a broken byte. -/
def Foreign (g : Glyph) : Prop := ∀ c : Char, c.toNat < 0x80 → g ≠ scalar c

/-- What is ahead: nothing, an ASCII character, or something else. -/
theorem ahead_cases (b : List UInt8) (i : Nat) :
    (b[i]? = none ∧ ahead b i = [])
      ∨ (∃ x, b[i]? = some x ∧ x.toNat < 0x80
          ∧ ahead b i = scalar (Char.ofNat x.toNat) :: ahead b (i + 1))
      ∨ ∃ x g rest, b[i]? = some x ∧ ¬ x.toNat < 0x80
          ∧ ahead b i = g :: rest ∧ Foreign g := by
  unfold ahead
  cases hd : b.drop i with
  | nil =>
      refine Or.inl ⟨?_, by rw [ofBytes]⟩
      rw [← List.head?_drop, hd]
      rfl
  | cons x rest =>
      obtain ⟨first, behind⟩ := Checked.at_of_drop hd
      refine Or.inr ?_
      by_cases small : x.toNat < 0x80
      · refine Or.inl ⟨x, first, small, ?_⟩
        rw [ofBytes_ascii rest small, behind]
      · refine Or.inr ⟨x, ?_⟩
        have other (d : Char) (hd : d.toNat < 0x80)
            (hp : String.utf8EncodeChar d <+: x :: rest) : False := by
          rw [encode_ascii hd] at hp
          have same := (List.cons_prefix_cons.1 hp).1
          rw [← same, toNat_ascii hd] at small
          exact small hd
        rw [ofBytes]
        cases hc : Utf8.decode? (x :: rest) with
        | none =>
            refine ⟨_, _, first, small, rfl, fun e he same => ?_⟩
            cases same
        | some d =>
            refine ⟨_, _, first, small, rfl, fun e he same => ?_⟩
            cases same
            exact other d he (Utf8.decode?_eq_some_iff.1 hc)

/-- A digit at a place, as the readers of glyphs and of bytes see it. -/
theorem digitValue?_ascii {n : Nat} (h : n < 0x80) :
    digitValue? 10 (scalar (Char.ofNat n))
      = if 48 ≤ n ∧ n ≤ 57 then some (n - 48) else none := by
  revert n
  decide +kernel

theorem isDigit_ascii {n : Nat} (h : n < 0x80) :
    isDigit (scalar (Char.ofNat n))
      = (decide (48 ≤ n) && decide (n ≤ 57)) := by
  revert n
  decide +kernel

theorem isDigit_foreign {g : Glyph} (h : Foreign g) : isDigit g = false := by
  cases g with
  | broken b => rfl
  | scalar c =>
      have large : ¬ c.toNat < 0x80 := fun small => h c small rfl
      refine Bool.eq_false_iff.2 fun digit => large ?_
      have range : '0'.toNat ≤ c.toNat ∧ c.toNat ≤ '9'.toNat :=
        Char.isDigit_iff_toNat.1 digit
      exact Nat.lt_of_le_of_lt range.2 (by decide)

theorem digitValue?_foreign {base : Nat} {g : Glyph} (h : Foreign g) :
    digitValue? base g = none := by
  have plain : g.char.isDigit = false := isDigit_foreign h
  have large : ¬ g.char.toNat < 0x80 := by
    cases g with
    | broken b =>
        show ¬ ('\uFFFD').toNat < 0x80
        decide
    | scalar c => exact fun small => h c small rfl
  unfold digitValue?
  dsimp only
  rw [plain, if_neg Bool.false_ne_true, if_neg (by omega),
    if_neg (by omega)]
  rfl

/-- An ASCII character ahead is the byte at the place. -/
theorem head?_ahead_iff (hc : c.toNat < 0x80) :
    (ahead b i).head? = some (scalar c) ↔ b[i]? = some (ascii c) := by
  rcases ahead_cases b i with ⟨first, h⟩ | ⟨x, first, small, h⟩
    | ⟨x, g, rest, first, large, h, foreign⟩
  · rw [first, h]
    exact iff_of_false nofun nofun
  · rw [first, h, List.head?_cons, Option.some_inj, Option.some_inj,
      scalar.injEq, ofNat_eq_iff small hc]
  · rw [first, h, List.head?_cons, Option.some_inj, Option.some_inj]
    refine iff_of_false (foreign c hc) ?_
    rintro rfl
    rw [toNat_ascii hc] at large
    exact large hc

/-- What is behind it is what is ahead of the next place. -/
theorem ahead_of_ascii {x : UInt8} (hx : x.toNat < 0x80)
    (h : b[i]? = some x) :
    ahead b i = scalar (Char.ofNat x.toNat) :: ahead b (i + 1) := by
  rcases ahead_cases b i with ⟨first, -⟩ | ⟨y, first, -, h'⟩
    | ⟨y, g, rest, first, large, -, -⟩
  · rw [h] at first
    cases first
  · rw [h] at first
    cases first
    exact h'
  · rw [h] at first
    cases first
    exact absurd hx large

end Glyph

namespace Temporal

-- =============================================================== digits

variable {b : List UInt8} {i : Nat}

/-- Whether digits stand at a place, as many as asked for. -/
def digitsAt (b : List UInt8) (i count : Nat) : Bool :=
  (Checked.slice? b i (i + count)).any (·.all isDigitByte)

/-- The number of two digits at a place, in eight bits. -/
def twoDigits? (b : List UInt8) (i : Nat) : Option Nat := do
  let first ← b[i]?
  let tens ← Checked.sub? first.toNat 48
  let tens ← Checked.fits? 8 (tens * 10)
  let second ← b[i + 1]?
  let ones ← Checked.sub? second.toNat 48
  Checked.fits? 8 (tens + ones)

/-- The digit at a place. -/
def digit? (b : List UInt8) (i : Nat) : Option Nat :=
  b[i]?.bind fun x => if isDigitByte x then some (x.toNat - 48) else none

/-- The number of two digits at a place. -/
def two? (b : List UInt8) (i : Nat) : Option Nat := do
  let tens ← digit? b i
  let ones ← digit? b (i + 1)
  some (tens * 10 + ones)

/-- A digit ahead is the digit at the place. -/
theorem digit?_eq (b : List UInt8) (i : Nat) :
    (ahead b i).head?.bind (digitValue? 10) = digit? b i := by
  unfold digit?
  rcases ahead_cases b i with ⟨first, h⟩ | ⟨x, first, small, h⟩
    | ⟨x, g, rest, first, large, h, foreign⟩
  · rw [first, h]
    rfl
  · rw [first, h, List.head?_cons, Option.bind_some, Option.bind_some,
      digitValue?_ascii small]
    simp [isDigitByte]
  · rw [first, h, List.head?_cons, Option.bind_some, Option.bind_some,
      digitValue?_foreign foreign, if_neg]
    simp [isDigitByte]
    omega

/-- A digit is a byte that is read alone. -/
theorem exists_of_digit? {n : Nat} (h : digit? b i = some n) :
    ∃ x, b[i]? = some x ∧ isDigitByte x = true ∧ n = x.toNat - 48 := by
  obtain ⟨x, hx, hn⟩ := Option.bind_eq_some_iff.1 h
  split at hn
  next digit => exact ⟨x, hx, digit, (Option.some.inj hn).symm⟩
  next => cases hn

theorem ahead_of_digit? {n : Nat} (h : digit? b i = some n) :
    ∃ g, ahead b i = g :: ahead b (i + 1) ∧ digitValue? 10 g = some n := by
  obtain ⟨x, hx, digit, -⟩ := exists_of_digit? h
  have small : x.toNat < 0x80 := by
    simp only [isDigitByte, Bool.and_eq_true, decide_eq_true_eq] at digit
    omega
  have front := ahead_of_ascii small hx
  refine ⟨_, front, ?_⟩
  rw [← h, ← digit?_eq, front]
  rfl

theorem pair?_ahead (b : List UInt8) (i : Nat) :
    pair? (ahead b i) = (two? b i).map (·, ahead b (i + 2)) := by
  unfold two?
  cases ht : digit? b i with
  | none =>
      rw [← digit?_eq] at ht
      cases ha : ahead b i with
      | nil => rfl
      | cons g rest =>
          rw [ha] at ht
          have other : digitValue? 10 g = none := ht
          cases rest with
          | nil => rfl
          | cons g' rest =>
              unfold pair?
              dsimp only
              rw [other]
              rfl
  | some tens =>
      obtain ⟨g, hg, vg⟩ := ahead_of_digit? ht
      cases ho : digit? b (i + 1) with
      | none =>
          rw [← digit?_eq] at ho
          rw [hg]
          cases ha : ahead b (i + 1) with
          | nil => rfl
          | cons g' rest =>
              rw [ha] at ho
              have other : digitValue? 10 g' = none := ho
              unfold pair?
              dsimp only
              rw [vg, other]
              rfl
      | some ones =>
          obtain ⟨g', hg', vg'⟩ := ahead_of_digit? ho
          rw [hg, hg']
          unfold pair?
          dsimp only
          rw [vg, vg']
          rfl

theorem after?_ahead {c : Char} (hc : c.toNat < 0x80) (b : List UInt8)
    (i : Nat) :
    after? c (ahead b i)
      = if b[i]? = some (ascii c) then some (ahead b (i + 1)) else none := by
  have front := head?_ahead_iff (b := b) (i := i) hc
  split
  next h =>
    have small : (ascii c).toNat < 0x80 := by rwa [toNat_ascii hc]
    rw [ahead_of_ascii small h, toNat_ascii hc, Char.ofNat_toNat]
    exact if_pos rfl
  next h =>
    cases ha : ahead b i with
    | nil => rfl
    | cons g rest =>
        rw [ha, List.head?_cons, Option.some_inj] at front
        exact if_neg fun hg => h (front.1 hg)

/-- Reading a number of two digits and going on behind it. -/
theorem bind_pair?_ahead {α : Type} (b : List UInt8) (i : Nat)
    (f : Nat × List Glyph → Option α) :
    (pair? (ahead b i)).bind f
      = (two? b i).bind fun n => f (n, ahead b (i + 2)) := by
  rw [pair?_ahead]
  cases two? b i <;> rfl

/-- Reading a mark and going on behind it. -/
theorem bind_after?_ahead {α : Type} {c : Char} (hc : c.toNat < 0x80)
    (b : List UInt8) (i : Nat) (f : List Glyph → Option α) :
    (after? c (ahead b i)).bind f
      = if b[i]? = some (ascii c) then f (ahead b (i + 1)) else none := by
  rw [after?_ahead hc]
  split <;> rfl

/-- More digits at a place are one and the others behind it. -/
theorem digitsAt_succ (b : List UInt8) (i count : Nat) :
    digitsAt b i (count + 1)
      = ((digit? b i).isSome && digitsAt b (i + 1) count) := by
  unfold digitsAt digit? Checked.slice?
  have arithmetic : i + (count + 1) = i + 1 + count := by omega
  rw [arithmetic]
  cases hd : b.drop i with
  | nil =>
      have ended := List.drop_eq_nil_iff.1 hd
      rw [List.getElem?_eq_none ended, if_neg (by omega)]
      rfl
  | cons x rest =>
      obtain ⟨first, behind⟩ := Checked.at_of_drop hd
      have taken : (x :: rest).take (i + 1 + count - i)
          = x :: rest.take count := by
        rw [show i + 1 + count - i = count + 1 by omega,
          List.take_succ_cons]
      have digit : (if isDigitByte x then some (x.toNat - 48)
          else none).isSome = isDigitByte x := by
        cases isDigitByte x <;> rfl
      rw [first, behind, Option.bind_some, digit, taken,
        Nat.add_sub_cancel_left]
      by_cases inside : i + 1 + count ≤ b.length
      · rw [if_pos ⟨by omega, inside⟩, if_pos ⟨by omega, inside⟩,
          Option.any_some, Option.any_some, List.all_cons]
      · rw [if_neg fun h => inside h.2, if_neg fun h => inside h.2,
          Option.any_none, Bool.and_false]

theorem digitsAt_add_two (b : List UInt8) (i count : Nat) :
    digitsAt b i (count + 2)
      = ((two? b i).isSome && digitsAt b (i + 2) count) := by
  rw [digitsAt_succ, digitsAt_succ]
  unfold two?
  cases digit? b i with
  | none => rfl
  | some tens =>
      cases digit? b (i + 1) with
      | none => rfl
      | some ones => rfl

/-- Two digits stand at a place where a number of two digits does. -/
theorem digitsAt_two (b : List UInt8) (i : Nat) :
    digitsAt b i 2 = (two? b i).isSome := by
  rw [digitsAt_add_two b i 0]
  cases h : two? b i with
  | none => rfl
  | some n =>
      obtain ⟨tens, -, h⟩ := Option.bind_eq_some_iff.1 h
      obtain ⟨ones, ho, -⟩ := Option.bind_eq_some_iff.1 h
      obtain ⟨y, hy, -⟩ := exists_of_digit? ho
      have inside := (List.getElem?_eq_some_iff.1 hy).1
      unfold digitsAt
      rw [Checked.slice?_of_le (by omega) (by omega), Nat.sub_self]
      rfl

/-- The number is worked out in eight bits. -/
theorem twoDigits?_of_two? {n : Nat} (h : two? b i = some n) :
    twoDigits? b i = some n := by
  obtain ⟨tens, ht, h⟩ := Option.bind_eq_some_iff.1 h
  obtain ⟨ones, ho, h⟩ := Option.bind_eq_some_iff.1 h
  obtain rfl := Option.some.inj h
  obtain ⟨x, hx, dx, rfl⟩ := exists_of_digit? ht
  obtain ⟨y, hy, dy, rfl⟩ := exists_of_digit? ho
  simp only [isDigitByte, Bool.and_eq_true, decide_eq_true_eq] at dx dy
  unfold twoDigits?
  rw [hx, hy]
  dsimp only [Option.bind_eq_bind, Option.bind_some]
  rw [Checked.sub?_of_le dx.1, Option.bind_some,
    Checked.fits?_of_lt (by omega), Option.bind_some,
    Checked.sub?_of_le dy.1, Option.bind_some,
    Checked.fits?_of_lt (by omega)]

/-- Two digits stand inside the bytes. -/
theorem inside_of_two? {n : Nat} (h : two? b i = some n) :
    i + 2 ≤ b.length ∧ b[i]?.any isDigitByte ∧ b[i + 1]?.any isDigitByte := by
  obtain ⟨tens, ht, h⟩ := Option.bind_eq_some_iff.1 h
  obtain ⟨ones, ho, -⟩ := Option.bind_eq_some_iff.1 h
  obtain ⟨x, hx, dx, -⟩ := exists_of_digit? ht
  obtain ⟨y, hy, dy, -⟩ := exists_of_digit? ho
  have inside := (List.getElem?_eq_some_iff.1 hy).1
  rw [hx, hy]
  exact ⟨inside, dx, dy⟩

/-- A run of digits is as long in glyphs as in bytes, and what is read
behind it is what is behind its bytes. -/
theorem takeWhile_isDigit_ahead (b : List UInt8) (i : Nat) :
    ((ahead b i).takeWhile isDigit).length
        = ((b.drop i).takeWhile isDigitByte).length
      ∧ (ahead b i).drop ((b.drop i).takeWhile isDigitByte).length
        = ahead b (i + ((b.drop i).takeWhile isDigitByte).length) := by
  generalize hbytes : b.drop i = bytes
  induction bytes generalizing i with
  | nil =>
      unfold ahead
      rw [hbytes]
      exact ⟨by rw [ofBytes]; rfl, by rw [List.takeWhile_nil]; simp [hbytes]⟩
  | cons x rest ih =>
      obtain ⟨first, behind⟩ := Checked.at_of_drop hbytes
      obtain ⟨hl, hr⟩ := ih (i + 1) behind
      rw [List.takeWhile_cons]
      by_cases digit : isDigitByte x = true
      · have small : x.toNat < 0x80 := by
          simp only [isDigitByte, Bool.and_eq_true,
            decide_eq_true_eq] at digit
          omega
        have read : isDigit (scalar (Char.ofNat x.toNat)) = true :=
          (isDigit_ascii small).trans digit
        rw [ahead_of_ascii small first, List.takeWhile_cons, if_pos digit,
          if_pos read, List.length_cons, List.length_cons, hl,
          List.drop_succ_cons, hr]
        exact ⟨rfl, congrArg (ahead b) (by omega)⟩
      · have none : (ahead b i).takeWhile isDigit = [] := by
          rcases ahead_cases b i with ⟨-, h⟩ | ⟨y, hy, small, h⟩
            | ⟨y, g, more, -, -, h, foreign⟩
          · rw [h]
            rfl
          · rw [first] at hy
            cases hy
            have read : isDigit (scalar (Char.ofNat x.toNat)) = false :=
              (isDigit_ascii small).trans (Bool.eq_false_iff.2 digit)
            rw [h, List.takeWhile_cons, read, if_neg Bool.false_ne_true]
          · rw [h, List.takeWhile_cons, isDigit_foreign foreign,
              if_neg Bool.false_ne_true]
        rw [none, if_neg digit]
        exact ⟨rfl, rfl⟩

/-- Whether a digit is next, by how many there are. -/
theorem isDigitByte_iff (b : List UInt8) (i : Nat) :
    b[i]?.any isDigitByte = true
      ↔ ((b.drop i).takeWhile isDigitByte).length ≠ 0 := by
  rw [← List.head?_drop]
  cases b.drop i with
  | nil => exact iff_of_false Bool.false_ne_true fun h => h rfl
  | cons x rest =>
      rw [List.takeWhile_cons, List.head?_cons, Option.any_some]
      split
      next digit => exact iff_of_true digit (Nat.succ_ne_zero _)
      next other => exact iff_of_false other fun h => h rfl

end Temporal

end BuildLexer
