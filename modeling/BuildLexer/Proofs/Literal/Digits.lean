/-
Literals as texts of ASCII characters.

Numbers, dates and times are written with ASCII characters only. Such a
text is as many bytes as characters, it is read as these characters
whatever follows, and nothing else is read as them
(`Glyph.ofBytes_eq_written_append_iff`). So a grammar of such literals
can be given on characters, and what is proved of the glyphs ahead holds
of the bytes ahead.
-/
import BuildLexer.Proofs.Bounds.Places

namespace BuildLexer

-- ================================================================ runs

/-- A run ends before the first item that fails the test. -/
theorem takeWhile_append_of_stop {α : Type} {p : α → Bool}
    {run rest : List α} (passes : ∀ x ∈ run, p x = true)
    (stop : ∀ x, rest.head? = some x → p x = false) :
    (run ++ rest).takeWhile p = run := by
  rw [List.takeWhile_append_of_pos passes]
  cases rest with
  | nil => exact List.append_nil run
  | cons x rest =>
      rw [List.takeWhile_cons_of_neg (Bool.eq_false_iff.1 (stop x rfl)),
        List.append_nil]

-- =============================================================== texts

/-- What a test finds of all characters of a text holds of each. -/
theorem forall_mem_of_all {p : Char → Prop} [DecidablePred p]
    {text : List Char} (h : text.all (fun c => decide (p c)) = true) :
    ∀ c ∈ text, p c := fun c hc =>
  of_decide_eq_true (List.all_eq_true.1 h c hc)

/-- The bytes of a text, if it has ASCII characters only. -/
def asciiBytes (text : List Char) : List UInt8 := text.map ascii

namespace Glyph

/-- The glyphs of a text. -/
def written (text : List Char) : List Glyph := text.map scalar

@[simp] theorem written_nil : written [] = [] := rfl

/-- A text is written character by character. -/
@[simp] theorem written_cons (c : Char) (text : List Char) :
    written (c :: text) = scalar c :: written text := rfl

@[simp] theorem written_append (a b : List Char) :
    written (a ++ b) = written a ++ written b := List.map_append

/-- Each character is one glyph. -/
@[simp] theorem length_written (text : List Char) :
    (written text).length = text.length := List.length_map _

/-- What is written tells the text. -/
@[simp] theorem written_inj {a b : List Char} :
    written a = written b ↔ a = b :=
  List.map_inj_right fun _ _ => scalar.inj

/-- ASCII characters are one byte each. -/
theorem allBytes_written {text : List Char}
    (plain : ∀ c ∈ text, c.toNat < 0x80) :
    allBytes (written text) = asciiBytes text := by
  induction text with
  | nil => rfl
  | cons c text ih =>
      rw [List.forall_mem_cons] at plain
      show String.utf8EncodeChar c ++ allBytes (written text) = _
      rw [encode_ascii plain.1, ih plain.2]
      rfl

/-- A text is read as it is written. -/
theorem ofBytes_asciiBytes_append {text : List Char}
    (plain : ∀ c ∈ text, c.toNat < 0x80) (rest : List UInt8) :
    ofBytes (asciiBytes text ++ rest) = written text ++ ofBytes rest := by
  induction text with
  | nil => rfl
  | cons c text ih =>
      rw [List.forall_mem_cons] at plain
      have read := ofBytes_encode_append c (asciiBytes text ++ rest)
      rw [encode_ascii plain.1, ih plain.2] at read
      exact read

/-- And only what is written so is read as it. -/
theorem ofBytes_eq_written_append_iff {text : List Char}
    (plain : ∀ c ∈ text, c.toNat < 0x80) {b : List UInt8}
    {rest : List Glyph} :
    ofBytes b = written text ++ rest
      ↔ ∃ behind, b = asciiBytes text ++ behind ∧ ofBytes behind = rest := by
  constructor
  · intro read
    have whole := allBytes_ofBytes b
    rw [read] at whole
    unfold allBytes at whole
    rw [List.flatMap_append] at whole
    have front : (written text).flatMap bytes = asciiBytes text :=
      allBytes_written plain
    rw [front] at whole
    refine ⟨rest.flatMap bytes, whole.symm, ?_⟩
    rw [← whole, ofBytes_asciiBytes_append plain] at read
    exact List.append_cancel_left read
  · rintro ⟨behind, rfl, rfl⟩
    exact ofBytes_asciiBytes_append plain behind

end Glyph

-- ============================================================== digits

/-- A decimal digit. -/
abbrev Digit := Fin 10

namespace Digit

/-- The character of a digit. -/
def char (d : Digit) : Char := Char.ofNat (0x30 + d)

/-- The digits of a number are digits among glyphs. -/
theorem isDigit_char (d : Digit) :
    (Glyph.scalar d.char).isDigit = true := by
  revert d
  decide

theorem digitValue?_char (d : Digit) :
    (Glyph.scalar d.char).digitValue? 10 = some d.val := by
  revert d
  decide

/-- Digits stand one behind the other from the character 0 on. -/
theorem toNat_char (d : Digit) : d.char.toNat = 0x30 + d := by
  revert d
  decide

theorem isDigit_written {digits : List Digit} :
    ∀ g ∈ Glyph.written (digits.map char), g.isDigit = true := by
  intro g hg
  obtain ⟨c, hc, rfl⟩ := List.mem_map.1 hg
  obtain ⟨d, -, rfl⟩ := List.mem_map.1 hc
  exact d.isDigit_char

end Digit

namespace Glyph

variable {g : Glyph}

/-- Only the characters of digits are digits. -/
theorem exists_of_isDigit (h : g.isDigit = true) :
    ∃ d : Digit, g = scalar d.char := by
  cases g with
  | broken b => cases h
  | scalar c =>
      obtain ⟨low, high⟩ := Char.isDigit_iff_toNat.1 h
      have low : 48 ≤ c.toNat := low
      have high : c.toNat ≤ 57 := high
      refine ⟨⟨c.toNat - 48, by omega⟩, congrArg scalar ?_⟩
      unfold Digit.char
      rw [Nat.add_sub_cancel' low, Char.ofNat_toNat]

/-- Some digits are written as such. -/
theorem exists_of_all_isDigit {gs : List Glyph}
    (h : ∀ g ∈ gs, g.isDigit = true) :
    ∃ digits : List Digit, gs = written (digits.map Digit.char) := by
  induction gs with
  | nil => exact ⟨[], rfl⟩
  | cons g gs ih =>
      rw [List.forall_mem_cons] at h
      obtain ⟨d, rfl⟩ := exists_of_isDigit h.1
      obtain ⟨digits, rfl⟩ := ih h.2
      exact ⟨d :: digits, rfl⟩

/-- A value below ten is that of a digit. -/
theorem isDigit_of_digitValue? {n : Nat} (h : g.digitValue? 10 = some n) :
    g.isDigit = true := by
  unfold digitValue? at h
  obtain ⟨value, small⟩ := Option.filter_eq_some_iff.1 h
  have small : n < 10 := of_decide_eq_true small
  split at value
  next digit => exact digit
  split at value
  next =>
    cases value
    omega
  split at value
  next =>
    cases value
    omega
  next => cases value

/-- A glyph with a decimal value is the digit of that value. -/
theorem exists_of_digitValue? {n : Nat} (h : g.digitValue? 10 = some n) :
    ∃ d : Digit, g = scalar d.char ∧ n = d := by
  obtain ⟨d, rfl⟩ := exists_of_isDigit (isDigit_of_digitValue? h)
  rw [d.digitValue?_char] at h
  exact ⟨d, rfl, (Option.some.inj h).symm⟩

end Glyph

end BuildLexer
