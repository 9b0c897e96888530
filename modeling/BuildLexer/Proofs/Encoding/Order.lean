/-
The order of texts is the order of their bytes.

Texts are compared character by character. Written in UTF-8 they are
compared byte by byte, and the encoding is made so that this is the same
(`encode_lt_encode`): a character whose number is higher has more bytes,
and then a higher first byte, or as many, which are the digits of its
number to the base 64. So whoever orders texts may be read as ordering
bytes.
-/
import BuildLexer.Proofs.Tiling.Run

namespace BuildLexer.Utf8

-- ============================================================== digits

/-- Numbers are compared by all digits but the last, and then by the
last. -/
theorem last_digit_lt {v w : Nat} (h : v < w) :
    v / 64 < w / 64 ∨ v / 64 = w / 64 ∧ v % 64 < w % 64 := by
  omega

/-- What compares numbers by the digits from some place on compares them
with the digit in that place told apart. -/
theorem next_digit_lt {v w place : Nat} {behind : Prop}
    (h : v / place < w / place ∨ v / place = w / place ∧ behind) :
    v / (place * 64) < w / (place * 64)
      ∨ v / (place * 64) = w / (place * 64)
        ∧ (v / place % 64 < w / place % 64
          ∨ v / place % 64 = w / place % 64 ∧ behind) := by
  rw [← Nat.div_div_eq_div_mul, ← Nat.div_div_eq_div_mul]
  rcases h with front | ⟨front, rest⟩
  · rcases last_digit_lt front with before | ⟨before, digit⟩
    · exact Or.inl before
    · exact Or.inr ⟨before, Or.inl digit⟩
  · rw [front]
    exact Or.inr ⟨rfl, Or.inr ⟨rfl, rest⟩⟩

-- ========================================================== characters

/-- Bytes are compared by their numbers, and the first that differ
decide. -/
theorem ofNat_cons_lt {m n : Nat} {xs ys : List UInt8} (hm : m < 256)
    (hn : n < 256) :
    UInt8.ofNat m :: xs < UInt8.ofNat n :: ys
      ↔ m < n ∨ m = n ∧ xs < ys := by
  rw [List.cons_lt_cons_iff, UInt8.lt_iff_toNat_lt, ← UInt8.toNat_inj,
    toNat_ofNat_of_lt hm, toNat_ofNat_of_lt hn]

/-- The first byte of a character announces more bytes the higher the
character is. -/
theorem encode_lead (c : Char) : ∃ (n : Nat) (more : List UInt8),
    String.utf8EncodeChar c = UInt8.ofNat n :: more ∧ n < 256
      ∧ (0x7F < c.toNat → 0xC0 ≤ n) ∧ (0x7FF < c.toNat → 0xE0 ≤ n)
      ∧ (0xFFFF < c.toNat → 0xF0 ≤ n) := by
  rw [encode_eq]
  dsimp only
  generalize c.toNat = v
  split
  next => exact ⟨_, _, rfl, by omega, by omega, by omega, by omega⟩
  split
  next => exact ⟨_, _, rfl, by omega, by omega, by omega, by omega⟩
  split
  next => exact ⟨_, _, rfl, by omega, by omega, by omega, by omega⟩
  next => exact ⟨_, _, rfl, by omega, by omega, by omega, by omega⟩

/-- The character with the lower number has the lower bytes, whatever
follows the two. -/
theorem encode_append_lt {c d : Char} (h : c < d) (xs ys : List UInt8) :
    String.utf8EncodeChar c ++ xs < String.utf8EncodeChar d ++ ys := by
  have less : c.toNat < d.toNat := h
  obtain ⟨n, more, hd, hn, two, three, four⟩ := encode_lead d
  -- a form with more bytes begins with a higher byte
  have longer {m : Nat} {tail : List UInt8} (hm : m < n) :
      UInt8.ofNat m :: tail ++ xs < String.utf8EncodeChar d ++ ys := by
    rw [hd]
    exact (ofNat_cons_lt (by omega) hn).2 (Or.inl hm)
  rw [encode_eq c]
  dsimp only
  split
  next =>
    by_cases same : d.toNat ≤ 0x7F
    · rw [encode_eq d]
      dsimp only
      rw [if_pos same]
      exact (ofNat_cons_lt (by omega) (by omega)).2 (Or.inl less)
    · exact longer (by omega)
  split
  next =>
    by_cases same : d.toNat ≤ 0x7FF
    · rw [encode_eq d]
      dsimp only
      rw [if_neg (by omega), if_pos same]
      have digits := last_digit_lt less
      simp (disch := omega) only [List.cons_append, ofNat_cons_lt]
      omega
    · exact longer (by omega)
  split
  next =>
    by_cases same : d.toNat ≤ 0xFFFF
    · rw [encode_eq d]
      dsimp only
      rw [if_neg (by omega), if_neg (by omega), if_pos same]
      have digits := next_digit_lt (last_digit_lt less)
      simp (disch := omega) only [List.cons_append, ofNat_cons_lt]
      omega
    · exact longer (by omega)
  next =>
    have limit : d.toNat < 0x110000 := by
      rcases d.valid with valid | valid
      · exact Nat.lt_trans valid (by decide)
      · exact valid.2
    rw [encode_eq d]
    dsimp only
    rw [if_neg (by omega), if_neg (by omega), if_neg (by omega),
      Nat.mod_eq_of_lt (show c.toNat / 262144 < 8 by omega),
      Nat.mod_eq_of_lt (show d.toNat / 262144 < 8 by omega)]
    have digits := next_digit_lt (next_digit_lt (last_digit_lt less))
    simp (disch := omega) only [List.cons_append, ofNat_cons_lt]
    omega

-- =============================================================== texts

/-- The induction is on where the two texts part. -/
theorem encode_lt_of_lt {s t : List Char} (h : s < t) :
    encode s < encode t := by
  induction h with
  | @nil d t =>
      obtain ⟨n, more, hd, -⟩ := encode_lead d
      have bytes : encode (d :: t) = String.utf8EncodeChar d ++ encode t :=
        rfl
      rw [bytes, hd]
      exact List.Lex.nil
  | rel h => exact encode_append_lt h _ _
  | cons _ ih => exact List.append_left_lt ih

/-- Texts are ordered as their bytes are. -/
theorem encode_lt_encode {s t : List Char} :
    encode s < encode t ↔ s < t := by
  refine ⟨fun h => ?_, encode_lt_of_lt⟩
  rcases Std.lt_trichotomy s t with less | rfl | more
  · exact less
  · exact absurd h (List.lt_irrefl _)
  · exact absurd h (List.lt_asymm (encode_lt_of_lt more))

/-- A text comes before another by its bytes. -/
def Before (s t : String) : Prop := encode s.toList < encode t.toList

theorem compare_eq_lt {s t : String} : compare s t = .lt ↔ Before s t := by
  unfold Before
  rw [encode_lt_encode, ← String.lt_iff]
  exact compareOfLessAndEq_eq_lt

end BuildLexer.Utf8
