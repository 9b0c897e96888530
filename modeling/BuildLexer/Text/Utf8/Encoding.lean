/-
Decoding is the inverse of encoding: `decode?` finds a character at the
front of some bytes exactly when the bytes begin with that character's
encoding (`decode?_eq_some_iff`). So the bytes taken are known from the
character, no byte sequence can be read in two ways, and where nothing
is found no character could have been written.
-/
import BuildLexer.Text.Utf8

namespace BuildLexer.Utf8

-- ===================================================== bytes as numbers

/-- Bytes are the same when their numbers are. -/
theorem eq_ofNat {b : UInt8} {n : Nat} (h : b.toNat = n) :
    b = UInt8.ofNat n := by
  rw [← h, UInt8.ofNat_toNat]

/-- A number below 256 is kept by the byte that holds it. -/
theorem toNat_ofNat_of_lt {n : Nat} (h : n < 256) :
    (UInt8.ofNat n).toNat = n := by
  rw [UInt8.toNat_ofNat', Nat.mod_eq_of_lt h]

/-- A continuation byte, by its number. -/
theorem isContinuation_iff {b : UInt8} :
    isContinuation b = true ↔ 0x80 ≤ b.toNat ∧ b.toNat < 0xC0 := by
  simp [isContinuation, UInt8.le_iff_toNat_le, UInt8.lt_iff_toNat_lt]

-- ============================================================== pieces

/-- A number is accepted when it is the number of the character. -/
theorem scalar?_eq_some_iff {least n : Nat} {c : Char} :
    scalar? least n = some c ↔ least ≤ n ∧ c.toNat = n := by
  unfold scalar?
  constructor
  · intro h
    split at h
    · rename_i hn
      obtain rfl := Option.some.inj h
      refine ⟨hn.1, ?_⟩
      rw [Char.ofNat, dif_pos hn.2]
      rfl
    · simp at h
  · rintro ⟨hl, rfl⟩
    rw [if_pos ⟨hl, c.valid⟩, Char.ofNat_toNat]

/-- A number below 128 is kept by the ASCII character that it makes. -/
theorem toNat_ofNat_ascii {n : Nat} (h : n < 0x80) :
    (Char.ofNat n).toNat = n :=
  (scalar?_eq_some_iff.1 (if_pos ⟨Nat.zero_le _, Or.inl (by omega)⟩)).2

/-- The encoding of a character, by its number. -/
theorem encode_eq (c : Char) :
    String.utf8EncodeChar c =
      let v := c.toNat
      if v ≤ 0x7F then [UInt8.ofNat v]
      else if v ≤ 0x7FF then
        [UInt8.ofNat (v / 64 % 32 + 0xC0), UInt8.ofNat (v % 64 + 0x80)]
      else if v ≤ 0xFFFF then
        [UInt8.ofNat (v / 4096 % 16 + 0xE0),
          UInt8.ofNat (v / 64 % 64 + 0x80), UInt8.ofNat (v % 64 + 0x80)]
      else
        [UInt8.ofNat (v / 262144 % 8 + 0xF0),
          UInt8.ofNat (v / 4096 % 64 + 0x80),
          UInt8.ofNat (v / 64 % 64 + 0x80), UInt8.ofNat (v % 64 + 0x80)] :=
  rfl

/-- Bits are assembled from a continuation byte at the front. -/
theorem assemble?_succ_eq_some_iff {count bits n : Nat} {bs : List UInt8} :
    assemble? (count + 1) bits bs = some n ↔
      ∃ b rest, bs = b :: rest ∧ (0x80 ≤ b.toNat ∧ b.toNat < 0xC0)
        ∧ assemble? count (bits * 64 + (b.toNat - 0x80)) rest = some n := by
  match bs with
  | [] => simp [assemble?]
  | b :: rest =>
    by_cases hb : isContinuation b = true
    · rw [assemble?, if_pos hb]
      constructor
      · intro h
        exact ⟨b, rest, rfl, isContinuation_iff.1 hb, h⟩
      · rintro ⟨_, _, e, -, h⟩
        cases e
        exact h
    · rw [assemble?, if_neg hb]
      constructor
      · intro h
        cases h
      · rintro ⟨_, _, e, h, -⟩
        cases e
        exact absurd (isContinuation_iff.2 h) hb

-- ========================================================== round trip

/-- What is decoded is what was encoded. -/
theorem encode_isPrefix_of_decode? {bs : List UInt8} {c : Char}
    (h : decode? bs = some c) : String.utf8EncodeChar c <+: bs := by
  match bs with
  | [] => simp [decode?] at h
  | b :: rest =>
    have hb := b.toNat_lt
    simp only [decode?] at h
    split at h
    · rename_i ascii
      obtain rfl := Option.some.inj h
      have hv : (Char.ofNat b.toNat).toNat = b.toNat :=
        toNat_ofNat_ascii ascii
      rw [encode_eq]
      simp only [hv]
      rw [if_pos (by omega), UInt8.ofNat_toNat]
      simp
    split at h
    · simp at h
    split at h
    · obtain ⟨n, hn, hc⟩ := Option.bind_eq_some_iff.1 h
      obtain ⟨least, rfl⟩ := scalar?_eq_some_iff.1 hc
      obtain ⟨x, t, rfl, hx, hn⟩ := assemble?_succ_eq_some_iff.1 hn
      simp only [assemble?, Option.some.injEq] at hn
      rw [encode_eq]
      simp only
      rw [if_neg (by omega), if_pos (by omega)]
      simp only [List.cons_prefix_cons, List.nil_prefix, and_true]
      exact ⟨(eq_ofNat (by omega)).symm, (eq_ofNat (by omega)).symm⟩
    split at h
    · obtain ⟨n, hn, hc⟩ := Option.bind_eq_some_iff.1 h
      obtain ⟨least, rfl⟩ := scalar?_eq_some_iff.1 hc
      obtain ⟨x, t, rfl, hx, hn⟩ := assemble?_succ_eq_some_iff.1 hn
      obtain ⟨y, t, rfl, hy, hn⟩ := assemble?_succ_eq_some_iff.1 hn
      simp only [assemble?, Option.some.injEq] at hn
      rw [encode_eq]
      simp only
      rw [if_neg (by omega), if_neg (by omega), if_pos (by omega)]
      simp only [List.cons_prefix_cons, List.nil_prefix, and_true]
      exact ⟨(eq_ofNat (by omega)).symm, (eq_ofNat (by omega)).symm,
        (eq_ofNat (by omega)).symm⟩
    split at h
    · obtain ⟨n, hn, hc⟩ := Option.bind_eq_some_iff.1 h
      obtain ⟨least, rfl⟩ := scalar?_eq_some_iff.1 hc
      obtain ⟨x, t, rfl, hx, hn⟩ := assemble?_succ_eq_some_iff.1 hn
      obtain ⟨y, t, rfl, hy, hn⟩ := assemble?_succ_eq_some_iff.1 hn
      obtain ⟨z, t, rfl, hz, hn⟩ := assemble?_succ_eq_some_iff.1 hn
      simp only [assemble?, Option.some.injEq] at hn
      rw [encode_eq]
      simp only
      rw [if_neg (by omega), if_neg (by omega), if_neg (by omega)]
      simp only [List.cons_prefix_cons, List.nil_prefix, and_true]
      exact ⟨(eq_ofNat (by omega)).symm, (eq_ofNat (by omega)).symm,
        (eq_ofNat (by omega)).symm, (eq_ofNat (by omega)).symm⟩
    · simp at h

/-- What was encoded is decoded, whatever follows. -/
theorem decode?_encode_append (c : Char) (rest : List UInt8) :
    decode? (String.utf8EncodeChar c ++ rest) = some c := by
  have hc : c.toNat < 0x110000 := by
    have := c.valid
    rcases this with h | h
    · exact Nat.lt_trans h (by decide)
    · exact h.2
  rw [encode_eq]
  simp only
  generalize hv : c.toNat = v at hc
  have scalar {least : Nat} (h : least ≤ v) : scalar? least v = some c :=
    scalar?_eq_some_iff.2 ⟨h, hv⟩
  split
  · simp only [List.cons_append, List.nil_append, decode?]
    rw [toNat_ofNat_of_lt (by omega), if_pos (by omega), ← hv,
      Char.ofNat_toNat]
  split
  · simp only [List.cons_append, List.nil_append, decode?]
    rw [toNat_ofNat_of_lt (by omega), if_neg (by omega),
      if_neg (by omega), if_pos (by omega), Option.bind_eq_some_iff]
    refine ⟨v, ?_, scalar (by omega)⟩
    refine assemble?_succ_eq_some_iff.2 ⟨_, _, rfl, ?_, ?_⟩
    all_goals rw [toNat_ofNat_of_lt (by omega)]
    · omega
    · simp only [assemble?, Option.some.injEq]
      omega
  split
  · simp only [List.cons_append, List.nil_append, decode?]
    rw [toNat_ofNat_of_lt (by omega), if_neg (by omega),
      if_neg (by omega), if_neg (by omega), if_pos (by omega),
      Option.bind_eq_some_iff]
    refine ⟨v, ?_, scalar (by omega)⟩
    refine assemble?_succ_eq_some_iff.2 ⟨_, _, rfl, ?_,
      assemble?_succ_eq_some_iff.2 ⟨_, _, rfl, ?_, ?_⟩⟩
    all_goals simp only [
      toNat_ofNat_of_lt (show v % 64 + 0x80 < 256 by omega),
      toNat_ofNat_of_lt (show v / 64 % 64 + 0x80 < 256 by omega)]
    · omega
    · omega
    · simp only [assemble?, Option.some.injEq]
      omega
  · simp only [List.cons_append, List.nil_append, decode?]
    rw [toNat_ofNat_of_lt (by omega), if_neg (by omega),
      if_neg (by omega), if_neg (by omega), if_neg (by omega),
      if_pos (by omega), Option.bind_eq_some_iff]
    refine ⟨v, ?_, scalar (by omega)⟩
    refine assemble?_succ_eq_some_iff.2 ⟨_, _, rfl, ?_,
      assemble?_succ_eq_some_iff.2 ⟨_, _, rfl, ?_,
        assemble?_succ_eq_some_iff.2 ⟨_, _, rfl, ?_, ?_⟩⟩⟩
    all_goals simp only [
      toNat_ofNat_of_lt (show v % 64 + 0x80 < 256 by omega),
      toNat_ofNat_of_lt (show v / 64 % 64 + 0x80 < 256 by omega),
      toNat_ofNat_of_lt (show v / 4096 % 64 + 0x80 < 256 by omega)]
    · omega
    · omega
    · omega
    · simp only [assemble?, Option.some.injEq]
      omega

/-- A character is decoded exactly when its encoding is at the front. -/
theorem decode?_eq_some_iff {bs : List UInt8} {c : Char} :
    decode? bs = some c ↔ String.utf8EncodeChar c <+: bs := by
  constructor
  · exact encode_isPrefix_of_decode?
  · rintro ⟨rest, rfl⟩
    exact decode?_encode_append c rest

end BuildLexer.Utf8
