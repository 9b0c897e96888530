/-
Reading loses nothing: the glyphs of some bytes, put together again, are
the bytes (`allBytes_ofBytes`). So offsets counted in glyph widths are
offsets in the source. An ASCII byte is always a glyph of its own
(`ofBytes_ascii`), which is what lets marks and line ends be found by
their bytes.
-/
import BuildLexer.Text.Glyph
import BuildLexer.Text.Utf8.Encoding

namespace BuildLexer.Glyph

/-- The width of a glyph is the number of its bytes. -/
theorem length_bytes (g : Glyph) : g.bytes.length = g.width := by
  cases g with
  | scalar c => exact String.length_utf8EncodeChar c
  | broken b => rfl

/-- A glyph has a byte at least. -/
theorem width_pos (g : Glyph) : 0 < g.width := by
  cases g with
  | scalar c => exact c.utf8Size_pos
  | broken b => exact Nat.one_pos

/-- The bytes of a glyph list, counted. -/
theorem length_allBytes (gs : List Glyph) :
    (allBytes gs).length = totalWidth gs := by
  induction gs with
  | nil => rfl
  | cons g gs ih =>
    rw [totalWidth, ← ih, ← length_bytes]
    exact List.length_append

/-- The bytes behind the first of a decoded character. -/
theorem drop_of_decode? {b : UInt8} {rest : List UInt8} {c : Char}
    (h : Utf8.decode? (b :: rest) = some c) :
    b :: rest
      = String.utf8EncodeChar c ++ rest.drop (c.utf8Size - 1) := by
  obtain ⟨t, ht⟩ := Utf8.decode?_eq_some_iff.1 h
  have hlen := String.length_utf8EncodeChar c
  have hpos := c.utf8Size_pos
  have hdrop : rest.drop (c.utf8Size - 1)
      = (b :: rest).drop c.utf8Size := by
    obtain ⟨n, hn⟩ : ∃ n, c.utf8Size = n + 1 := ⟨c.utf8Size - 1, by omega⟩
    rw [hn, List.drop_succ_cons, Nat.add_sub_cancel]
  rw [hdrop, ← ht, ← hlen, List.drop_left]

/-- Reading loses nothing. -/
theorem allBytes_ofBytes (bs : List UInt8) : allBytes (ofBytes bs) = bs := by
  fun_induction ofBytes bs with
  | case1 => rfl
  | case2 b rest c h ih =>
    rw [allBytes, List.flatMap_cons, ← allBytes, ih]
    exact (drop_of_decode? h).symm
  | case3 b rest h ih =>
    rw [allBytes, List.flatMap_cons, ← allBytes, ih]
    rfl

/-- The widths of what was read add up to its length. -/
theorem totalWidth_ofBytes (bs : List UInt8) :
    totalWidth (ofBytes bs) = bs.length := by
  rw [← length_allBytes, allBytes_ofBytes]

/-- A character that was written is read, whatever follows. -/
theorem ofBytes_encode_append (c : Char) (rest : List UInt8) :
    ofBytes (String.utf8EncodeChar c ++ rest)
      = scalar c :: ofBytes rest := by
  have size := String.length_utf8EncodeChar c
  have decoded := Utf8.decode?_encode_append c rest
  cases hb : String.utf8EncodeChar c with
  | nil =>
      rw [hb] at size
      exact absurd size.symm (Nat.ne_of_gt c.utf8Size_pos)
  | cons b more =>
      rw [hb] at size decoded
      have behind : c.utf8Size - 1 = more.length := by
        rw [← size, List.length_cons, Nat.add_sub_cancel]
      rw [List.cons_append] at decoded ⊢
      rw [ofBytes, decoded]
      dsimp only
      rw [behind, List.drop_left]

/-- What follows some glyphs is read from the bytes behind theirs. -/
theorem ofBytes_drop {bs : List UInt8} {passed rest : List Glyph}
    (h : ofBytes bs = passed ++ rest) :
    ofBytes (bs.drop (totalWidth passed)) = rest := by
  induction passed generalizing bs with
  | nil => exact h
  | cons g passed ih =>
      cases bs with
      | nil =>
          rw [ofBytes] at h
          cases h
      | cons b more =>
          rw [totalWidth, ← List.drop_drop]
          apply ih
          rw [ofBytes] at h
          cases hd : Utf8.decode? (b :: more) with
          | none =>
              rw [hd] at h
              obtain ⟨rfl, later⟩ := List.cons.inj h
              exact later
          | some c =>
              rw [hd] at h
              obtain ⟨rfl, later⟩ := List.cons.inj h
              have size : c.utf8Size = c.utf8Size - 1 + 1 :=
                (Nat.sub_add_cancel c.utf8Size_pos).symm
              show ofBytes ((b :: more).drop c.utf8Size) = _
              rw [size, List.drop_succ_cons]
              exact later

/-- An ASCII character takes one byte. -/
theorem utf8Size_of_ascii {n : Nat} (h : n < 0x80) :
    (Char.ofNat n).utf8Size = 1 := by
  rw [Char.utf8Size_eq_one_iff]
  show (Char.ofNat n).val ≤ 127
  rw [UInt32.le_iff_toNat_le]
  show (Char.ofNat n).toNat ≤ 127
  rw [Utf8.toNat_ofNat_ascii h]
  omega

/-- An ASCII byte is a glyph of its own. -/
theorem ofBytes_ascii {b : UInt8} (rest : List UInt8)
    (h : b.toNat < 0x80) :
    ofBytes (b :: rest) = scalar (Char.ofNat b.toNat) :: ofBytes rest := by
  have decoded : Utf8.decode? (b :: rest) = some (Char.ofNat b.toNat) := by
    simp only [Utf8.decode?]
    rw [if_pos h]
  have size := utf8Size_of_ascii h
  rw [ofBytes]
  simp [decoded, size]

end BuildLexer.Glyph
