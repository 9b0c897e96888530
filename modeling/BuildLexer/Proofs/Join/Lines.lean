/-
Where a source can be cut: at an ASCII byte.

No longer character has a byte below 80, so what stands before such a
byte is read apart from it (`ofBytes_append_cons`), and bytes that end
with a line end are read apart from what follows them
(`ofBytes_append`). Runs of glyphs are over at a glyph that is none of
them, whatever stands behind it (`dropWhile_append_of_stop`).
-/
import BuildLexer.Text.Glyph.Reading

namespace BuildLexer

/-- What is left of a list ends as the list does. -/
theorem getLast?_of_suffix {α : Type} {rest items : List α}
    (hs : rest <:+ items) (more : rest ≠ []) :
    rest.getLast? = items.getLast? := by
  obtain ⟨before, rfl⟩ := hs
  rw [List.getLast?_append, List.getLast?_eq_some_getLast more,
    Option.some_or]

-- =============================================================== bytes

namespace Utf8

/-- A byte below 80 is a character alone and part of no other. -/
theorem length_encode_of_ascii {c : Char} {b : UInt8}
    (hb : b ∈ String.utf8EncodeChar c) (h : b.toNat < 0x80) :
    (String.utf8EncodeChar c).length = 1 := by
  rw [encode_eq] at hb ⊢
  dsimp only at hb ⊢
  -- all bytes of the longer forms have their highest bit set
  have high {n : Nat} (least : 0x80 ≤ n) (most : n < 256)
      (he : b = UInt8.ofNat n) : False := by
    rw [he, toNat_ofNat_of_lt most] at h
    omega
  split at hb
  next hv =>
    rw [if_pos hv]
    rfl
  next =>
    exfalso
    split at hb
    next =>
      simp only [List.mem_cons, List.not_mem_nil, or_false] at hb
      rcases hb with he | he <;> exact high (by omega) (by omega) he
    next =>
      split at hb
      next =>
        simp only [List.mem_cons, List.not_mem_nil, or_false] at hb
        rcases hb with he | he | he <;>
          exact high (by omega) (by omega) he
      next =>
        simp only [List.mem_cons, List.not_mem_nil, or_false] at hb
        rcases hb with he | he | he | he <;>
          exact high (by omega) (by omega) he

end Utf8

namespace Glyph

/-- Where no character starts, none starts with an ASCII byte and more
bytes behind. -/
theorem decode?_append_of_none {a : List UInt8} (hd : Utf8.decode? a = none)
    (more : a ≠ []) {b : UInt8} (hb : b.toNat < 0x80) (rest : List UInt8) :
    Utf8.decode? (a ++ b :: rest) = none := by
  refine Option.eq_none_iff_forall_ne_some.2 fun c hc => ?_
  have encoded := Utf8.decode?_eq_some_iff.1 hc
  rcases List.prefix_or_prefix_of_prefix encoded
    (List.prefix_append a (b :: rest)) with inside | ⟨left, beyond⟩
  · rw [Utf8.decode?_eq_some_iff.2 inside] at hd
    cases hd
  · rw [← beyond, List.prefix_append_right_inj] at encoded
    cases left with
    | nil =>
        rw [List.append_nil] at beyond
        rw [beyond, Utf8.decode?_eq_some_iff.2 List.prefix_rfl] at hd
        cases hd
    | cons first left =>
        -- the character would hold the ASCII byte, so it would be one byte
        obtain rfl := (List.cons_prefix_cons.1 encoded).1
        have one := Utf8.length_encode_of_ascii
          (beyond ▸ List.mem_append_right a List.mem_cons_self) hb
        rw [← beyond, List.length_append, List.length_cons] at one
        have := List.length_pos_iff.2 more
        omega

/-- Bytes from an ASCII byte on are read on their own. -/
theorem ofBytes_append_cons (a : List UInt8) {b : UInt8}
    (hb : b.toNat < 0x80) (rest : List UInt8) :
    ofBytes (a ++ b :: rest) = ofBytes a ++ ofBytes (b :: rest) := by
  fun_induction ofBytes a with
  | case1 => rfl
  | case2 first later c hd ih =>
      have encoded := Utf8.decode?_eq_some_iff.1 hd
      have inside : c.utf8Size - 1 ≤ later.length := by
        have := encoded.length_le
        rw [String.length_utf8EncodeChar, List.length_cons] at this
        omega
      have decoded : Utf8.decode? (first :: (later ++ b :: rest)) = some c :=
        Utf8.decode?_eq_some_iff.2
          (encoded.trans (List.prefix_append (first :: later) (b :: rest)))
      rw [List.cons_append, ofBytes, decoded]
      dsimp only
      rw [List.drop_append_of_le_length inside, List.cons_append, ih]
  | case3 first later hd ih =>
      have undecoded :=
        decode?_append_of_none hd (List.cons_ne_nil first later) hb rest
      rw [List.cons_append] at undecoded
      rw [List.cons_append, ofBytes, undecoded]
      dsimp only
      rw [List.cons_append, ih]

/-- Bytes behind a line end are read on their own. -/
theorem ofBytes_append {a : List UInt8}
    (ends : a = [] ∨ a.getLast? = some 10) (b : List UInt8) :
    ofBytes (a ++ b) = ofBytes a ++ ofBytes b := by
  rcases ends with rfl | last
  · rw [List.nil_append, ofBytes, List.nil_append]
  · obtain ⟨before, rfl⟩ := List.getLast?_eq_some_iff.1 last
    have newline (rest : List UInt8) :
        ofBytes (10 :: rest) = .newline :: ofBytes rest :=
      ofBytes_ascii rest (by decide)
    rw [List.append_assoc, List.singleton_append,
      ofBytes_append_cons before (by decide),
      ofBytes_append_cons before (by decide), newline, newline, ofBytes,
      List.append_assoc, List.singleton_append]

-- ========================================================= line ends

/-- Glyphs whose last one is a line end. -/
def Ended (src : List Glyph) : Prop := src.getLast? = some newline

namespace Ended

variable {src rest : List Glyph} {g : Glyph}

theorem mem (h : Ended src) : newline ∈ src := List.mem_of_getLast? h

/-- What is left of such glyphs ends in the same way. -/
theorem suffix (h : Ended src) (hs : rest <:+ src) (more : rest ≠ []) :
    Ended rest :=
  (getLast?_of_suffix hs more).trans h

end Ended

/-- Behind another glyph there is still the line end. -/
theorem mem_of_ne {g : Glyph} {rest : List Glyph}
    (h : newline ∈ g :: rest) (other : g ≠ newline) : newline ∈ rest :=
  (List.mem_cons.1 h).resolve_left other.symm

end Glyph

-- ================================================================ runs

section Runs

variable {α : Type} {p : α → Bool} {x : α} {items : List α}

/-- A run stops at an item that is none of it. -/
theorem dropWhile_append_of_stop (hx : x ∈ items) (hp : p x = false)
    (more : List α) :
    (items ++ more).dropWhile p = items.dropWhile p ++ more := by
  induction items with
  | nil => cases hx
  | cons y items ih =>
      rw [List.cons_append, List.dropWhile_cons, List.dropWhile_cons]
      split
      next hy =>
        have later : x ∈ items := by
          rcases List.mem_cons.1 hx with rfl | later
          · rw [hp] at hy
            cases hy
          · exact later
        rw [ih later]
      next => rfl

/-- What is dropped before an item is dropped whatever stands behind. -/
theorem drop_append_of_mem {count : Nat} (hx : x ∈ items.drop count)
    (more : List α) :
    (items ++ more).drop count = items.drop count ++ more := by
  have inside := List.length_pos_of_mem hx
  rw [List.length_drop] at inside
  exact List.drop_append_of_le_length (by omega)

/-- The first item is the first whatever stands behind. -/
theorem head?_append_of_mem (hx : x ∈ items) (more : List α) :
    (items ++ more).head? = items.head? := by
  cases items with
  | nil => cases hx
  | cons => rfl

end Runs

end BuildLexer
