/-
What is wrong with the encoding of a source, said without a scanner.

From the start of the source on, a character is taken where the bytes of
one stand, and a single byte where those of none do. `Decoding` says
this of bytes, with what is to be reported on the way: each NUL, each
byte order mark behind the start, each byte taken alone. It leaves no choice,
because no two characters have encodings that one text can begin with
(`Decoding.unique`), and it is what reading a source as glyphs comes to
(`decoding_ofBytes`).
-/
import BuildLexer.Proofs.Scanner.Reports

namespace BuildLexer

/-- What is to be reported of a character at an offset. -/
def characterFaults (offset : Nat) (c : Char) : List (Nat × String) :=
  if c = '\x00' then [(offset, "illegal character NUL")]
  else if c = '\uFEFF' ∧ 0 < offset then
    [(offset, "illegal byte order mark")]
  else []

/-- The decoding of some bytes from an offset on, and what is to be
reported of them. -/
inductive Decoding : Nat → List UInt8 → List (Nat × String) → Prop
  | done (offset : Nat) : Decoding offset [] []
  /-- The bytes of a character stand here. -/
  | character {offset : Nat} (c : Char) {rest : List UInt8}
      {found : List (Nat × String)}
      (later : Decoding (offset + (String.utf8EncodeChar c).length) rest
        found) :
      Decoding offset (String.utf8EncodeChar c ++ rest)
        (characterFaults offset c ++ found)
  /-- Those of no character do. -/
  | byte {offset : Nat} {b : UInt8} {rest : List UInt8}
      {found : List (Nat × String)}
      (none : ∀ c : Char, ¬ String.utf8EncodeChar c <+: b :: rest)
      (later : Decoding (offset + 1) rest found) :
      Decoding offset (b :: rest)
        ((offset, "illegal UTF-8 encoding") :: found)

namespace Decoding

variable {offset : Nat} {bytes : List UInt8}
  {found other : List (Nat × String)}

/-- Two characters whose bytes stand at the same place are one. -/
theorem character_unique {c d : Char} {rest rest' : List UInt8}
    (h : String.utf8EncodeChar c ++ rest
      = String.utf8EncodeChar d ++ rest') : c = d ∧ rest = rest' := by
  have first := Utf8.decode?_encode_append c rest
  rw [h, Utf8.decode?_encode_append d rest'] at first
  obtain rfl := Option.some.inj first
  exact ⟨rfl, List.append_cancel_left h⟩

/-- There is one decoding. -/
theorem unique (h : Decoding offset bytes found)
    (h' : Decoding offset bytes other) : found = other := by
  induction h generalizing other with
  | done offset =>
      generalize none : ([] : List UInt8) = bytes at h'
      cases h' with
      | done => rfl
      | character c later =>
          have length := String.length_utf8EncodeChar c
          rw [(List.append_eq_nil_iff.1 none.symm).1] at length
          exact absurd length (Nat.ne_of_lt c.utf8Size_pos)
      | byte => cases none
  | @character offset c rest found later ih =>
      generalize same : String.utf8EncodeChar c ++ rest = bytes at h'
      cases h' with
      | done =>
          have length := String.length_utf8EncodeChar c
          rw [(List.append_eq_nil_iff.1 same).1] at length
          exact absurd length (Nat.ne_of_lt c.utf8Size_pos)
      | character d later' =>
          obtain ⟨rfl, rfl⟩ := character_unique same
          rw [ih later']
      | byte none => exact absurd ⟨rest, same⟩ (none c)
  | @byte offset b rest found none later ih =>
      generalize same : b :: rest = bytes at h'
      cases h' with
      | done => cases same
      | @character _ d rest' _ _ =>
          exact absurd ⟨rest', same.symm⟩ (none d)
      | byte _ later' =>
          obtain ⟨rfl, rfl⟩ := List.cons.inj same
          rw [ih later']

end Decoding

-- ============================================================== glyphs

/-- A finding as it is told: where it is, and in which words. -/
def Finding.told (f : Finding) : Nat × String :=
  (f.offset, f.fault.message)

namespace Glyph

theorem told_scalar (offset : Nat) (c : Char) :
    ((fault? offset (scalar c)).toList.map (Finding.mk offset ·)).map
        Finding.told
      = characterFaults offset c := by
  unfold characterFaults
  show ((Option.toList (if c = '\x00' then some Fault.nulCharacter
    else if c = '\uFEFF' ∧ 0 < offset then some Fault.strayByteOrderMark
    else none)).map _).map _ = _
  split
  · rfl
  split
  · rfl
  · rfl

/-- Reading a source as glyphs and looking at each of them is the
decoding of the source. -/
theorem decoding_ofBytes (offset : Nat) (bytes : List UInt8) :
    Decoding offset bytes
      ((faultsFrom offset (ofBytes bytes)).map Finding.told) := by
  induction bytes using ofBytes.induct generalizing offset with
  | case1 =>
      rw [ofBytes]
      exact .done offset
  | case2 b rest c hc ih =>
      have front := drop_of_decode? hc
      have read : ofBytes (b :: rest)
          = scalar c :: ofBytes (rest.drop (c.utf8Size - 1)) := by
        rw [ofBytes]
        simp only [hc]
      rw [read, faultsFrom, List.map_append, told_scalar, front]
      refine .character c ?_
      rw [String.length_utf8EncodeChar]
      exact ih (offset + c.utf8Size)
  | case3 b rest hn ih =>
      have read : ofBytes (b :: rest) = broken b :: ofBytes rest := by
        rw [ofBytes]
        simp only [hn]
      rw [read, faultsFrom]
      refine .byte (fun c front => ?_) (ih (offset + 1))
      rw [Utf8.decode?_eq_some_iff.2 front] at hn
      cases hn

end Glyph

end BuildLexer
