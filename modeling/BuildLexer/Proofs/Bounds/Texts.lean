/-
The texts of tokens are slices of the source.

A token that carries a text was given that of what its step reads, with
or without the first glyph of it (`Plan.Cut`), whatever the rule. So the
text is a slice of the source that begins where the step began, or one
glyph behind, and ends where the scanner stands after it; and such a
slice, cut between glyphs, is read as those glyphs
(`Scanner.Seated.slice`).
-/
import BuildLexer.Proofs.Bounds.Cursor
import BuildLexer.Proofs.Tiling.Rules

namespace BuildLexer

-- ================================================================ plans

namespace Plan

variable {mode : Mode} {n : Nesting} {g : Glyph} {src rest : List Glyph}
  {p : Plan}

/-- A plan whose text is cut out of what it reads. -/
def Cut (src : List Glyph) (p : Plan) : Prop :=
  p.text = ""
    ∨ ∃ k ≤ 1, p.text = Glyph.lossyText ((p.reads src).drop k)

/-- The first glyph that is read is the first ahead. -/
theorem take_one_reads (p : Plan) (src : List Glyph) :
    (p.reads src).take 1 = src.take 1 := by
  cases src with
  | nil =>
      have none := (List.append_eq_nil_iff.1 (p.reads_append_leaves [])).1
      rw [none]
  | cons g rest =>
      obtain ⟨more, h⟩ := p.exists_reads_cons g rest
      rw [h]
      rfl

/-- The text of all that is read. -/
theorem cut_of_whole (plain : p.skipsLine = false)
    (text : p.text = Glyph.lossyText (src.take (p.more + 1))) :
    p.Cut src := by
  refine Or.inr ⟨0, Nat.zero_le 1, ?_⟩
  rw [List.drop_zero, reads_of_not_skipsLine plain]
  exact text

/-- The text of what is behind the first glyph. -/
theorem cut_of_behind (plain : p.skipsLine = false)
    (text : p.text = Glyph.lossyText (rest.take p.more)) :
    p.Cut (g :: rest) := by
  refine Or.inr ⟨1, Nat.le_refl 1, ?_⟩
  rw [reads_of_not_skipsLine plain, List.take_succ_cons,
    List.drop_succ_cons, List.drop_zero]
  exact text

/-- A token that spans what is read has it as its text. -/
theorem cut_spanning (token : Token) (src : List Glyph) (more : Nat)
    (n : Nesting) : (spanning token src more n).Cut src :=
  cut_of_whole rfl rfl

/-- A reference has no text. -/
theorem cut_reference (sigil : Sigil) :
    (reference sigil n rest).Cut src := by
  unfold reference
  split
  next => exact Or.inl rfl
  next => exact Or.inl rfl

theorem cut_referenceInText (sigil : Sigil) :
    (referenceInText sigil n rest).Cut (g :: rest) := by
  unfold referenceInText
  split
  next h =>
    obtain ⟨rest, rfl⟩ := List.head?_eq_some_iff.1 h
    exact cut_of_behind rfl (Glyph.lossyText_map_scalar [sigil.symbol]).symm
  next => exact cut_reference sigil

/-- In a recipe line text is cut as far as a step goes. -/
theorem cut_inRecipe : (inRecipe n g rest).Cut (g :: rest) := by
  unfold inRecipe
  split
  next => exact Or.inl rfl
  split
  next h =>
    unfold recipeEscape
    split
    next =>
      refine cut_of_whole rfl ?_
      rw [h]
      rfl
    next => exact cut_of_behind rfl rfl
  split
  next => exact cut_referenceInText _
  split
  next => exact cut_referenceInText _
  next => exact cut_spanning _ _ _ _

/-- An escape is text with its backslash. -/
theorem cut_stringEscape :
    (stringEscape n rest).Cut (.scalar '\\' :: rest) := by
  unfold stringEscape
  split
  next => exact cut_of_behind rfl rfl
  next => exact Or.inl rfl
  next => exact cut_of_whole rfl rfl

/-- In a string text is cut as far as a step goes. -/
theorem cut_inString : (inString n g rest).Cut (g :: rest) := by
  unfold inString
  dsimp only
  split
  next =>
    split
    next => exact Or.inl rfl
    split
    next => exact Or.inl rfl
    next => exact cut_spanning _ _ _ _
  split
  next => exact Or.inl rfl
  split
  next h =>
    rw [h]
    exact cut_stringEscape
  split
  next => exact cut_referenceInText _
  split
  next => exact cut_referenceInText _
  next => exact cut_spanning _ _ _ _

/-- A number is spelled as it is read. -/
theorem cut_number (start : Nat) (src : List Glyph) :
    (number n start src).Cut src :=
  cut_of_whole rfl rfl

theorem cut_digits (src : List Glyph) : (digits n src).Cut src := by
  unfold digits
  split
  next => exact cut_of_whole rfl rfl
  next => exact cut_number 0 src

/-- An operator has no text, and an illegal glyph is its own. -/
theorem cut_operator : (operator n g rest).Cut (g :: rest) := by
  unfold operator
  split
  next => exact Or.inl rfl
  next => exact cut_of_whole rfl rfl

theorem cut_colon (next : List Char) : (colon n next).Cut src := by
  have rule : (ruleColon n next).Cut src := by
    unfold ruleColon
    split <;> exact Or.inl rfl
  unfold colon
  split
  · split
    · exact Or.inl rfl
    · exact Or.inl rfl
  split
  · exact Or.inl rfl
  · exact rule

/-- A comment is text up to the end of its line, without what ends it. -/
theorem cut_hash :
    (Plan.hash mode n (.scalar '#' :: rest)).Cut (.scalar '#' :: rest) := by
  unfold Plan.hash
  split
  next => exact Or.inl rfl
  split
  next =>
    refine Or.inr ⟨0, Nat.zero_le 1, ?_⟩
    rw [List.drop_zero, (reads_comment rfl rfl rest).1]
    rfl
  next => exact Or.inl rfl

/-- At a mark text is cut as its rule reads. -/
theorem cut_special : (special mode n g rest).Cut (g :: rest) := by
  unfold special
  dsimp only
  split
  next =>
    split
    next => exact cut_of_behind rfl rfl
    next => exact cut_spanning _ _ _ _
  next => exact cut_spanning _ _ _ _
  next => exact cut_spanning _ _ _ _
  next =>
    unfold lineEnd
    split
    next => exact Or.inl rfl
    next => exact Or.inl rfl
  next h =>
    obtain rfl := Glyph.eq_scalar_of_char h (by decide)
    exact cut_hash
  next =>
    unfold backslash
    split
    next => exact Or.inl rfl
    next => exact Or.inl rfl
  next => exact cut_of_whole rfl rfl
  next =>
    unfold openString
    split
    next => exact cut_spanning _ _ _ _
    next => exact cut_spanning _ _ _ _
  next => exact cut_reference _
  next => exact cut_reference _
  next => exact cut_colon _
  next =>
    unfold rightBracket
    split
    next => exact Or.inl rfl
    next => exact Or.inl rfl
  next => exact Or.inl rfl
  next => exact Or.inl rfl
  next => exact Or.inl rfl
  next => exact Or.inl rfl
  next =>
    split
    next => exact cut_number 1 _
    next => exact cut_operator
  next => exact cut_operator

/-- The text of every plan is cut out of what it reads. -/
theorem cut_next (mode : Mode) (n : Nesting) (src : List Glyph) :
    (next mode n src).Cut src := by
  cases src with
  | nil => exact Or.inl rfl
  | cons g rest =>
      show (atGlyph mode (n.settle (g :: rest)) g rest).Cut (g :: rest)
      unfold atGlyph
      split
      next => exact cut_inRecipe
      split
      next => exact cut_inString
      unfold inCode
      split
      next => exact cut_of_whole rfl rfl
      split
      next => exact cut_digits _
      next => exact cut_special

end Plan

-- =============================================================== slices

namespace Glyph

/-- The bytes of some first glyphs are read as these glyphs, though
nothing follows them any more. -/
theorem ofBytes_take {bs : List UInt8} {first rest : List Glyph}
    (h : ofBytes bs = first ++ rest) :
    ofBytes (bs.take (totalWidth first)) = first := by
  induction first generalizing bs with
  | nil => rw [totalWidth, List.take_zero, ofBytes]
  | cons g first ih =>
      cases bs with
      | nil =>
          rw [ofBytes] at h
          cases h
      | cons b more =>
          have behind : ofBytes ((b :: more).drop (totalWidth [g]))
              = first ++ rest := ofBytes_drop h
          rw [totalWidth, totalWidth, Nat.add_zero] at behind
          rw [totalWidth, List.take_add]
          rw [ofBytes] at h
          cases hd : Utf8.decode? (b :: more) with
          | some c =>
              rw [hd] at h
              obtain ⟨rfl, -⟩ := List.cons.inj h
              have size := String.length_utf8EncodeChar c
              obtain ⟨left, written⟩ := Utf8.decode?_eq_some_iff.1 hd
              have front : (b :: more).take (scalar c).width
                  = String.utf8EncodeChar c := by
                rw [← written]
                show List.take c.utf8Size _ = _
                rw [← size, List.take_left]
              rw [front, ofBytes_encode_append, ih behind]
          | none =>
              rw [hd] at h
              obtain ⟨rfl, -⟩ := List.cons.inj h
              have undecoded :
                  Utf8.decode? (b :: more.take (totalWidth first)) = none := by
                refine Option.eq_none_iff_forall_ne_some.2 fun c hc => ?_
                have whole := (Utf8.decode?_eq_some_iff.1 hc).trans
                  (List.take_prefix (totalWidth first + 1) (b :: more))
                rw [Utf8.decode?_eq_some_iff.2 whole] at hd
                cases hd
              show ofBytes (b :: more.take (totalWidth first)) = _
              rw [ofBytes, undecoded]
              exact congrArg (broken b :: ·) (ih behind)

end Glyph

namespace Scanner.Seated

variable {source : List UInt8} {s : Scanner}

/-- A part of what is ahead is a slice of the source, read as that
part. -/
theorem slice (h : s.Seated source) {before part after : List Glyph}
    (split : s.rest = before ++ part ++ after) :
    ∃ bytes, Checked.slice? source (s.offset + Glyph.totalWidth before)
        (s.offset + Glyph.totalWidth (before ++ part)) = some bytes
      ∧ Glyph.ofBytes bytes = part := by
  have ahead : s.rest = Glyph.ofBytes (source.drop s.offset) := h.stands
  have width := h.width
  rw [split, Glyph.totalWidth_append] at width
  rw [split, List.append_assoc] at ahead
  have behind := Glyph.ofBytes_drop ahead.symm
  rw [List.drop_drop] at behind
  refine ⟨_, Checked.slice?_of_le ?_ (by omega), ?_⟩
  · rw [Glyph.totalWidth_append]
    omega
  · rw [Glyph.totalWidth_append, ← Nat.add_assoc, Nat.add_sub_cancel_left]
    exact Glyph.ofBytes_take behind

/-- The text of a step is a slice of the source. -/
theorem text (h : s.Seated source) (p : Plan) (cut : p.Cut s.rest) :
    p.text = ""
      ∨ ∃ start bytes, (start = s.offset ∨ start = s.readOffset)
        ∧ Checked.slice? source start (s.perform p).offset = some bytes
        ∧ p.text = Glyph.lossyText (Glyph.ofBytes bytes) := by
  refine cut.imp_right fun ⟨k, one, text⟩ => ?_
  have split : s.rest
      = (p.reads s.rest).take k ++ (p.reads s.rest).drop k
        ++ p.leaves s.rest := by
    rw [List.take_append_drop, Plan.reads_append_leaves]
  obtain ⟨bytes, found, read⟩ := h.slice split
  rw [List.take_append_drop, ← offset_perform] at found
  refine ⟨_, bytes, ?_, found, ?_⟩
  · rcases Nat.le_one_iff_eq_zero_or_eq_one.1 one with rfl | rfl
    · exact Or.inl rfl
    · exact Or.inr (congrArg (s.offset + Glyph.totalWidth ·)
        (p.take_one_reads s.rest))
  · rw [read]
    exact text

end Scanner.Seated

end BuildLexer
