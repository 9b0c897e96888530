/-
How far a scanner has come in its source.

The glyphs of a source fall into those a scanner has passed and those
ahead of it, and its offset is the width of the former (`Passed`). A
step passes what its plan reads, and a byte order mark is passed at the
start. Said of bytes, the source is cut at the offset
(`Passed.source_eq`), so what is known of the glyphs on either side is
known of the bytes there.

What is ahead does not depend on what was passed: it is what the bytes
from the offset on are read as (`StandsIn`), and a step keeps that too.
-/
import BuildLexer.Proofs.Scanner.Effect

namespace BuildLexer.Scanner

open Glyph

/-- A scanner whose glyphs ahead are those of a source from its offset on. -/
def StandsIn (source : List UInt8) (s : Scanner) : Prop :=
  s.rest = ofBytes (source.drop s.offset)

namespace StandsIn

variable {source : List UInt8} {s : Scanner}

theorem perform (h : s.StandsIn source) (p : Plan) :
    (s.perform p).StandsIn source := by
  have h : s.rest = ofBytes (source.drop s.offset) := h
  show (s.perform p).rest = ofBytes (source.drop (s.perform p).offset)
  rw [rest_perform, offset_perform, ← List.drop_drop]
  exact (ofBytes_drop (h.symm.trans (p.reads_append_leaves s.rest).symm)).symm

end StandsIn

/-- A scanner that has passed some glyphs of a source. -/
structure Passed (src passed : List Glyph) (s : Scanner) : Prop where
  split : passed ++ s.rest = src
  offset : s.offset = totalWidth passed

namespace Passed

variable {src passed : List Glyph} {s : Scanner}

/-- A step passes what it reads. -/
theorem perform (h : Passed src passed s) (p : Plan) :
    Passed src (passed ++ p.reads s.rest) (s.perform p) where
  split := by
    rw [rest_perform, List.append_assoc, Plan.reads_append_leaves, h.split]
  offset := by
    rw [offset_perform, h.offset, totalWidth_append]

theorem standsIn {source : List UInt8}
    (h : Passed (ofBytes source) passed s) : s.StandsIn source := by
  unfold StandsIn
  rw [h.offset]
  exact (ofBytes_drop h.split.symm).symm

/-- The bytes of a source are cut at the offset. -/
theorem source_eq {source : List UInt8}
    (h : Passed (ofBytes source) passed s) :
    source = allBytes passed ++ allBytes s.rest
      ∧ s.offset = (allBytes passed).length := by
  have bytes := allBytes_ofBytes source
  rw [← h.split, allBytes, List.flatMap_append] at bytes
  exact ⟨bytes.symm, h.offset.trans (length_allBytes passed).symm⟩

/-- What is ahead, in bytes. -/
theorem drop_source {source : List UInt8}
    (h : Passed (ofBytes source) passed s) :
    source.drop s.offset = allBytes s.rest := by
  obtain ⟨cut, offset⟩ := h.source_eq
  rw [cut, offset, List.drop_left]

end Passed

/-- At the start nothing is passed but a byte order mark. -/
theorem passed_ofGlyphs (file : File) (mode : Mode) (src : List Glyph) :
    ∃ passed, Passed src passed (ofGlyphs file mode src)
      ∧ (passed = [] ∧ src.head? ≠ some byteOrderMark
        ∨ passed = [byteOrderMark]) := by
  rcases moved_ofGlyphs file mode src with ⟨hm, moved⟩ | ⟨hm, moved⟩
  · obtain ⟨rest, rfl⟩ := List.head?_eq_some_iff.1 hm
    refine ⟨[byteOrderMark], ⟨?_, ?_⟩, Or.inr rfl⟩
    · rw [moved.rest]
      rfl
    · rw [moved.offset, Nat.zero_add]
      rfl
  · exact ⟨[], ⟨moved.rest, moved.offset⟩, Or.inl ⟨rfl, hm⟩⟩

end BuildLexer.Scanner
