/-
What is wrong with the encoding is reported once, where it is.

A scanner looks at a glyph when it comes to it, and where hash signs are
tokens it comes to every glyph, one after the other: no rule passes over
a line there. So what it has reported of the encoding is what is wrong
with the glyphs that it has passed and with the one ahead
(`Inspected`). Reports of other things do not get in between, because
no plan finds anything about the encoding. At the end of the source the
glyphs passed are all there are, and what was reported is what the
decoding of the source says (`encodingReports_of_session`).
-/
import BuildLexer.Proofs.Comments.Hash
import BuildLexer.Proofs.Encoding.Reference
import BuildLexer.Proofs.Progress.Call
import BuildLexer.Proofs.Scanner.Passage

namespace BuildLexer

open Glyph Plan

-- ============================================================ the words

/-- The words of reports on the encoding. -/
def encodingWords : List String :=
  ["illegal character NUL", "illegal UTF-8 encoding",
    "illegal byte order mark"]

/-- A report is told by its words to be about the encoding. -/
theorem Fault.message_mem_iff (f : Fault) :
    f.message ∈ encodingWords ↔ f.topic = .encoding := by
  have means : Means encodingWords
      [.nulCharacter, .illFormedByte, .strayByteOrderMark] := by
    decide
  rw [means.message_mem_iff f]
  cases f with
  | nulCharacter | illFormedByte | strayByteOrderMark =>
      exact iff_of_true (by decide) rfl
  | _ => exact iff_of_false (by simp) nofun

-- ============================================================= findings

/-- The findings about the encoding, in order. -/
def encodings (fs : List Finding) : List Finding :=
  fs.filter fun f => f.fault.topic = .encoding

/-- The findings about the encoding are told apart one by one. -/
theorem encodings_append (a b : List Finding) :
    encodings (a ++ b) = encodings a ++ encodings b :=
  List.filter_append ..

/-- What is wrong with glyphs is all about the encoding. -/
theorem encodings_faultsFrom (offset : Nat) (gs : List Glyph) :
    encodings (faultsFrom offset gs) = faultsFrom offset gs :=
  List.filter_eq_self.2 fun _ hf => decide_eq_true (topic_faultsFrom hf)

namespace Scanner

variable {file : File} {src : List Glyph} {s t : Scanner}

/-- A plan finds nothing about the encoding, wherever it is placed. -/
theorem encodings_placed {fs : List Finding}
    (h : ∀ f ∈ fs, f ∈ s.plan.early ++ s.plan.late) (size start : Nat) :
    encodings (fs.map (Finding.placed size start)) = [] := by
  refine List.filter_eq_nil_iff.2 fun f hf => ?_
  obtain ⟨found, hm, rfl⟩ := List.mem_map.1 hf
  have other := (contained_next _ _ _ found (h found hm)).2.2
  rw [decide_eq_true_iff]
  exact other

/-- What a step adds about the encoding is what is wrong with the glyphs
it reaches. -/
theorem encodings_added (s : Scanner) :
    encodings (s.added s.plan)
      = faultsFrom (s.offset + totalWidth (s.rest.take 1))
        ((s.rest.drop 1).take (s.plan.more + 1)) := by
  unfold added
  rw [encodings_append, encodings_append, encodings_faultsFrom,
    encodings_placed fun _ => List.mem_append_left _,
    encodings_placed fun _ => List.mem_append_right _, List.nil_append,
    List.append_nil]

-- ============================================================ every glyph

/-- A scanner that takes hash signs for tokens, and has looked at each
glyph of a source up to the one ahead and reported what is wrong with
it. -/
structure Inspected (file : File) (src : List Glyph) (s : Scanner) :
    Prop where
  sound : s.Sound
  hashes : s.mode.hashTokens = true
  placed : Placed file s
  looked : ∃ passed, Passed src passed s
    ∧ encodings s.findings = faultsFrom 0 (passed ++ s.rest.take 1)

namespace Inspected

/-- Where hash signs are tokens no comment begins. -/
theorem not_atComment (h : s.Sound) (hashes : s.mode.hashTokens = true) :
    ¬ s.nesting.AtComment s.rest := by
  intro comment
  obtain ⟨inherited, hn, hm⟩ := h
  obtain ⟨kinds, hl⟩ := hn.layers
  have settled : ∃ kinds, Layers inherited kinds
      (s.nesting.settle s.rest).stack := by
    unfold Nesting.settle
    split
    · exact ⟨_, Nesting.layers_leave hl _ (by decide)⟩
    · exact ⟨_, hl⟩
  obtain ⟨kinds, hl⟩ := settled
  refine comment.comments ?_
  rw [has_commentsOff hl hm]
  exact hashes

/-- A step looks at the glyphs it comes to. -/
theorem perform (h : Inspected file src s) :
    Inspected file src (s.perform s.plan) where
  sound := h.sound.perform
  hashes := by
    rw [(s.kin_perform s.plan).mode]
    exact h.hashes
  placed := h.placed.perform s.plan
  looked := by
    obtain ⟨passed, hp, looked⟩ := h.looked
    have counted : s.plan.skipsLine = false :=
      (next_of_not_atComment (not_atComment h.sound h.hashes) _).1.counted
    refine ⟨_, hp.perform s.plan, ?_⟩
    rw [findings_perform _ h.placed.ahead, encodings_append, looked,
      encodings_added, rest_perform, reads_of_not_skipsLine counted,
      leaves_of_not_skipsLine counted, hp.offset,
      ← totalWidth_append, ← Nat.zero_add (totalWidth _),
      ← faultsFrom_append, List.append_assoc, List.append_assoc,
      ← List.take_add, ← List.take_add, Nat.add_comm 1]

/-- A call keeps this, -/
theorem scan (h : Inspected file src s) :
    Inspected file src s.scan.2 :=
  scan_preserves (fun _ hs => hs.perform)
    (fun _ ends hs => ⟨hs.sound.afterToken ends, hs.hashes,
      ⟨hs.placed.base, hs.placed.size, hs.placed.cursor⟩,
      hs.looked.imp fun _ h => ⟨⟨h.1.split, h.1.offset⟩, h.2⟩⟩) h

/-- and so does switching recipes. -/
theorem setRecipes (h : Inspected file src s) (on : Bool) :
    Inspected file src (s.setRecipes on) :=
  ⟨h.sound.setRecipes on, h.hashes, h.placed.setRecipes on,
    h.looked.imp fun _ h => ⟨⟨h.1.split, h.1.offset⟩, h.2⟩⟩

end Inspected

/-- At the start the first glyph is looked at, and the one behind it if
that is a byte order mark. -/
theorem inspected_start {mode : Mode} {source : List UInt8}
    (started : Scanner.start file mode source = .ok s)
    (hashes : mode.hashTokens = true) :
    Inspected file (ofBytes source) s := by
  have sound := (Reachable.start started).sound
  have placed := placed_start started
  obtain ⟨size, rfl⟩ := start_eq_ok started
  have inside : totalWidth (ofBytes source) ≤ file.size :=
    Nat.le_of_eq ((totalWidth_ofBytes source).trans size.symm)
  obtain ⟨passed, hp, front⟩ := passed_ofGlyphs file mode (ofBytes source)
  refine ⟨sound, ?_, placed, passed, hp, ?_⟩
  · rw [(nesting_ofGlyphs file mode _).2]
    exact hashes
  · rw [findings_ofGlyphs inside, encodings_faultsFrom]
    have split := hp.split
    generalize (ofGlyphs file mode (ofBytes source)).rest = rest
      at split ⊢
    rcases front with ⟨rfl, other⟩ | rfl
    · rw [if_neg other, ← split]
      rfl
    · have mark : (ofBytes source).head? = some byteOrderMark := by
        rw [← split]
        rfl
      rw [if_pos mark, ← split]
      rfl

-- =========================================================== the reports

/-- What was reported of the encoding: where, and in which words. -/
def encodingReports (s : Scanner) : List (Nat × String) :=
  (s.reports.filter fun r => r.message ∈ encodingWords).map
    fun r => (r.position.offset, r.message)

/-- What was reported of the encoding is told by the findings. -/
theorem encodingReports_eq (s : Scanner) :
    s.encodingReports = (encodings s.findings).map Finding.told := by
  unfold encodingReports encodings findings
  rw [List.filter_map, List.map_map]
  congr 1
  refine List.filter_congr fun r _ => ?_
  exact decide_eq_decide.2 r.fault.message_mem_iff

/-- Where hash signs are tokens, and the end of a source has been read,
what was reported of the encoding is what the decoding of the source
says, in order and each once. -/
theorem encodingReports_of_session {mode : Mode} {source : List UInt8}
    {lexemes : List Lexeme}
    (started : Scanner.start file mode source = .ok s)
    (hashes : mode.hashTokens = true) (work : Session s lexemes t)
    (ended : ∃ l ∈ lexemes, l.token = .endOfFile) :
    Decoding 0 source t.encodingReports := by
  have first := inspected_start started hashes
  have last : Inspected file (ofBytes source) t :=
    work.preserves (fun _ => Inspected.scan)
      (fun _ on h => h.setRecipes on) first
  have done := (work.finished first.sound ended).rest
  obtain ⟨passed, hp, looked⟩ := last.looked
  have all : passed = ofBytes source := by
    rw [← hp.split, done, List.append_nil]
  rw [encodingReports_eq, looked, done, List.take_nil, List.append_nil,
    all]
  exact decoding_ofBytes 0 source

/-- Before a byte order mark, a hash sign and a NUL, and a string with a
broken byte and one more byte order mark in it. -/
def beforeFaults : Scanner :=
  ofGlyphs (File.alone "" 10) { hashTokens := true }
    (Glyph.ofBytes [0xEF, 0xBB, 0xBF, 35, 0, 34, 0xFF, 0xEF, 0xBB, 0xBF])

/-- Behind the text of the string. -/
def behindFaults : Scanner :=
  beforeFaults.scan.2.scan.2.scan.2.scan.2

/-- A NUL, a broken byte and a byte order mark in a string are all reported
where they are, and the first mark is not. -/
theorem encodingReports_behindFaults :
    Scanner.start (File.alone "" 10) { hashTokens := true }
        [0xEF, 0xBB, 0xBF, 35, 0, 34, 0xFF, 0xEF, 0xBB, 0xBF]
        = .ok beforeFaults
      ∧ behindFaults.scan.2.encodingReports
        = [(4, "illegal character NUL"), (6, "illegal UTF-8 encoding"),
          (7, "illegal byte order mark")]
      ∧ ∃ lexemes, Session beforeFaults lexemes behindFaults.scan.2
        ∧ (∃ l ∈ lexemes, l.token = .endOfFile)
        ∧ Decoding 0
          [0xEF, 0xBB, 0xBF, 35, 0, 34, 0xFF, 0xEF, 0xBB, 0xBF]
          behindFaults.scan.2.encodingReports := by
  have started : Scanner.start (File.alone "" 10) { hashTokens := true }
      [0xEF, 0xBB, 0xBF, 35, 0, 34, 0xFF, 0xEF, 0xBB, 0xBF]
      = .ok beforeFaults := rfl
  have work : Session beforeFaults _ behindFaults.scan.2 :=
    .scan (.scan (.scan (.scan (.scan (.done _)))))
  have ended : behindFaults.scan.1.token = .endOfFile := by
    decide +kernel
  refine ⟨started, ?_, _, work, ⟨_, List.mem_of_getLast? rfl, ended⟩, ?_⟩
  · decide +kernel
  · exact encodingReports_of_session started rfl work
      ⟨_, List.mem_of_getLast? rfl, ended⟩

end Scanner

end BuildLexer
