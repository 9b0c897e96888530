/-
Backslashes in strings.

A step inside a string is told by the glyph alone (`InString.plan`), and
an escape leaves the string as it is. So what is behind the escape is met
inside the same string by the next call: its closing quotes close it, and
a line end breaks off a string in one quote (`Escapes.closes`,
`Escapes.breaks`).

How far the escape goes is decided by the grammar: the call takes the
text that is accepted behind the backslash, and says of it whether it is
an escape (`escapes_read`).
-/
import BuildLexer.Proofs.Escape.Grammar
import BuildLexer.Proofs.Scanner.Told

namespace BuildLexer

open Glyph

namespace Plan

/-- What a step does at a backslash in a string. -/
theorem inString_backslash (n : Nesting) (rest : List Glyph) :
    inString n (.scalar '\\') rest = stringEscape n rest := rfl

theorem inString_closes {n : Nesting} {rest : List Glyph}
    (closes : n.has .tripleQuoted = false ∨ twoQuotes rest = true) :
    (inString n (.scalar '"') rest).token = some (.literal .composed) := by
  unfold inString
  dsimp only
  rw [if_pos rfl]
  split
  next => rfl
  next triple =>
    have twice : twoQuotes rest = true := by
      refine closes.resolve_left fun single => triple ?_
      rw [single]
      rfl
    rw [if_pos twice]
    rfl

theorem inString_breaks {n : Nesting} {rest : List Glyph}
    (single : n.has .tripleQuoted = false) :
    (inString n .newline rest).token = some (.punct .lineEnd) := by
  unfold inString
  rw [single]
  rfl

end Plan

namespace Nesting

variable {inherited : Context} {kinds : List Flag} {n : Nesting}

/-- Directly inside a string one is inside nothing else. -/
theorem has_eq_false_of_quoted (h : Layers inherited kinds n.stack)
    (quoted : n.has .quoted = true) {f : Flag} (hf : f ∈ Context.kinds)
    (other : f ≠ .quoted) : n.has f = false := by
  refine Bool.eq_false_iff.2 fun held => other ?_
  have first := (has_iff_of_layers h (by decide)).1 quoted
  have second := (has_iff_of_layers h hf).1 held
  exact Option.some.inj (second.symm.trans first)

end Nesting

namespace Scanner

variable {file : File} {mode : Mode} {source : List UInt8}
  {begun s : Scanner} {g : Glyph} {rest behind : List Glyph}
  {text : List Char}

-- =========================================================== in a string

/-- A scanner directly inside a string. -/
def InString (s : Scanner) : Prop :=
  (s.nesting.settle s.rest).has .quoted = true

/-- Whether the string around the place has three quotes at each end. -/
def inTriple (s : Scanner) : Bool :=
  (s.nesting.settle s.rest).has .tripleQuoted

instance (s : Scanner) : Decidable s.InString :=
  inferInstanceAs (Decidable (_ = true))

/-- There a step is one in a string. -/
theorem InString.plan (h : s.InString) (sound : s.Sound)
    (front : s.rest = g :: rest) :
    s.plan = Plan.inString (s.nesting.settle s.rest) g rest := by
  obtain ⟨inherited, ⟨⟨kinds, layers⟩, -⟩, -⟩ := sound
  obtain ⟨kinds, layers⟩ := Nesting.layers_settle layers s.rest
  have noRecipe := Nesting.has_eq_false_of_quoted layers h
    (f := .recipeLine) (by decide) nofun
  have quoted : (s.nesting.settle s.rest).has .quoted = true := h
  unfold Scanner.plan
  rw [front] at noRecipe quoted ⊢
  show Plan.atGlyph s.mode (s.nesting.settle (g :: rest)) g rest = _
  unfold Plan.atGlyph
  rw [noRecipe, quoted]
  rfl

/-- A string goes on behind what leaves the constructs as they are. -/
theorem InString.after {t : Scanner} (h : s.InString) (sound : s.Sound)
    (same : t.nesting = (s.nesting.settle s.rest).afterToken false) :
    t.InString ∧ t.inTriple = s.inTriple := by
  obtain ⟨inherited, ⟨⟨kinds, layers⟩, -⟩, -⟩ := sound
  obtain ⟨kinds, layers⟩ := Nesting.layers_settle layers s.rest
  have after := Nesting.layers_afterToken layers false
  have keeps (f : Flag) (hf : f ≠ .lineStart) :
      t.nesting.has f = (s.nesting.settle s.rest).has f := by
    rw [same, Bool.eq_iff_iff, Nesting.has_iff, Nesting.has_iff]
    exact Nesting.mem_afterToken hf false
  have quoted : t.nesting.has .quoted = true := (keeps .quoted nofun).trans h
  rw [← same] at after
  have unnamed := Nesting.has_eq_false_of_quoted after quoted
    (f := .nameCall) (by decide) nofun
  have settled : t.nesting.settle t.rest = t.nesting :=
    Nesting.settle_eq (by rw [unnamed]; nofun)
  unfold InString inTriple
  rw [settled]
  exact ⟨quoted, keeps .tripleQuoted nofun⟩

/-- A call in a string behind which the string goes on: its closing
quotes and, in one quote, the end of the line are met by the next call. -/
structure GoesOn (s : Scanner) (behind : List Glyph) : Prop where
  rest : s.scan.2.rest = behind
  inString : s.scan.2.InString
  closes : ∀ more, behind = scalar '"' :: more →
    s.inTriple = false ∨ Plan.twoQuotes more = true →
    s.scan.2.scan.1.token = .literal .composed
  breaks : ∀ more, behind = .newline :: more → s.inTriple = false →
    s.scan.2.scan.1.token = .punct .lineEnd

theorem InString.goesOn (h : s.InString) (sound : s.Sound)
    (same : s.scan.2.nesting = (s.nesting.settle s.rest).afterToken false)
    (rest : s.scan.2.rest = behind) : s.GoesOn behind := by
  obtain ⟨within, triple⟩ := h.after sound same
  refine ⟨rest, within, ?_, ?_⟩
  · rintro more rfl closes
    rw [← triple] at closes
    have token := Plan.inString_closes closes
    rw [← within.plan sound.scan rest] at token
    rw [lexeme_of_token token]
  · rintro more rfl single
    rw [← triple] at single
    have token : (Plan.inString _ _ more).token = _ :=
      Plan.inString_breaks single
    rw [← within.plan sound.scan rest] at token
    rw [lexeme_of_token token]

-- ============================================================ backslashes

/-- What is told about escapes. -/
def escapeWords : List String :=
  ["unknown escape sequence", "escape sequence not terminated",
    "illegal character in escape sequence",
    "escape sequence is invalid Unicode code point"]

def escapeFaults : List Fault :=
  [.unknownEscape, .openEscape, .brokenEscape, .escapeOutOfRange]

theorem means_escapeWords : Means escapeWords escapeFaults := by decide

theorem mem_escapeFaults {f : Fault} (h : f.topic = .escape) :
    f ∈ escapeFaults := by
  cases f <;> first | decide | cases h

open Escape (IsEscape Accepts Verdict)

/-- A call that takes a text behind a backslash in a string: as an escape,
or as an illegal token with the backslash and with one report. -/
structure Escapes (s : Scanner) (text : List Char) (behind : List Glyph) :
    Prop extends s.GoesOn behind where
  handle : s.scan.1.handle = s.file.handle s.offset
  escape : IsEscape text → s.scan.1.token = .literal .escape
    ∧ s.scan.1.text = String.ofList text
    ∧ told escapeWords s s.scan.2 = []
  illegal : ¬ IsEscape text → s.scan.1.token = .illegal
    ∧ s.scan.1.text = String.ofList ('\\' :: text)
    ∧ (told escapeWords s s.scan.2).length = 1

/-- The string goes on behind a plan for a backslash and a text. -/
theorem InString.goesOn_of_plan (h : s.InString) (sound : s.Sound)
    (front : s.rest = scalar '\\' :: (written text ++ behind))
    {token : Token} {lexeme : String} {late : List Finding}
    (plan : s.plan =
      { token := some token
        text := lexeme
        more := text.length
        late := late
        nesting := s.nesting.settle s.rest })
    (other : (token == .punct .lineEnd) = false) : s.GoesOn behind := by
  have made : s.plan.token = some token := by rw [plan]
  refine h.goesOn sound ?_ ?_
  · rw [scan_of_token made]
    show (s.perform s.plan).nesting.afterToken _ = _
    rw [nesting_perform, other, plan]
  · rw [rest_of_token made, plan, Plan.leaves_of_not_skipsLine rfl, front,
      List.drop_succ_cons, ← length_written, List.drop_left]

/-- What the reader decides is what the call does. -/
theorem InString.escapes (h : s.InString) (sound : s.Sound)
    (ahead : s.offset + totalWidth s.rest ≤ s.file.size)
    (front : s.rest = scalar '\\' :: (written text ++ behind))
    (verdict : Verdict text (Escape.read (written text ++ behind))) :
    s.Escapes text behind := by
  have plan := h.plan sound front
  have taken : (written text ++ behind).take text.length = written text := by
    rw [← length_written, List.take_left]
  rw [Plan.inString_backslash, Plan.stringEscape] at plan
  generalize read : Escape.read (written text ++ behind) = decided
    at verdict plan
  cases verdict with
  | valid is =>
      dsimp only at plan
      have made : s.plan.token = some (.literal .escape) := by rw [plan]
      refine ⟨h.goesOn_of_plan sound front plan rfl, ?_, fun _ => ⟨?_, ?_, ?_⟩,
        fun other => absurd is other⟩
      · rw [lexeme_of_token made]
      · rw [lexeme_of_token made]
      · rw [lexeme_of_token made, plan, taken]
        exact lossyText_map_scalar text
      · rw [told_scan made means_escapeWords (by decide) ahead, plan]
        rfl
  | @invalid finding other =>
      dsimp only at plan
      have made : s.plan.token = some .illegal := by rw [plan]
      have about := (Escape.about_read read finding
        (List.mem_singleton_self _)).1
      refine ⟨h.goesOn_of_plan sound front plan rfl, ?_,
        fun is => absurd is other, fun _ => ⟨?_, ?_, ?_⟩⟩
      · rw [lexeme_of_token made]
      · rw [lexeme_of_token made]
      · rw [lexeme_of_token made, plan, taken]
        exact lossyText_map_scalar ('\\' :: text)
      · rw [told_scan made means_escapeWords (by decide) ahead, plan]
        show (offsetsOf escapeFaults
          [(finding.shift 1).placed s.file.size s.offset]).length = 1
        have member : ((finding.shift 1).placed s.file.size s.offset).fault
            ∈ escapeFaults := mem_escapeFaults about
        rw [offsetsOf_singleton member]
        rfl

/-- A backslash in a string: before a line end it is skipped with it, and
anywhere else the text that is accepted behind it is taken, and nothing
of what follows. -/
theorem escapes_read (file : File) (mode : Mode) (source : List UInt8)
    (begun s : Scanner) (rest : List Glyph)
    (started : Scanner.start file mode source = .ok begun)
    (place : StepsAt begun s) (inString : s.InString)
    (front : s.rest = scalar '\\' :: rest) :
    (rest.head? = some .newline →
        s.plan.token = none ∧ s.scan = (s.perform s.plan).scan
          ∧ (s.perform s.plan).rest = rest.tail
          ∧ (s.perform s.plan).nesting = s.nesting.settle s.rest
          ∧ told escapeWords s (s.perform s.plan) = [])
      ∧ (rest.head? ≠ some .newline →
        (∃ text behind, rest = written text ++ behind
            ∧ Accepts text behind)
          ∧ ∀ text behind, rest = written text ++ behind →
            Accepts text behind → s.Escapes text behind) := by
  have sound := place.sound started
  have ahead := (place.reading started).ahead
  constructor
  · intro newline
    obtain ⟨rest, rfl⟩ := List.head?_eq_some_iff.1 newline
    have plan : s.plan = Plan.skip 1 (s.nesting.settle s.rest) :=
      inString.plan sound front
    have none : s.plan.token = none := by rw [plan]; rfl
    refine ⟨none, scan_of_skip none, ?_, ?_, ?_⟩
    · rw [rest_perform, plan, front]
      rfl
    · rw [nesting_perform, plan]
      rfl
    · rw [told_perform means_escapeWords (by decide) ahead, plan]
      rfl
  · intro other
    obtain ⟨text, behind, split, accepts, verdict⟩ :=
      Escape.exists_verdict other
    refine ⟨⟨text, behind, split, accepts⟩, ?_⟩
    intro text' behind' split' accepts'
    obtain ⟨rfl, rfl⟩ := accepts.unique accepts' (split.symm.trans split')
    rw [split] at front verdict
    exact inString.escapes sound ahead front verdict

/-- Behind the opening quote of `"\\129`. -/
def beforeOctal : Scanner :=
  (ofGlyphs (File.alone "" 5) {} (ofBytes [34, 92, 49, 50, 57])).scan.2

/-- Behind the opening quote of `"\\x4"`. -/
def beforeBroken : Scanner :=
  (ofGlyphs (File.alone "" 5) {} (ofBytes [34, 92, 120, 52, 34])).scan.2

/-- Two octal digits are an escape before a nine; one hexadecimal digit is
none, and the quote that breaks it closes the string. -/
theorem escapes_read_octal_broken :
    beforeOctal.scan.1.token = .literal .escape
      ∧ beforeOctal.scan.1.text = "12"
      ∧ beforeOctal.scan.2.rest = [scalar '9']
      ∧ beforeBroken.scan.1.token = .illegal
      ∧ beforeBroken.scan.1.text = "\\x4"
      ∧ (told escapeWords beforeBroken beforeBroken.scan.2).length = 1
      ∧ beforeBroken.scan.2.scan.1.token = .literal .composed := by
  have octal : Accepts ['1', '2'] [scalar '9'] := by
    refine ⟨⟨[], .octal (forall_mem_of_all (by decide)) (by decide)
      (by decide) trivial⟩, ?_⟩
    rintro c more ⟨⟩ begins
    obtain ⟨digits, -⟩ := (Escape.begins_octal_iff (by decide)).1 begins
    exact absurd (digits '9' (by simp)) (by decide)
  have broken : Accepts ['x', '4'] [scalar '"'] := by
    refine ⟨⟨['0'], .hexadecimal rfl (forall_mem_of_all (by decide)) rfl
      trivial⟩, ?_⟩
    rintro c more ⟨⟩ begins
    obtain ⟨digits, -⟩ := (Escape.begins_letter_iff rfl).1 begins
    exact absurd (digits '"' (by simp)) (by decide)
  have escape : IsEscape ['1', '2'] :=
    .octal (forall_mem_of_all (by decide)) (by decide) (by decide)
      (by unfold Escape.Allowed; decide)
  have other : ¬ IsEscape ['x', '4'] := fun form =>
    absurd ((Escape.form_letter_iff rfl).1 form).2.1 (by decide)
  have first := ((escapes_read (File.alone "" 5) {} [34, 92, 49, 50, 57] _
    beforeOctal (written ['1', '2', '9']) rfl
    (.call (.scan (.done _))) (by decide +kernel) (by decide +kernel)).2
    (by decide)).2 ['1', '2'] [scalar '9'] rfl octal
  have second := ((escapes_read (File.alone "" 5) {} [34, 92, 120, 52, 34] _
    beforeBroken (written ['x', '4', '"']) rfl
    (.call (.scan (.done _))) (by decide +kernel) (by decide +kernel)).2
    (by decide)).2 ['x', '4'] [scalar '"'] rfl broken
  obtain ⟨token, text, -⟩ := first.escape escape
  obtain ⟨token', text', told⟩ := second.illegal other
  refine ⟨token, text, first.rest, token', text', told, ?_⟩
  exact second.closes [] rfl (.inl (by decide +kernel))

end Scanner

end BuildLexer
