/-
A literal in code, in one call.

A scanner is in code where it is in no recipe line and in no string
(`Scanner.InCode`). What stands at a digit there is a date, a time or a
number, and a number also stands at a minus sign before a digit.

Such a literal is a text of ASCII characters. The call that takes it
(`Scanner.Takes`) gives the text as it is and comes to stand right
behind it. It reports what was found in the literal, and between that
what is wrong with the glyph behind, which is looked at when it is
reached; in the literal itself no glyph is wrong.
-/
import BuildLexer.Proofs.Literal.Digits
import BuildLexer.Proofs.Progress.Session
import BuildLexer.Proofs.Scanner.Passage
import BuildLexer.Proofs.Scanner.Reports

namespace BuildLexer

open Glyph

/-- A text of ASCII characters without a NUL. -/
def PlainText (text : List Char) : Prop :=
  ∀ c ∈ text, 0 < c.toNat ∧ c.toNat < 0x80

theorem Digit.plain (d : Digit) : 0 < d.char.toNat ∧ d.char.toNat < 0x80 := by
  rw [d.toNat_char]
  omega

namespace Glyph

theorem width_ascii {c : Char} (h : c.toNat < 0x80) :
    (scalar c).width = 1 := by
  have size := utf8Size_of_ascii h
  rwa [Char.ofNat_toNat] at size

theorem totalWidth_written {text : List Char} (plain : PlainText text) :
    totalWidth (written text) = text.length := by
  induction text with
  | nil => rfl
  | cons c text ih =>
      obtain ⟨first, later⟩ := List.forall_mem_cons.1 plain
      rw [written_cons, totalWidth_cons, width_ascii first.2, ih later,
        List.length_cons, Nat.add_comm]

/-- Nothing is wrong with the glyphs of such a text. -/
theorem faultsFrom_written {text : List Char} (plain : PlainText text)
    (offset : Nat) : faultsFrom offset (written text) = [] := by
  induction text generalizing offset with
  | nil => rfl
  | cons c text ih =>
      obtain ⟨first, later⟩ := List.forall_mem_cons.1 plain
      have fine : fault? offset (scalar c) = none := by
        show (if c = '\x00' then _ else if c = '\uFEFF' ∧ 0 < offset then _
          else none : Option Fault) = none
        rw [if_neg, if_neg]
        · rintro ⟨rfl, -⟩
          exact absurd first.2 (by decide)
        · rintro rfl
          exact absurd first.1 (by decide)
      rw [written_cons, faultsFrom, fine, ih later]
      rfl

/-- What is reached when a text is passed: the glyph behind it. -/
theorem faultsFrom_behind {text : List Char} (plain : PlainText text)
    {more : Nat} (count : text.length = more + 1) (offset : Nat)
    (behind : List Glyph) :
    faultsFrom (offset + totalWidth ((written text ++ behind).take 1))
        (((written text ++ behind).drop 1).take (more + 1))
      = faultsFrom (offset + text.length) (behind.take 1) := by
  cases text with
  | nil => cases count
  | cons c text =>
      obtain ⟨first, later⟩ := List.forall_mem_cons.1 plain
      have length : (written text).length = more := by
        rw [length_written]
        exact Nat.succ.inj count
      have reached : (((written (c :: text) ++ behind).drop 1).take (more + 1))
          = written text ++ behind.take 1 := by
        show (written text ++ behind).take (more + 1) = _
        rw [← length, List.take_length_add_append]
      have width : totalWidth ((written (c :: text) ++ behind).take 1) = 1 :=
        width_ascii first.2
      rw [reached, width, faultsFrom_append, faultsFrom_written later,
        totalWidth_written later, List.nil_append, List.length_cons,
        Nat.add_assoc, Nat.add_comm 1]

end Glyph

namespace Scanner

-- ============================================================= in code

/-- A scanner in neither a recipe line nor a string. A call by a name
counts as over where no name follows. -/
structure InCode (s : Scanner) : Prop where
  noRecipe : (s.nesting.settle s.rest).has .recipeLine = false
  noString : (s.nesting.settle s.rest).has .quoted = false

/-- The constructs around a glyph in code. -/
def around (s : Scanner) (g : Glyph) : Nesting :=
  (s.nesting.settle s.rest).atGlyph g

theorem InCode.plan {s : Scanner} (h : s.InCode) {g : Glyph}
    {rest : List Glyph} (front : s.rest = g :: rest) :
    s.plan = Plan.inCode s.mode (s.around g) g rest := by
  obtain ⟨noRecipe, noString⟩ := h
  unfold Scanner.plan around
  rw [front] at noRecipe noString ⊢
  show Plan.atGlyph s.mode (s.nesting.settle (g :: rest)) g rest = _
  unfold Plan.atGlyph
  rw [noRecipe, noString]
  rfl

theorem not_isLetter_of_isDigit {g : Glyph} (h : g.isDigit = true) :
    g.isLetter = false := by
  obtain ⟨d, rfl⟩ := exists_of_isDigit h
  revert d
  decide

/-- At a digit there is a date, a time or a number. -/
theorem InCode.plan_of_isDigit {s : Scanner} (h : s.InCode) {g : Glyph}
    {rest : List Glyph} (front : s.rest = g :: rest)
    (digit : g.isDigit = true) :
    s.plan = Plan.digits (s.around g) s.rest := by
  rw [h.plan front, front]
  unfold Plan.inCode
  rw [not_isLetter_of_isDigit digit, digit]
  rfl

/-- At a minus sign before a digit there is a number. -/
theorem InCode.plan_of_minus {s : Scanner} (h : s.InCode)
    {rest : List Glyph} (front : s.rest = scalar '-' :: rest)
    (digit : rest.head?.any isDigit = true) :
    s.plan = Plan.number (s.around (scalar '-')) 1 s.rest := by
  rw [h.plan front, front]
  have letter : (scalar '-').isLetter = false := by decide
  unfold Plan.inCode
  rw [letter]
  show (if rest.head?.any isDigit then _ else _ : Plan) = _
  rw [digit]
  rfl

-- ============================================================ in a file

/-- A scanner at a place of a source that is as long as its file. -/
structure Reading (source : List UInt8) (s : Scanner) : Prop where
  stands : s.StandsIn source
  ahead : s.offset + totalWidth s.rest ≤ s.file.size

/-- In a session a scanner is always at a place of its source. -/
theorem reading_of_session {file : File} {mode : Mode}
    {source : List UInt8} {s t : Scanner} {lexemes : List Lexeme}
    (started : Scanner.start file mode source = .ok s)
    (work : Session s lexemes t) : t.Reading source := by
  have placed := (placed_start started).session work
  obtain ⟨-, rfl⟩ := start_eq_ok started
  obtain ⟨passed, begun, -⟩ := passed_ofGlyphs file mode (ofBytes source)
  refine ⟨work.preserves (P := StandsIn source) (fun _ stands => ?_)
    (fun _ _ stands => stands) begun.standsIn, placed.ahead⟩
  exact scan_preserves (fun u h => h.perform u.plan) (fun _ _ h => h) stands

-- ==================================================== taking a literal

/-- A plan that takes a text. -/
structure PlansText (p : Plan) (token : Token) (text : List Char)
    (early late : List Finding) : Prop where
  plain : PlainText text
  token : p.token = some token
  spelled : p.text = String.ofList text
  length : (written text).length = p.more + 1
  skips : p.skipsLine = false
  early : p.early = early
  late : p.late = late

/-- A token that spans a text, whatever follows. -/
theorem plansText_spanning {n : Nesting} {token : Token} {more : Nat}
    {early late : List Finding} {text : List Char} (plain : PlainText text)
    (count : text.length = more + 1) (behind : List Glyph) :
    PlansText
      { Plan.spanning token (written text ++ behind) more n with early, late }
      token text early late where
  plain := plain
  token := rfl
  spelled := by
    show lossyText ((written text ++ behind).take (more + 1)) = _
    rw [← count, ← length_written, List.take_left]
    exact lossyText_map_scalar text
  length := (length_written text).trans count
  skips := rfl
  early := rfl
  late := rfl

/-- A call that takes a literal. -/
structure Takes (s : Scanner) (token : Token) (text : List Char)
    (early late : List Finding) : Prop where
  lexeme : s.scan.1 = ⟨s.file.handle s.offset, token, String.ofList text⟩
  rest : s.rest = written text ++ s.scan.2.rest
  offset : s.scan.2.offset = s.offset + text.length
  findings : s.scan.2.findings = s.findings
    ++ (early.map (Finding.shift s.offset)
      ++ faultsFrom s.scan.2.offset (s.scan.2.rest.take 1)
      ++ late.map (Finding.shift s.offset))

theorem placed_eq_shift {size start count : Nat} {fs : List Finding}
    (inside : start + count ≤ size) (contained : ∀ f ∈ fs, f.offset ≤ count) :
    fs.map (Finding.placed size start) = fs.map (Finding.shift start) := by
  refine List.map_congr_left fun f hf => ?_
  have := contained f hf
  unfold Finding.placed Finding.shift
  rw [Nat.min_eq_left (by omega)]

namespace PlansText

variable {s : Scanner} {token : Token} {text : List Char}
  {behind : List Glyph} {early late : List Finding}

/-- What is reported when such a plan is carried out. -/
theorem added (h : PlansText s.plan token text early late)
    (front : s.rest = written text ++ behind)
    (inside : s.offset + totalWidth s.rest ≤ s.file.size) :
    s.added s.plan = early.map (Finding.shift s.offset)
      ++ faultsFrom (s.offset + text.length) (behind.take 1)
      ++ late.map (Finding.shift s.offset) := by
  have count : text.length = s.plan.more + 1 := by
    rw [← h.length, length_written]
  have bound : s.offset + (s.plan.more + 1) ≤ s.file.size := by
    rw [front, totalWidth_append, totalWidth_written h.plain] at inside
    omega
  have contained : ∀ f ∈ s.plan.early ++ s.plan.late,
      f.offset ≤ s.plan.more + 1 := fun f hf =>
    (Plan.contained_next s.mode s.nesting s.rest f hf).1
  rw [h.early, h.late] at contained
  unfold Scanner.added
  rw [h.early, h.late,
    placed_eq_shift bound fun f hf =>
      contained f (List.mem_append_left late hf),
    placed_eq_shift bound fun f hf =>
      contained f (List.mem_append_right early hf),
    front, faultsFrom_behind h.plain count]

/-- A call that carries out such a plan. -/
theorem takes (h : PlansText s.plan token text early late)
    (front : s.rest = written text ++ behind)
    (inside : s.offset + totalWidth s.rest ≤ s.file.size) :
    s.Takes token text early late := by
  have call := scan_of_token h.token
  have rest : s.scan.2.rest = behind := by
    rw [call]
    show (s.perform s.plan).rest = behind
    rw [rest_perform, Plan.leaves_of_not_skipsLine h.skips, front,
      ← h.length, List.drop_left]
  have offset : s.scan.2.offset = s.offset + text.length := by
    rw [call]
    show (s.perform s.plan).offset = _
    rw [offset_perform, Plan.reads_of_not_skipsLine h.skips, front,
      ← h.length, List.take_left, totalWidth_written h.plain]
  refine ⟨?_, ?_, offset, ?_⟩
  · rw [call, h.spelled]
    show (⟨(s.perform s.plan).file.handle s.offset, token, _⟩ : Lexeme) = _
    rw [(s.kin_perform s.plan).handle]
  · rw [rest, front]
  · rw [rest, offset, ← h.added front inside,
      ← findings_perform s.plan inside, call]
    rfl

end PlansText

end Scanner

end BuildLexer
