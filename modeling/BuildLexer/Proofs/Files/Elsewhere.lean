/-
A source is scanned the same wherever its handles lie.

The file is what a scanner registers lines in and asks for handles and
positions. Two files of one size may have other names, begin at other
handles and know other lines: scanners that read the same source into
them give the same tokens with the same texts, are in the same contexts,
and report the same at the same offsets, in whatever order tokens are
asked for and recipes are switched (`start_elsewhere`). The handles are
as far from the one base as from the other.

Two scanners stay counterparts: at the same place of the source, inside
the same constructs, with the same findings (`Counterparts`). The plan of
a step does not look at the file, and what a step finds is the same by
offset. Lines and columns may well differ, and so they are in none of
this: they depend on the lines a file knew before.
-/
import BuildLexer.Proofs.Nesting.Sound
import BuildLexer.Proofs.Progress.Session
import BuildLexer.Proofs.Scanner.Reports
import Mathlib.Data.List.Forall2

namespace BuildLexer

-- ==================================================== using a scanner

/-- What may be asked of a scanner. -/
inductive Scanner.Request where
  | scan
  | setRecipes (on : Bool)
  deriving DecidableEq

/-- What a user of a scanner sees at some time. -/
structure View where
  context : Context
  errorCount : Nat
  /-- What a listener was told, if there is one: at which offset, and in
  which words. -/
  told : List (Nat × String)
  deriving DecidableEq

namespace Scanner

/-- What a user sees who may have a listener for reports. -/
def view (listens : Bool) (s : Scanner) : View where
  context := s.context
  errorCount := s.errorCount
  told :=
    if listens then s.reports.map fun r => (r.position.offset, r.message)
    else []

/-- The answer to a request, which may be a lexeme, and the scanner from
then on. -/
def answer (s : Scanner) : Request → Option Lexeme × Scanner
  | .scan => (some s.scan.1, s.scan.2)
  | .setRecipes on => (none, s.setRecipes on)

/-- The answers to some requests, one after the other, and what is seen
after each. -/
def answers (listens : Bool) :
    Scanner → List Request → List (Option Lexeme × View)
  | _, [] => []
  | s, r :: requests =>
    let (lexeme?, next) := s.answer r
    (lexeme?, next.view listens) :: next.answers listens requests

end Scanner

/-- A lexeme in a file and the same lexeme in another. -/
structure Lexeme.Same (f g : File) (l m : Lexeme) : Prop where
  token : m.token = l.token
  text : m.text = l.text
  handle : ∃ offset ≤ f.size,
    l.handle = ⟨f.base + offset⟩ ∧ m.handle = ⟨g.base + offset⟩

/-- An answer from a scanner in a file, and the same from one in another,
after which both look the same. -/
structure Scanner.SameAnswer (f g : File) (a b : Option Lexeme × View) :
    Prop where
  lexeme : Option.Rel (Lexeme.Same f g) a.1 b.1
  view : b.2 = a.2

namespace Scanner

-- ====================================================== counterparts

/-- Two scanners at the same place of a source, each in its file. -/
structure Counterparts (f g : File) (s t : Scanner) : Prop where
  one : Placed f s
  other : Placed g t
  size : g.size = f.size
  mode : t.mode = s.mode
  nesting : t.nesting = s.nesting
  rest : t.rest = s.rest
  findings : t.findings = s.findings

namespace Counterparts

variable {f g : File} {s t : Scanner}

theorem offset (h : Counterparts f g s t) : t.offset = s.offset := by
  have one := h.one.cursor
  have other := h.other.cursor
  rw [h.rest, h.size] at other
  omega

theorem plan (h : Counterparts f g s t) : t.plan = s.plan := by
  unfold Scanner.plan
  rw [h.mode, h.nesting, h.rest]

theorem added (h : Counterparts f g s t) (p : Plan) :
    t.added p = s.added p := by
  unfold Scanner.added
  rw [h.one.size, h.other.size, h.size, h.offset, h.rest]

/-- A step in both. -/
theorem perform (h : Counterparts f g s t) (p : Plan) :
    Counterparts f g (s.perform p) (t.perform p) where
  one := h.one.perform p
  other := h.other.perform p
  size := h.size
  mode := by rw [(s.kin_perform p).mode, (t.kin_perform p).mode, h.mode]
  nesting := rfl
  rest := by rw [rest_perform, rest_perform, h.rest]
  findings := by
    rw [findings_perform p h.one.ahead, findings_perform p h.other.ahead,
      h.findings, h.added]

/-- The token of a step that makes one. -/
theorem deliver (h : Counterparts f g s t) {start : Nat}
    (inside : start ≤ f.size) (token : Token) (text : String) :
    Lexeme.Same f g (s.deliver start token text).1
        (t.deliver start token text).1
      ∧ Counterparts f g (s.deliver start token text).2
        (t.deliver start token text).2 := by
  refine ⟨⟨rfl, rfl, start, inside, h.one.handle inside,
    h.other.handle (h.size ▸ inside)⟩, ?_⟩
  obtain ⟨one, other, size, mode, nesting, rest, findings⟩ := h
  refine ⟨⟨one.base, one.size, one.cursor⟩,
    ⟨other.base, other.size, other.cursor⟩, size, mode, ?_, rest, findings⟩
  show t.nesting.afterToken _ = s.nesting.afterToken _
  rw [nesting]

/-- A call in both. -/
theorem scan (h : Counterparts f g s t) :
    Lexeme.Same f g s.scan.1 t.scan.1
      ∧ Counterparts f g s.scan.2 t.scan.2 := by
  induction s using Scanner.scan.induct generalizing t with
  | case1 s token hp =>
      have gives : t.plan.token = some token := h.plan ▸ hp
      rw [scan_of_token hp, scan_of_token gives, h.plan, h.offset]
      exact (h.perform s.plan).deliver h.one.offset_le token s.plan.text
  | case2 s hp ih =>
      have skips : t.plan.token = none := h.plan ▸ hp
      rw [scan_of_skip hp, scan_of_skip skips, h.plan]
      exact ih (h.perform s.plan)

theorem setRecipes (h : Counterparts f g s t) (on : Bool) :
    Counterparts f g (s.setRecipes on) (t.setRecipes on) := by
  refine ⟨h.one.setRecipes on, h.other.setRecipes on, h.size, h.mode, ?_,
    h.rest, h.findings⟩
  show t.nesting.setRecipes on = s.nesting.setRecipes on
  rw [h.nesting]

/-- Any request to both. -/
theorem answer (h : Counterparts f g s t) (r : Request) :
    Option.Rel (Lexeme.Same f g) (s.answer r).1 (t.answer r).1
      ∧ Counterparts f g (s.answer r).2 (t.answer r).2 := by
  cases r with
  | scan => exact ⟨.some h.scan.1, h.scan.2⟩
  | setRecipes on => exact ⟨.none, h.setRecipes on⟩

/-- Counterparts look the same. -/
theorem view (h : Counterparts f g s t) (listens : Bool) :
    t.view listens = s.view listens := by
  have words (u : Scanner) :
      u.reports.map (fun r => (r.position.offset, r.message))
        = u.findings.map fun f => (f.offset, f.fault.message) := by
    unfold Scanner.findings
    rw [List.map_map]
    rfl
  have count (u : Scanner) : u.errorCount = u.findings.length := by
    unfold Scanner.findings reports
    rw [List.length_map, List.length_reverse]
    rfl
  unfold Scanner.view Scanner.context
  rw [words, words, count, count, h.nesting, h.findings]

/-- All requests to both. -/
theorem answers (h : Counterparts f g s t) (listens : Bool)
    (requests : List Request) :
    List.Forall₂ (SameAnswer f g) (s.answers listens requests)
      (t.answers listens requests) := by
  induction requests generalizing s t with
  | nil => exact .nil
  | cons r requests ih =>
      obtain ⟨same, next⟩ := h.answer r
      exact .cons ⟨same, next.view listens⟩ (ih next)

end Counterparts

-- ========================================================= the start

/-- What is ahead at the start, whatever the file. -/
theorem rest_ofGlyphs (file : File) (mode : Mode) (src : List Glyph) :
    (ofGlyphs file mode src).rest
      = if src.head? = some .byteOrderMark then src.drop 1 else src := by
  rcases moved_ofGlyphs file mode src with ⟨mark, moved⟩ | ⟨none, moved⟩
  · rw [if_pos mark, moved.rest]
  · rw [if_neg none, moved.rest]

/-- A source that fits to one of the files fits to the other. -/
theorem counterparts_start {f g : File} (size : g.size = f.size)
    {mode : Mode} {source : List UInt8} {s : Scanner}
    (started : Scanner.start f mode source = .ok s) :
    ∃ t, Scanner.start g mode source = .ok t ∧ Counterparts f g s t := by
  have one := placed_start started
  obtain ⟨fits, rfl⟩ := start_eq_ok started
  have fits' : g.size = source.length := size.trans fits
  have begun : Scanner.start g mode source
      = .ok (ofGlyphs g mode (Glyph.ofBytes source)) := if_pos fits'
  have width := Glyph.totalWidth_ofBytes source
  have here := nesting_ofGlyphs f mode (Glyph.ofBytes source)
  have there := nesting_ofGlyphs g mode (Glyph.ofBytes source)
  refine ⟨_, begun, one, placed_start begun, size, ?_, ?_, ?_, ?_⟩
  · rw [here.2, there.2]
  · rw [here.1, there.1]
  · rw [rest_ofGlyphs, rest_ofGlyphs]
  · rw [findings_ofGlyphs (by omega), findings_ofGlyphs (by omega)]

/-- Where a source is scanned makes no difference but to its handles. -/
theorem start_elsewhere (f g : File) (size : g.size = f.size) (mode : Mode)
    (source : List UInt8) (listens : Bool) (requests : List Request) :
    (∃ e, Scanner.start f mode source = .error e
        ∧ Scanner.start g mode source = .error e)
      ∨ ∃ s t, Scanner.start f mode source = .ok s
        ∧ Scanner.start g mode source = .ok t
        ∧ t.view listens = s.view listens
        ∧ List.Forall₂ (SameAnswer f g) (s.answers listens requests)
          (t.answers listens requests) := by
  cases started : Scanner.start f mode source with
  | error e =>
      refine .inl ⟨e, rfl, ?_⟩
      unfold Scanner.start at started ⊢
      rw [size]
      split at started
      next => cases started
      next other => rw [if_neg other, started]
  | ok s =>
      obtain ⟨t, begun, same⟩ := counterparts_start size started
      exact .inr ⟨s, t, rfl, begun, same.view listens,
        same.answers listens requests⟩

/-- A file of its own, and one among others that knows a line already. -/
theorem start_elsewhere_among_others :
    (⟨"kit", 41, 3, [2]⟩ : File).size = (File.alone "main" 3).size
      ∧ ∃ s t, Scanner.start (File.alone "main" 3) {} [97, 10, 0] = .ok s
        ∧ Scanner.start ⟨"kit", 41, 3, [2]⟩ {} [97, 10, 0] = .ok t
        ∧ t.view true = s.view true
        ∧ List.Forall₂
          (SameAnswer (File.alone "main" 3) ⟨"kit", 41, 3, [2]⟩)
          (s.answers true [.scan, .setRecipes true, .scan, .scan])
          (t.answers true [.scan, .setRecipes true, .scan, .scan]) := by
  refine ⟨rfl, ?_⟩
  rcases start_elsewhere (File.alone "main" 3) ⟨"kit", 41, 3, [2]⟩ rfl {}
    [97, 10, 0] true [.scan, .setRecipes true, .scan, .scan] with
    ⟨e, failed, -⟩ | started
  · cases failed
  · exact started

end Scanner

end BuildLexer
