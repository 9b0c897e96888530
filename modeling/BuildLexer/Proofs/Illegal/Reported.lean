/-
No illegal token is silent, but for one character.

What is wrong with a glyph wherever it stands is reported when the glyph
is reached, so it has been reported by the time a token starts there
(`Looked`). A step that makes an illegal token relies on that: it
reports what it finds itself, but for a NUL, a byte order mark and the
replacement character, which stands for a byte that was reported. There
is one way for that to fail. The replacement character may be written
out, as three bytes that are well formed, and then nobody has reported
anything (`illegal_reported`).

A report is never taken back, so a scanner that has none at the end had
none behind any of its tokens.
-/
import BuildLexer.Proofs.Nesting.Invariant
import BuildLexer.Proofs.Nesting.Turns
import BuildLexer.Proofs.Progress.Call
import BuildLexer.Proofs.Scanner.Passage
import BuildLexer.Proofs.Scanner.Reports

namespace BuildLexer

open Plan Glyph

/-- A glyph that a step finds nothing about was reported when it was
reached, or is the replacement character. -/
theorem fault_of_illegalFindings {g : Glyph} {offset : Nat}
    (h : illegalFindings g = [])
    (mark : 0 < offset ∨ g ≠ byteOrderMark) :
    (∃ fault, g.fault? offset = some fault) ∨ g = .scalar '\uFFFD' := by
  cases g with
  | broken b => exact Or.inl ⟨_, rfl⟩
  | scalar c =>
      unfold illegalFindings at h
      dsimp only [Glyph.char] at h
      split at h
      next special =>
        rcases special with rfl | rfl | rfl
        · exact Or.inl ⟨_, rfl⟩
        · exact Or.inr rfl
        · have inside := mark.resolve_right fun other => other rfl
          exact Or.inl ⟨.strayByteOrderMark, by simp [Glyph.fault?, inside]⟩
      next => cases h

namespace Scanner

variable {file : File} {src : List Glyph} {s t : Scanner}
  {lexemes : List Lexeme}

-- ============================================================= reports

/-- A step takes no report back. -/
theorem Placed.prefix_perform (h : Placed file s) (p : Plan) :
    s.findings <+: (s.perform p).findings := by
  rw [findings_perform p h.ahead]
  exact List.prefix_append _ _

theorem Placed.prefix_scan (h : Placed file s) :
    s.findings <+: s.scan.2.findings := by
  induction s using scan.induct with
  | case1 s token hp =>
      rw [scan_of_token hp]
      exact h.prefix_perform s.plan
  | case2 s hp ih =>
      rw [scan_of_skip hp]
      exact (h.prefix_perform s.plan).trans (ih (h.perform s.plan))

/-- Nothing that is done with a scanner takes one back. -/
theorem Placed.prefix_session (h : Placed file s)
    (work : Session s lexemes t) : s.findings <+: t.findings := by
  induction work with
  | done => exact List.prefix_rfl
  | scan _ ih => exact h.prefix_scan.trans (ih h.scan)
  | setRecipes on _ ih => exact ih (h.setRecipes on)

/-- What is wrong with the glyph that a step stops at is reported in the
step. -/
theorem mem_added_of_reached {p : Plan} {f : Finding}
    (h : f ∈ faultsFrom (s.perform p).offset
      ((s.perform p).rest.take 1)) : f ∈ s.added p := by
  rw [offset_perform, rest_perform] at h
  cases hp : p.skipsLine with
  | true =>
      -- the step stops at a newline or at the end
      cases hr : p.leaves s.rest with
      | nil =>
          rw [hr] at h
          cases h
      | cons g rest =>
          have stop : g = newline := by
            apply newline_of_skipsLine hp
            rw [hr, List.head?_cons]
          rw [hr, stop] at h
          cases h
  | false =>
      rw [reads_of_not_skipsLine hp, leaves_of_not_skipsLine hp] at h
      have reached : (s.rest.drop 1).take (p.more + 1)
          = (s.rest.drop 1).take p.more
            ++ (s.rest.drop (p.more + 1)).take 1 := by
        rw [List.take_add, List.drop_drop, Nat.add_comm 1]
      have width : totalWidth (s.rest.take (p.more + 1))
          = totalWidth (s.rest.take 1)
            + totalWidth ((s.rest.drop 1).take p.more) := by
        rw [← totalWidth_append, ← List.take_add, Nat.add_comm 1]
      rw [width, ← Nat.add_assoc] at h
      refine List.mem_append_left _ (List.mem_append_right _ ?_)
      rw [reached, faultsFrom_append]
      exact List.mem_append_right _ h

-- ============================================================== looking

/-- A scanner at work on some glyphs that has reported what is wrong
with the one ahead. -/
structure Looked (file : File) (src : List Glyph) (s : Scanner) : Prop where
  sound : s.Sound
  placed : Placed file s
  passed : ∃ passed, Passed src passed s
  mark : 0 < s.offset ∨ s.rest.head? ≠ some byteOrderMark
  found : ∀ f ∈ faultsFrom s.offset (s.rest.take 1), f ∈ s.findings

namespace Looked

theorem perform (h : Looked file src s) :
    Looked file src (s.perform s.plan) where
  sound := h.sound.perform
  placed := h.placed.perform _
  passed := by
    obtain ⟨passed, place⟩ := h.passed
    exact ⟨_, place.perform s.plan⟩
  mark := by
    rw [offset_perform, rest_perform]
    cases s.rest with
    | nil =>
        rw [Plan.leaves_nil]
        exact Or.inr nofun
    | cons g rest =>
        obtain ⟨more, hm⟩ := s.plan.exists_reads_cons g rest
        have width := g.width_pos
        rw [hm, totalWidth_cons]
        omega
  found := by
    intro f hf
    rw [findings_perform s.plan h.placed.ahead]
    exact List.mem_append_right _ (mem_added_of_reached hf)

theorem scan (h : Looked file src s) : Looked file src s.scan.2 := by
  apply scan_preserves (fun _ => perform) _ h
  intro u ends hu
  obtain ⟨passed, place⟩ := hu.passed
  exact ⟨hu.sound.afterToken ends,
    ⟨hu.placed.base, hu.placed.size, hu.placed.cursor⟩,
    ⟨passed, place.split, place.offset⟩, hu.mark, hu.found⟩

theorem setRecipes (h : Looked file src s) (on : Bool) :
    Looked file src (s.setRecipes on) := by
  obtain ⟨passed, place⟩ := h.passed
  exact ⟨h.sound.setRecipes on, h.placed.setRecipes on,
    ⟨passed, place.split, place.offset⟩, h.mark, h.found⟩

end Looked

theorem looked_start {mode : Mode} {source : List UInt8}
    (h : Scanner.start file mode source = .ok s) :
    Looked file (ofBytes source) s := by
  have placed := placed_start h
  obtain ⟨size, rfl⟩ := start_eq_ok h
  obtain ⟨passed, place, first⟩ :=
    passed_ofGlyphs file mode (ofBytes source)
  have inside : totalWidth (ofBytes source) ≤ file.size :=
    Nat.le_of_eq ((totalWidth_ofBytes source).trans size.symm)
  refine ⟨sound_ofGlyphs _ _ _, placed, ⟨passed, place⟩, ?_, ?_⟩
  · rw [place.offset]
    rcases first with ⟨rfl, other⟩ | rfl
    · rw [← place.split] at other
      exact Or.inr other
    · exact Or.inl (by decide)
  · intro f hf
    rw [place.offset] at hf
    rw [findings_ofGlyphs inside]
    rcases first with ⟨rfl, other⟩ | rfl
    · rw [if_neg other, ← place.split]
      exact hf
    · rw [← place.split, List.cons_append, List.head?_cons, if_pos rfl,
        List.take_succ_cons, faultsFrom]
      exact List.mem_append_right _ hf

-- ============================================================ one token

namespace Looked

/-- What a step finds at its end or before is reported up to there. -/
theorem reported_of_late (h : Looked file src s)
    (hl : s.plan.late ≠ []) :
    ∃ f ∈ (s.perform s.plan).findings,
      s.offset ≤ f.offset ∧ f.offset ≤ (s.perform s.plan).offset := by
  obtain ⟨f, hf⟩ := List.exists_mem_of_ne_nil _ hl
  refine ⟨f.placed s.file.size s.offset, ?_, ?_, ?_⟩
  · rw [findings_perform s.plan h.placed.ahead]
    refine List.mem_append_right _ (List.mem_append_right _ ?_)
    exact List.mem_map_of_mem hf
  · have inside := h.placed.ahead
    show s.offset ≤ min (s.offset + f.offset) s.file.size
    omega
  · have behind := h.placed.perform s.plan
    show min (s.offset + f.offset) s.file.size ≤ _
    by_cases left : s.plan.leaves s.rest = []
    · have ended := behind.rest_eq_nil_iff.1 ((rest_perform _ _).trans left)
      rw [ended, h.placed.size]
      omega
    · have read := offset_le_reads (List.mem_append_right _ hf) left
      rw [offset_perform]
      omega

/-- A step that makes an illegal token has something reported about it,
unless it stands at the replacement character. -/
theorem reported (h : Looked file src s)
    (hp : s.plan.token = some .illegal) :
    s.rest.head? = some (.scalar '\uFFFD')
      ∨ ∃ f ∈ (s.perform s.plan).findings,
        s.offset ≤ f.offset ∧ f.offset ≤ (s.perform s.plan).offset := by
  cases hr : s.rest with
  | nil =>
      rw [token_plan_nil s hr] at hp
      cases hp
  | cons g rest =>
      obtain ⟨inherited, kinds, m, -, -, -, -, turns⟩ := h.sound.turns hr
      by_cases hl : s.plan.late = []
      · have silent : illegalFindings g = [] := by
          rcases turns.marked hp with late | late
          · rw [← late, hl]
          · exact absurd hl late
        have mark : 0 < s.offset ∨ g ≠ byteOrderMark := by
          refine h.mark.imp_right fun other he => other ?_
          rw [hr, he, List.head?_cons]
        rcases fault_of_illegalFindings silent mark with ⟨fault, hf⟩ | rfl
        · right
          have found : ⟨s.offset, fault⟩ ∈ s.findings := by
            apply h.found
            rw [hr, List.take_succ_cons, faultsFrom, hf]
            exact List.mem_cons_self
          refine ⟨_, (h.placed.prefix_perform _).subset found,
            Nat.le_refl _, ?_⟩
          rw [offset_perform]
          exact Nat.le_add_right _ _
        · exact Or.inl rfl
      · exact Or.inr (h.reported_of_late hl)

/-- An illegal token of a call has something reported about it, unless
it starts with the bytes of the replacement character. -/
theorem illegal_scan {source : List UInt8}
    (h : Looked file (ofBytes source) s)
    (illegal : s.scan.1.token = .illegal) :
    ∃ start, s.scan.1.handle = ⟨file.base + start⟩
      ∧ start < s.scan.2.offset
      ∧ ([0xEF, 0xBF, 0xBD] <+: source.drop start
        ∨ ∃ r ∈ s.scan.2.reports, start ≤ r.position.offset
          ∧ r.position.offset ≤ s.scan.2.offset) := by
  obtain ⟨u, token, hu, hp, call⟩ :=
    exists_lastStep (fun _ hs _ => Looked.perform hs) h
  rw [call] at illegal ⊢
  obtain rfl : token = .illegal := illegal
  refine ⟨u.offset, ?_, ?_, ?_⟩
  · show (u.perform u.plan).file.handle u.offset = _
    rw [(u.kin_perform u.plan).handle, hu.placed.handle hu.placed.offset_le]
  · show u.offset < (u.perform u.plan).offset
    cases hr : u.rest with
    | nil =>
        rw [token_plan_nil u hr] at hp
        cases hp
    | cons g rest =>
        obtain ⟨more, hm⟩ := u.plan.exists_reads_cons g rest
        have width := g.width_pos
        rw [offset_perform, hr, hm, totalWidth_cons]
        omega
  · rcases hu.reported hp with replacement | ⟨f, hf, inside⟩
    · obtain ⟨passed, place⟩ := hu.passed
      obtain ⟨rest, hr⟩ := List.head?_eq_some_iff.1 replacement
      rw [place.drop_source, hr]
      exact Or.inl ⟨allBytes rest, rfl⟩
    · obtain ⟨r, hr, rfl⟩ := List.mem_map.1 hf
      exact Or.inr ⟨r, hr, inside⟩

end Looked

-- ============================================================= sessions

/-- If nothing was reported, all illegal tokens are the replacement
character. -/
theorem Session.illegal_of_silent {source : List UInt8}
    (work : Session s lexemes t) (h : Looked file (ofBytes source) s)
    (silent : t.errorCount = 0) :
    ∀ l ∈ lexemes, l.token = .illegal → ∃ start,
      l.handle = ⟨file.base + start⟩
        ∧ [0xEF, 0xBF, 0xBD] <+: source.drop start := by
  induction work with
  | done => exact nofun
  | setRecipes on _ ih => exact ih (h.setRecipes on) silent
  | @scan s t lexemes work ih =>
      intro l hl illegal
      rcases List.mem_cons.1 hl with rfl | hl
      · obtain ⟨start, handle, -, replacement | ⟨r, hr, -⟩⟩ :=
          h.illegal_scan illegal
        · exact ⟨start, handle, replacement⟩
        · exfalso
          have kept := (h.scan.placed.prefix_session work).length_le
          have none : t.findings.length = 0 := by
            unfold findings reports
            rw [List.length_map, List.length_reverse]
            exact silent
          have some : 0 < s.scan.2.findings.length :=
            List.length_pos_of_mem (List.mem_map_of_mem hr)
          omega
      · exact ih h.scan silent l hl illegal

/-- Each illegal token is reported by the time its call returns, at an
offset it covers or at its end, unless it is the replacement character
written out. So where nothing is reported there are no other illegal
tokens. -/
theorem illegal_reported {file : File} {mode : Mode}
    {source : List UInt8} {s t : Scanner} {lexemes : List Lexeme}
    (started : Scanner.start file mode source = .ok s)
    (work : Session s lexemes t) :
    (t.scan.1.token = .illegal → ∃ start,
      t.scan.1.handle = ⟨file.base + start⟩
        ∧ start < t.scan.2.offset
        ∧ ([0xEF, 0xBF, 0xBD] <+: source.drop start
          ∨ ∃ r ∈ t.scan.2.reports, start ≤ r.position.offset
            ∧ r.position.offset ≤ t.scan.2.offset))
      ∧ (t.errorCount = 0 → ∀ l ∈ lexemes, l.token = .illegal →
        ∃ start, l.handle = ⟨file.base + start⟩
          ∧ [0xEF, 0xBF, 0xBD] <+: source.drop start) := by
  have looked := looked_start started
  constructor
  · have behind : Looked file (ofBytes source) t :=
      work.preserves (fun _ => Looked.scan)
        (fun _ on hs => hs.setRecipes on) looked
    exact behind.illegal_scan
  · exact work.illegal_of_silent looked

/-- Before `"\q"`, a string with an escape in it that there is not. -/
def beforeUnknownEscape : Scanner :=
  ofGlyphs (File.alone "" 4) {} (ofBytes [34, 92, 113, 34])

theorem illegal_reported_escape :
    Scanner.start (File.alone "" 4) {} [34, 92, 113, 34]
        = .ok beforeUnknownEscape
      ∧ beforeUnknownEscape.scan.2.scan.1.token = .illegal
      ∧ ∃ lexemes, Session beforeUnknownEscape lexemes
          beforeUnknownEscape.scan.2
        ∧ ∃ start, beforeUnknownEscape.scan.2.scan.1.handle
            = ⟨(File.alone "" 4).base + start⟩
          ∧ start < beforeUnknownEscape.scan.2.scan.2.offset
          ∧ ([0xEF, 0xBF, 0xBD]
              <+: ([34, 92, 113, 34] : List UInt8).drop start
            ∨ ∃ r ∈ beforeUnknownEscape.scan.2.scan.2.reports,
              start ≤ r.position.offset ∧ r.position.offset
                ≤ beforeUnknownEscape.scan.2.scan.2.offset) := by
  have started : Scanner.start (File.alone "" 4) {} [34, 92, 113, 34]
      = .ok beforeUnknownEscape := rfl
  have work : Session beforeUnknownEscape _ beforeUnknownEscape.scan.2 :=
    .scan (.done _)
  have illegal : beforeUnknownEscape.scan.2.scan.1.token = .illegal := by
    decide +kernel
  exact ⟨started, illegal, _, work,
    (illegal_reported started work).1 illegal⟩

/-- Before the replacement character, written out. -/
def beforeReplacement : Scanner :=
  ofGlyphs (File.alone "" 3) {} (ofBytes [0xEF, 0xBF, 0xBD])

/-- Nothing is reported there, so illegal tokens can be silent. -/
theorem not_illegal_reported_all :
    ¬ ∀ (file : File) (mode : Mode) (source : List UInt8) (s t : Scanner)
        (lexemes : List Lexeme),
      Scanner.start file mode source = .ok s → Session s lexemes t →
      t.scan.1.token = .illegal →
      ∃ start, t.scan.1.handle = ⟨file.base + start⟩
        ∧ ∃ r ∈ t.scan.2.reports, start ≤ r.position.offset
          ∧ r.position.offset ≤ t.scan.2.offset := by
  intro h
  have silent : beforeReplacement.scan.1.token = .illegal
      ∧ beforeReplacement.scan.2.reports = [] := by
    decide +kernel
  obtain ⟨start, -, r, hr, -⟩ :=
    h (File.alone "" 3) {} [0xEF, 0xBF, 0xBD] beforeReplacement
      beforeReplacement [] rfl (.done _) silent.1
  rw [silent.2] at hr
  cases hr

end Scanner

end BuildLexer
