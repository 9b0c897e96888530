/-
A part of a source and the whole of it, scanned in step.

An `Excerpt` is a source that stands in another one: some bytes before
it, some glyphs behind it. A scanner in the part and one in the whole
mirror each other when they stand at the same place of the part, inside
the same constructs, and have reported the same since they were brought
together (`Mirrors`). A step keeps that (`Mirrors.perform`) if there is
nothing behind the part, or if the part ends with a line end that the
step does not reach, because then the two have the same plan. So do a
call and a run (`Mirrors.scan`, `Mirrors.run`).
-/
import BuildLexer.Proofs.Join.Lines
import BuildLexer.Proofs.Lookahead.Plans
import BuildLexer.Proofs.Progress.Call
import BuildLexer.Proofs.Scanner.Reports

namespace BuildLexer

open Glyph

/-- The same lexeme, further back by some bytes. -/
def Lexeme.shift (distance : Nat) (l : Lexeme) : Lexeme :=
  { l with handle := ⟨distance + l.handle.index⟩ }

-- ================================================================ plans

/-- With more behind it, glyphs are the same up to the line end that is
the last of them. -/
theorem Glyph.Ended.upTo {src : List Glyph} (h : Ended src)
    (more : List Glyph) :
    UpTo newline (src.length - 1) src (src ++ more) := by
  induction src with
  | nil => cases h
  | cons g rest ih =>
      cases rest with
      | nil =>
          obtain rfl := Option.some.inj h
          exact .here [] more
      | cons second rest =>
          refine .cons g (ih ?_)
          exact h.suffix (List.suffix_cons g _) (List.cons_ne_nil second rest)

namespace Plan

variable {p : Plan} {src : List Glyph}

theorem leaves_suffix (p : Plan) (src : List Glyph) :
    p.leaves src <:+ src :=
  ⟨p.reads src, p.reads_append_leaves src⟩

/-- With more behind the line end the same is left, and more. -/
theorem leaves_append (ends : Ended src) (h : p.leaves src ≠ [])
    (more : List Glyph) :
    p.leaves (src ++ more) = p.leaves src ++ more := by
  have inside := more_lt_of_leaves h
  have behind : newline ∈ src.drop (p.more + 1) := by
    refine (ends.suffix (List.drop_suffix _ src) ?_).mem
    rw [← List.length_pos_iff, List.length_drop]
    omega
  unfold leaves
  dsimp only
  rw [drop_append_of_mem behind]
  split
  next => exact dropWhile_append_of_stop behind rfl more
  next => rfl

end Plan

-- ============================================================= excerpts

/-- A source as a part of another: the files of both, what is before and
behind the part, and what the scanners of both have reported before they
are brought together. -/
structure Excerpt where
  part : File
  whole : File
  /-- How many bytes are before the part. -/
  distance : Nat
  /-- The glyphs behind the part. -/
  behind : List Glyph
  partBefore : List Finding
  wholeBefore : List Finding
  base : whole.base = part.base
  size : whole.size = distance + part.size + totalWidth behind

namespace Excerpt

/-- What is behind the part is not reached where some of the part, up to
a line end, is left. -/
def Covers (e : Excerpt) (src left : List Glyph) : Prop :=
  e.behind = [] ∨ Ended src ∧ left ≠ []

namespace Covers

variable {e : Excerpt} {src between left : List Glyph}

theorem first (h : e.Covers src left) (hl : left <:+ between) :
    e.Covers src between := by
  rcases h with none | ⟨ends, more⟩
  · exact Or.inl none
  · refine Or.inr ⟨ends, ?_⟩
    rintro rfl
    exact more (List.suffix_nil.1 hl)

theorem later (h : e.Covers src left) (hb : between <:+ src)
    (hl : left <:+ between) : e.Covers between left := by
  rcases h.first hl with none | ⟨ends, more⟩
  · exact Or.inl none
  · exact h.imp_right fun h => ⟨ends.suffix hb more, h.2⟩

end Covers

end Excerpt

namespace Scanner

theorem rest_perform_suffix (s : Scanner) (p : Plan) :
    (s.perform p).rest <:+ s.rest := by
  rw [rest_perform]
  exact p.leaves_suffix s.rest

/-- A call leaves an end of what was ahead. -/
theorem rest_scan_suffix (s : Scanner) : s.scan.2.rest <:+ s.rest :=
  scan_preserves (P := fun t => t.rest <:+ s.rest)
    (fun t h => (t.rest_perform_suffix t.plan).trans h)
    (fun _ _ h => h) List.suffix_rfl

/-- Two scanners at the same place of a part, one of them in the whole. -/
structure Mirrors (e : Excerpt) (s t : Scanner) : Prop where
  part : Placed e.part s
  whole : Placed e.whole t
  mode : t.mode = s.mode
  nesting : t.nesting = s.nesting
  rest : t.rest = s.rest ++ e.behind
  findings : ∃ new, s.findings = e.partBefore ++ new
    ∧ t.findings = e.wholeBefore ++ new.map (Finding.shift e.distance)

namespace Mirrors

variable {e : Excerpt} {s t : Scanner}

theorem offset (h : Mirrors e s t) : t.offset = e.distance + s.offset := by
  have part := h.part.cursor
  have whole := h.whole.cursor
  have size := e.size
  rw [h.rest, totalWidth_append] at whole
  omega

/-- The handle of a place in the part, seen from the whole. -/
theorem handle (h : Mirrors e s t) {offset : Nat}
    (inside : offset ≤ e.part.size) :
    t.file.handle (e.distance + offset)
      = ⟨e.distance + (s.file.handle offset).index⟩ := by
  have size := e.size
  rw [h.part.handle inside, h.whole.handle (by omega), e.base,
    Nat.add_left_comm]

theorem plan (h : Mirrors e s t)
    (hc : e.Covers s.rest (s.perform s.plan).rest) : t.plan = s.plan := by
  unfold Scanner.plan
  rw [h.mode, h.nesting, h.rest]
  rcases hc with none | ⟨ends, left⟩
  · rw [none, List.append_nil]
  · rw [rest_perform] at left
    have inside := Plan.more_lt_of_leaves left
    exact Plan.next_upTo .newline (ends.upTo e.behind) (fun _ => rfl)
      (show s.plan.more < _ by omega)

/-- A finding of the part is at a place of the part, or there is nothing
behind it. -/
theorem placed (h : Mirrors e s t)
    (hc : e.Covers s.rest (s.perform s.plan).rest) {f : Finding}
    (hf : f ∈ s.plan.early ++ s.plan.late) :
    f.placed t.file.size t.offset
      = (f.placed s.file.size s.offset).shift e.distance := by
  have size := e.size
  have bounds :
      min (e.distance + s.offset + f.offset)
          (e.distance + e.part.size + totalWidth e.behind)
        = e.distance + min (s.offset + f.offset) e.part.size := by
    rcases hc with none | ⟨-, left⟩
    · rw [none, totalWidth_nil]
      omega
    · rw [rest_perform] at left
      have inside := Plan.more_lt_of_leaves left
      have contained := (Plan.contained_next _ _ _ f hf).1
      have width := length_le_totalWidth s.rest
      have cursor := h.part.cursor
      have : f.offset ≤ s.plan.more + 1 := contained
      omega
  unfold Finding.placed Finding.shift
  rw [h.whole.size, h.part.size, h.offset, size, bounds]

/-- The step reaches the same glyphs in both. -/
theorem reached (h : Mirrors e s t)
    (hc : e.Covers s.rest (s.perform s.plan).rest) :
    (t.rest.drop 1).take (s.plan.more + 1)
        = (s.rest.drop 1).take (s.plan.more + 1)
      ∧ (s.rest = [] ∨ t.rest.take 1 = s.rest.take 1) := by
  rw [h.rest]
  rcases hc with none | ⟨-, left⟩
  · rw [none, List.append_nil]
    exact ⟨rfl, Or.inr rfl⟩
  · rw [rest_perform] at left
    have inside := Plan.more_lt_of_leaves left
    cases hr : s.rest with
    | nil =>
        rw [hr] at inside
        cases inside
    | cons g rest =>
        rw [hr, List.length_cons] at inside
        exact ⟨List.take_append_of_le_length (Nat.le_of_lt_succ inside),
          Or.inr rfl⟩

/-- Both scanners report the same in a step. -/
theorem added (h : Mirrors e s t)
    (hc : e.Covers s.rest (s.perform s.plan).rest) :
    t.added s.plan = (s.added s.plan).map (Finding.shift e.distance) := by
  have planned (fs : List Finding)
      (hf : ∀ f ∈ fs, f ∈ s.plan.early ++ s.plan.late) :
      fs.map (Finding.placed t.file.size t.offset)
        = (fs.map (Finding.placed s.file.size s.offset)).map
            (Finding.shift e.distance) := by
    rw [List.map_map]
    exact List.map_congr_left fun f hm => h.placed hc (hf f hm)
  have reached :
      faultsFrom (t.offset + totalWidth (t.rest.take 1))
          ((t.rest.drop 1).take (s.plan.more + 1))
        = (faultsFrom (s.offset + totalWidth (s.rest.take 1))
          ((s.rest.drop 1).take (s.plan.more + 1))).map
            (Finding.shift e.distance) := by
    obtain ⟨same, first⟩ := h.reached hc
    rw [same]
    cases hr : s.rest with
    | nil => rfl
    | cons g rest =>
        rw [first.resolve_left (hr ▸ List.cons_ne_nil g rest), hr,
          ← faultsFrom_add, h.offset, Nat.add_assoc]
        have := g.width_pos
        refine Or.inl ?_
        show 0 < s.offset + (g.width + 0)
        omega
  unfold Scanner.added
  rw [planned _ fun f hf => List.mem_append_left _ hf,
    planned _ fun f hf => List.mem_append_right _ hf, reached,
    List.map_append, List.map_append]

/-- A step in both. -/
theorem perform (h : Mirrors e s t)
    (hc : e.Covers s.rest (s.perform s.plan).rest) :
    Mirrors e (s.perform s.plan) (t.perform t.plan) := by
  have same := h.plan hc
  rw [same]
  refine ⟨h.part.perform _, h.whole.perform _, ?_, rfl, ?_, ?_⟩
  · rw [(s.kin_perform _).mode, (t.kin_perform _).mode, h.mode]
  · rw [rest_perform, rest_perform, h.rest]
    rcases hc with none | ⟨ends, left⟩
    · rw [none, List.append_nil, List.append_nil]
    · rw [rest_perform] at left
      exact Plan.leaves_append ends left e.behind
  · obtain ⟨new, hs, ht⟩ := h.findings
    refine ⟨new ++ s.added s.plan, ?_, ?_⟩
    · rw [findings_perform _ h.part.ahead, hs, List.append_assoc]
    · rw [findings_perform _ h.whole.ahead, ht, h.added hc,
        List.map_append, List.append_assoc]

/-- The token of a step that makes one. -/
theorem deliver (h : Mirrors e s t) {start start' : Nat}
    (inside : start ≤ e.part.size) (hs : start' = e.distance + start)
    (token : Token) (text : String) :
    (t.deliver start' token text).1
        = (s.deliver start token text).1.shift e.distance
      ∧ Mirrors e (s.deliver start token text).2
        (t.deliver start' token text).2 := by
  refine ⟨?_, ?_⟩
  · unfold Scanner.deliver Lexeme.shift
    dsimp only
    rw [hs, h.handle inside]
  · obtain ⟨part, whole, mode, nesting, rest, findings⟩ := h
    refine ⟨⟨part.base, part.size, part.cursor⟩,
      ⟨whole.base, whole.size, whole.cursor⟩, mode, ?_, rest, findings⟩
    show t.nesting.afterToken _ = s.nesting.afterToken _
    rw [nesting]

/-- A call in both. -/
theorem scan (h : Mirrors e s t) (hc : e.Covers s.rest s.scan.2.rest) :
    t.scan.1 = s.scan.1.shift e.distance
      ∧ Mirrors e s.scan.2 t.scan.2 := by
  induction s using Scanner.scan.induct generalizing t with
  | case1 s token hp =>
      have call := scan_of_token hp
      rw [call] at hc
      have same := h.plan hc
      rw [call, scan_of_token (same ▸ hp), same]
      have stepped := h.perform hc
      rw [same] at stepped
      exact stepped.deliver h.part.offset_le h.offset token s.plan.text
  | case2 s hp ih =>
      have call := scan_of_skip hp
      rw [call] at hc ⊢
      have left := (s.perform s.plan).rest_scan_suffix
      have step := hc.first left
      have same := h.plan step
      rw [scan_of_skip (same ▸ hp)]
      exact ih (h.perform step)
        (hc.later (s.rest_perform_suffix s.plan) left)

end Mirrors

-- ================================================================ runs

/-- A run over a part with nothing behind it, and over the whole. -/
theorem Mirrors.run {e : Excerpt} {s t : Scanner} (h : Mirrors e s t)
    (none : e.behind = []) :
    t.lexemes = s.lexemes.map (Lexeme.shift e.distance)
      ∧ Mirrors e s.behindRun t.behindRun := by
  induction s using Scanner.run.induct generalizing t with
  | case1 s ended =>
      obtain ⟨same, behind⟩ := h.scan (Or.inl none)
      have ended' : t.scan.1.token = .endOfFile := by
        rw [same]
        exact ended
      rw [lexemes_of_end ended, lexemes_of_end ended', same,
        behindRun_of_end ended, behindRun_of_end ended']
      exact ⟨rfl, behind⟩
  | case2 s more ih =>
      obtain ⟨same, behind⟩ := h.scan (Or.inl none)
      have more' : t.scan.1.token ≠ .endOfFile := by
        rw [same]
        exact more
      rw [lexemes_of_more more, lexemes_of_more more', same,
        behindRun_of_more more, behindRun_of_more more', List.map_cons]
      obtain ⟨later, last⟩ := ih behind
      exact ⟨by rw [later], last⟩

end Scanner

end BuildLexer
