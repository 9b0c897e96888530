/-
Comments as tokens, and comments discarded: the same tokens otherwise.

A scanner that makes tokens of comments goes through the same steps as
one that discards them, and differs from it in two things: a comment is
the end of a call, and the token takes back what was known about the
start of the line (`Nesting.afterToken`). The latter does no harm. What
is behind a comment is a line end or nothing, and the plan for either is
the same with and without that knowledge, up to the constructs, which
are the same as soon as the token has been made
(`agree_behind_comment`).

So a call gives the same with comments as without, or a comment first
and then the same (`scan_inMode`), and a run gives the same when the
comments are left out (`shown_withComments`).
-/
import BuildLexer.Proofs.Comments.Hash
import BuildLexer.Proofs.Progress.Session

namespace BuildLexer

open Plan

/-- The mode in which comments are tokens, hash signs as before. -/
def Mode.withComments (m : Mode) : Mode := { m with commentTokens := true }

-- ==================================== without the start of the line

namespace Context

theorem meets_sdiff_of_not_mem {a b : Context} {f : Flag} (h : f ∉ b) :
    (a \ {f}).meets b = a.meets b := by
  rw [Bool.eq_iff_iff, meets_iff, meets_iff]
  constructor
  · rintro ⟨g, hg, hb⟩
    exact ⟨g, (mem_sdiff.1 hg).1, hb⟩
  · rintro ⟨g, hg, hb⟩
    refine ⟨g, mem_sdiff.2 ⟨hg, fun he => h ?_⟩, hb⟩
    rw [← mem_singleton.1 he]
    exact hb

theorem sdiff_sdiff_self (a b : Context) : (a \ b) \ b = a \ b := by
  apply ext
  intro f
  rw [mem_sdiff, mem_sdiff]
  exact ⟨fun h => h.1, fun h => ⟨h, h.2⟩⟩

theorem sdiff_union_self (a b : Context) : (a \ b) ∪ b = a ∪ b := by
  apply ext
  intro f
  rw [mem_union, mem_union, mem_sdiff]
  constructor
  · exact fun h => h.imp_left fun h => h.1
  · intro h
    by_cases hb : f ∈ b
    · exact Or.inr hb
    · exact Or.inl ⟨h.resolve_right hb, hb⟩

end Context

namespace Nesting

/-- The constructs once a token has been read that ends no line. -/
def inLine (n : Nesting) : Nesting := n.afterToken false

theorem has_inLine {f : Flag} (hf : f ≠ .lineStart) (n : Nesting) :
    n.inLine.has f = n.has f := by
  rw [Bool.eq_iff_iff, has_iff, has_iff]
  exact mem_afterToken hf false

theorem meets_inLine {flags : Context} (h : .lineStart ∉ flags)
    (n : Nesting) : n.inLine.meets flags = n.meets flags :=
  Context.meets_sdiff_of_not_mem h

/-- A token makes up for what was known about the start of the line. -/
theorem afterToken_inLine (n : Nesting) (endsLine : Bool) :
    n.inLine.afterToken endsLine = n.afterToken endsLine := by
  unfold inLine afterToken remove insert ContextStack.remove
    ContextStack.insert
  cases endsLine with
  | true =>
      rw [if_neg Bool.false_ne_true, if_pos rfl, if_pos rfl]
      dsimp only
      rw [Context.sdiff_union_self]
  | false =>
      rw [if_neg Bool.false_ne_true, if_neg Bool.false_ne_true]
      dsimp only
      rw [Context.sdiff_sdiff_self]

/-- Constructs are left in the same way with and without it. -/
theorem inLine_leave_inLine {flags : Context} (h : .lineStart ∉ flags)
    (n : Nesting) :
    (n.inLine.leave flags).inLine = (n.leave flags).inLine := by
  obtain ⟨⟨current, saved⟩, opener⟩ := n
  have met : (current \ {.lineStart}).meets flags = current.meets flags :=
    Context.meets_sdiff_of_not_mem h
  have twice : ((current \ {.lineStart}) \ Context.nested) \ {.lineStart}
      = (current \ Context.nested) \ {.lineStart} := by
    apply Context.ext
    intro f
    simp only [Context.mem_sdiff]
    exact ⟨fun h => ⟨⟨h.1.1.1, h.1.2⟩, h.2⟩,
      fun h => ⟨⟨⟨h.1.1, h.2⟩, h.1.2⟩, h.2⟩⟩
  unfold leave ContextStack.pop ContextStack.pop? inLine afterToken remove
    ContextStack.remove
  simp only [Bool.false_eq_true, if_false, met]
  by_cases hm : current.meets flags = true
  · rw [if_pos hm, if_pos hm]
    cases saved with
    | nil => simp only [Option.getD_some, twice]
    | cons outer saved => rfl
  · rw [if_neg hm, if_neg hm]
    simp only [Option.getD_none, Context.sdiff_sdiff_self]

/-- All constructs are left in the same way as well, and as many strings
are among them. -/
theorem unwind_inLine (n : Nesting) :
    n.inLine.stack.unwind.1.remove {.lineStart}
        = n.stack.unwind.1.remove {.lineStart}
      ∧ n.inLine.stack.unwind.2.countP (fun c => decide (Flag.quoted ∈ c))
        = n.stack.unwind.2.countP fun c => decide (Flag.quoted ∈ c) := by
  obtain ⟨⟨current, saved⟩, opener⟩ := n
  have met : (current \ {.lineStart}).meets Context.nested
      = current.meets Context.nested :=
    Context.meets_sdiff_of_not_mem Context.lineStart_not_mem_nested
  have quoted : Flag.quoted ∈ current \ {.lineStart}
      ↔ Flag.quoted ∈ current := by
    rw [Context.mem_sdiff, Context.mem_singleton]
    exact ⟨fun h => h.1, fun h => ⟨h, nofun⟩⟩
  show (ContextStack.unwindFrom (current \ {.lineStart}) saved).1.remove _
      = (ContextStack.unwindFrom current saved).1.remove _
    ∧ (ContextStack.unwindFrom (current \ {.lineStart}) saved).2.countP _
      = (ContextStack.unwindFrom current saved).2.countP _
  cases saved with
  | nil =>
      simp only [ContextStack.unwindFrom, ContextStack.remove,
        Context.sdiff_sdiff_self, List.countP_nil, and_self]
  | cons outer saved =>
      simp only [ContextStack.unwindFrom, met]
      split
      · simp only [List.countP_cons, quoted, and_self]
      · simp only [ContextStack.remove, Context.sdiff_sdiff_self,
          List.countP_nil, and_self]

end Nesting

-- ==================================================== behind a comment

namespace Plan

/-- Two plans for one token that differ in the constructs behind, and not
any more once the token has been made. -/
structure Agree (p q : Plan) : Prop where
  same : p = { q with nesting := p.nesting }
  behind : ∀ token, q.token = some token →
    p.nesting.afterToken (token == .punct .lineEnd)
      = q.nesting.afterToken (token == .punct .lineEnd)

/-- What is behind a comment: a line end or nothing, in code. -/
structure AtLineEnd (n : Nesting) (src : List Glyph) : Prop where
  front : ∀ g : Glyph, src.head? = some g → g = .newline
  recipe : ¬ n.has .recipeLine = true
  text : ¬ n.has .quoted = true
  unnamed : ¬ n.has .nameCall = true

/-- The end of the source. -/
theorem agree_atEnd (n : Nesting) : (atEnd n.inLine).Agree (atEnd n) := by
  obtain ⟨stack, strings⟩ := n.unwind_inLine
  refine ⟨?_, ?_⟩
  · unfold atEnd
    dsimp only
    rw [List.map_const', List.map_const', ← List.countP_eq_length_filter,
      ← List.countP_eq_length_filter, strings]
  · intro token ht
    obtain rfl := Option.some.inj ht
    show Nesting.remove ⟨n.inLine.stack.unwind.1, n.openerNext⟩ _
      = Nesting.remove ⟨n.stack.unwind.1, n.openerNext⟩ _
    unfold Nesting.remove
    rw [stack]

/-- A line end. -/
theorem agree_lineEnd (n : Nesting) :
    (lineEnd n.inLine).Agree (lineEnd n) := by
  have code : Flag.lineStart ∉ Context.colonCall := by decide
  unfold lineEnd
  rw [Nesting.meets_inLine code]
  split
  next =>
    refine ⟨rfl, ?_⟩
    intro token _
    show (n.inLine.leave _).afterToken _ = (n.leave _).afterToken _
    rw [← Nesting.afterToken_inLine, Nesting.inLine_leave_inLine code,
      Nesting.afterToken_inLine]
  next =>
    refine ⟨rfl, ?_⟩
    intro token _
    exact n.afterToken_inLine _

/-- Behind a comment the plan does not depend on the mode, and not on
whether a token has been read on the line. -/
theorem agree_behind_comment {n : Nesting} {src : List Glyph}
    (h : AtLineEnd n src) (mode mode' : Mode) :
    (next mode' n.inLine src).Agree (next mode n src)
      ∧ ∃ token, (next mode n src).token = some token := by
  have unnamed : ¬ n.inLine.has .nameCall = true := by
    rw [Nesting.has_inLine (by decide)]
    exact h.unnamed
  unfold next
  rw [Nesting.settle_eq h.unnamed, Nesting.settle_eq unnamed]
  cases src with
  | nil => exact ⟨agree_atEnd n, _, rfl⟩
  | cons g rest =>
      obtain rfl := h.front g rfl
      have recipe : ¬ n.inLine.has .recipeLine = true := by
        rw [Nesting.has_inLine (by decide)]
        exact h.recipe
      have text : ¬ n.inLine.has .quoted = true := by
        rw [Nesting.has_inLine (by decide)]
        exact h.text
      have still (m : Nesting) : m.atGlyph .newline = m := by
        unfold Nesting.atGlyph
        rw [if_neg (by simp)]
      dsimp only
      rw [atGlyph_of_code recipe text, atGlyph_of_code h.recipe h.text,
        still, still]
      refine ⟨agree_lineEnd n, .punct .lineEnd, ?_⟩
      show (lineEnd n).token = _
      unfold lineEnd
      split <;> rfl

end Plan

namespace Scanner

-- ======================================================= two scanners

/-- The same scanner under another mode, with other constructs around. -/
def recast (s : Scanner) (mode : Mode) (n : Nesting) : Scanner :=
  { s with mode := mode, nesting := n }

/-- The same scanner under another mode. -/
def inMode (s : Scanner) (mode : Mode) : Scanner := s.recast mode s.nesting

section Recast

variable (s : Scanner) (mode : Mode) (n : Nesting)

theorem reportAll_recast (start : Nat) (fs : List Finding) :
    (s.recast mode n).reportAll start fs
      = (s.reportAll start fs).recast mode n := by
  unfold reportAll
  induction fs generalizing s with
  | nil => rfl
  | cons f fs ih => exact ih (s.report (start + f.offset) f.fault)

theorem look_recast : (s.recast mode n).look = s.look.recast mode n := by
  have ahead : (s.recast mode n).rest.head?.bind
      (Glyph.fault? (s.recast mode n).offset)
        = s.rest.head?.bind (Glyph.fault? s.offset) := rfl
  unfold look
  rw [ahead]
  split <;> rfl

theorem advance_recast :
    (s.recast mode n).advance = s.advance.recast mode n := by
  have ahead : (s.recast mode n).rest = s.rest := rfl
  unfold advance
  rw [ahead]
  split
  next => rfl
  next g rest _ =>
    let offset := s.offset + g.width
    let file := if g = .newline then s.file.addLine offset else s.file
    exact look_recast { s with rest, offset, file } mode n

theorem walk_recast (count : Nat) :
    walk count (s.recast mode n) = (walk count s).recast mode n := by
  induction count generalizing s with
  | zero => rfl
  | succ count ih =>
      rw [walk, walk, advance_recast, ih]

/-- Carrying out a plan does not ask for the mode, nor for the
constructs. -/
theorem perform_recast (p : Plan) :
    (s.recast mode n).perform p
      = (s.perform p).recast mode p.nesting := by
  unfold perform
  show { reportAll _ s.offset p.late with nesting := p.nesting } = _
  dsimp only
  rw [reportAll_recast, walk_recast]
  split
  · show { reportAll ((walk _ _).skipLine.recast mode n) _ _ with
      nesting := p.nesting } = _
    rw [reportAll_recast]
    rfl
  · rw [reportAll_recast]
    rfl

end Recast

-- ======================================================== one call

/-- Behind a comment a call gives the same, and brings the scanner to the
same place, whether the comment was a token or not. -/
theorem scan_behind_comment {u : Scanner} (mode : Mode)
    (h : AtLineEnd u.nesting u.rest) :
    (u.recast mode u.nesting.inLine).scan
      = (u.scan.1, u.scan.2.inMode mode) := by
  obtain ⟨agree, token, ht⟩ := agree_behind_comment h u.mode mode
  have ht' : (u.recast mode u.nesting.inLine).plan.token = some token := by
    show (next mode u.nesting.inLine u.rest).token = some token
    rw [agree.same]
    exact ht
  have text : (u.recast mode u.nesting.inLine).plan.text = u.plan.text := by
    show (next mode u.nesting.inLine u.rest).text = _
    rw [agree.same]
    rfl
  have behind := agree.behind token ht
  have performed : (u.recast mode u.nesting.inLine).perform
        (u.recast mode u.nesting.inLine).plan
      = (u.perform u.plan).recast mode
        (u.recast mode u.nesting.inLine).plan.nesting := by
    rw [perform_recast]
    show (u.perform (next mode u.nesting.inLine u.rest)).recast mode _ = _
    rw [agree.same]
    rfl
  rw [scan_of_token ht', scan_of_token ht, text, performed]
  show ((⟨_, token, _⟩ : Lexeme), recast _ mode (Nesting.afterToken
      (next mode u.nesting.inLine u.rest).nesting _)) = _
  rw [behind]
  rfl

/-- Where a comment has been discarded, there is a line end or nothing,
in code. -/
theorem Sound.atLineEnd {s : Scanner} (h : s.Sound)
    (comment : s.nesting.AtComment s.rest) {p : Plan}
    (skips : p.skipsLine = true)
    (hn : p.nesting = s.nesting.settle s.rest) :
    AtLineEnd (s.perform p).nesting (s.perform p).rest := by
  obtain ⟨inherited, sound, -⟩ := h
  obtain ⟨kinds, hl⟩ := sound.layers
  have silent : s.nesting.openerNext = false := by
    cases ho : s.nesting.openerNext with
    | false => rfl
    | true =>
        obtain ⟨flag, hc, -⟩ := sound.opener ho
        rw [comment.front] at hc
        cases hc
  have calm := Nesting.calm_settle hl silent s.rest fun _ => by
    rw [comment.front]
    decide
  rw [nesting_perform, rest_perform, hn]
  exact ⟨fun _ => newline_of_skipsLine skips, comment.recipe, comment.text,
    calm.not_nameCall⟩

/-- Away from comments the plan does not depend on the mode. -/
theorem plan_inMode {s : Scanner} (mode : Mode)
    (away : ¬ s.nesting.AtComment s.rest) :
    (s.inMode mode).plan = s.plan := by
  show next mode s.nesting s.rest = next s.mode s.nesting s.rest
  rw [(next_of_not_atComment away mode).2,
    (next_of_not_atComment away s.mode).2]

/-- Where a comment is discarded, a call gives it with comments as tokens,
and the call after it gives what comes behind. -/
theorem Sound.scan_atComment {s : Scanner} {mode : Mode} (h : s.Sound)
    (plain : s.mode.commentTokens = false)
    (tokens : mode.commentTokens = true)
    (comment : s.nesting.AtComment s.rest) :
    (s.inMode mode).scan.1.token = .comment
      ∧ (s.inMode mode).scan.2.scan
        = ((s.perform s.plan).scan.1,
          (s.perform s.plan).scan.2.inMode mode) := by
  have discarded : s.plan = discard (s.nesting.settle s.rest) := by
    unfold plan
    rw [next_of_atComment comment, plain]
    rfl
  have made : (s.inMode mode).plan
      = Plan.comment (s.nesting.settle s.rest) s.rest := by
    show next mode s.nesting s.rest = _
    rw [next_of_atComment comment, tokens]
    rfl
  have token : (s.inMode mode).plan.token = some .comment := by
    rw [made]
    rfl
  have behind : (s.inMode mode).scan.2
      = (s.perform s.plan).recast mode
        (s.perform s.plan).nesting.inLine := by
    have passed : (s.inMode mode).perform
          (Plan.comment (s.nesting.settle s.rest) s.rest)
        = (s.perform (discard (s.nesting.settle s.rest))).recast mode
          (s.nesting.settle s.rest) :=
      perform_recast s mode s.nesting _
    rw [scan_of_token token, made, passed, discarded]
    rfl
  have ended := h.atLineEnd comment (p := s.plan)
    (by rw [discarded]; rfl) (by rw [discarded]; rfl)
  constructor
  · rw [scan_of_token token]
    rfl
  · rw [behind]
    exact scan_behind_comment mode ended

/-- With comments as tokens a call gives the same, or a comment and then
the same. -/
theorem scan_inMode {s : Scanner} {mode : Mode} (h : s.Sound)
    (plain : s.mode.commentTokens = false)
    (tokens : mode.commentTokens = true) :
    s.scan.1.token ≠ .comment
      ∧ ((s.inMode mode).scan = (s.scan.1, s.scan.2.inMode mode)
        ∨ (s.inMode mode).scan.1.token = .comment
          ∧ (s.inMode mode).scan.2.scan
            = (s.scan.1, s.scan.2.inMode mode)) := by
  induction s using scan.induct with
  | case1 s token hp =>
      have away : ¬ s.nesting.AtComment s.rest := by
        intro comment
        unfold plan at hp
        rw [next_of_atComment comment, plain] at hp
        cases hp
      have same := plan_inMode mode away
      have other := (next_of_not_atComment away s.mode).1.other
      have hp' : (s.inMode mode).plan.token = some token := same ▸ hp
      rw [scan_of_token hp, scan_of_token hp', same]
      refine ⟨fun he => other (hp.trans (congrArg some he)), Or.inl ?_⟩
      show deliver ((s.recast mode s.nesting).perform _) _ _ _ = _
      rw [perform_recast]
      rfl
  | case2 s hp ih =>
      have plain' : (s.perform s.plan).mode.commentTokens = false := by
        rw [(s.kin_perform s.plan).mode]
        exact plain
      obtain ⟨other, later⟩ := ih h.perform plain'
      rw [scan_of_skip hp]
      refine ⟨other, ?_⟩
      by_cases comment : s.nesting.AtComment s.rest
      · exact Or.inr (h.scan_atComment plain tokens comment)
      · have same := plan_inMode mode comment
        have step : (s.inMode mode).perform (s.inMode mode).plan
            = (s.perform s.plan).inMode mode := by
          rw [same]
          exact perform_recast s mode s.nesting s.plan
        rw [scan_of_skip (same ▸ hp), step]
        exact later

-- ========================================================= whole runs

/-- The rows of a run whose tokens are no comments. -/
def besidesComments {α : Type} (rows : List (Lexeme × α)) :
    List (Lexeme × α) :=
  rows.filter fun row => row.1.token ≠ .comment

section Besides

variable {α : Type} {row : Lexeme × α}

theorem besidesComments_cons_of_ne (h : row.1.token ≠ .comment)
    (rows : List (Lexeme × α)) :
    besidesComments (row :: rows) = row :: besidesComments rows :=
  List.filter_cons_of_pos (decide_eq_true h)

theorem besidesComments_cons_of_eq (h : row.1.token = .comment)
    (rows : List (Lexeme × α)) :
    besidesComments (row :: rows) = besidesComments rows :=
  List.filter_cons_of_neg (by simp [h])

end Besides

/-- The run of `t` gives the rows of the run of `s` and comments besides,
and comes to the same end. -/
structure RunsBesides (mode : Mode) (s t : Scanner) : Prop where
  rows : besidesComments t.run
    = s.run.map fun row => (row.1, row.2.inMode mode)
  behind : t.behindRun = s.behindRun.inMode mode

namespace RunsBesides

variable {mode : Mode} {s t : Scanner}

/-- A call in both that gives the same. -/
theorem of_scan_eq (other : s.scan.1.token ≠ .comment)
    (same : t.scan = (s.scan.1, s.scan.2.inMode mode))
    (later : s.scan.1.token ≠ .endOfFile →
      RunsBesides mode s.scan.2 (s.scan.2.inMode mode)) :
    RunsBesides mode s t := by
  have other' : t.scan.1.token ≠ .comment := by
    rw [same]
    exact other
  by_cases ended : s.scan.1.token = .endOfFile
  · have ended' : t.scan.1.token = .endOfFile := by
      rw [same]
      exact ended
    refine ⟨?_, ?_⟩
    · rw [run_of_end ended, run_of_end ended',
        besidesComments_cons_of_ne other', same]
      rfl
    · rw [behindRun_of_end ended, behindRun_of_end ended', same]
  · have more : t.scan.1.token ≠ .endOfFile := by
      rw [same]
      exact ended
    obtain ⟨rows, behind⟩ := later ended
    refine ⟨?_, ?_⟩
    · rw [run_of_more ended, run_of_more more,
        besidesComments_cons_of_ne other', same, List.map_cons, rows]
    · rw [behindRun_of_more ended, behindRun_of_more more, same, behind]

/-- A comment in the one. -/
theorem of_comment (comment : t.scan.1.token = .comment)
    (later : RunsBesides mode s t.scan.2) : RunsBesides mode s t := by
  have more : t.scan.1.token ≠ .endOfFile := by
    rw [comment]
    exact nofun
  refine ⟨?_, ?_⟩
  · rw [run_of_more more, besidesComments_cons_of_eq comment, later.rows]
  · rw [behindRun_of_more more, later.behind]

/-- One call more. -/
theorem of_scan (h : s.Sound) (plain : s.mode.commentTokens = false)
    (tokens : mode.commentTokens = true)
    (later : s.scan.1.token ≠ .endOfFile →
      RunsBesides mode s.scan.2 (s.scan.2.inMode mode)) :
    RunsBesides mode s (s.inMode mode) := by
  obtain ⟨other, same | ⟨comment, same⟩⟩ := scan_inMode h plain tokens
  · exact of_scan_eq other same later
  · exact of_comment comment (of_scan_eq other same later)

end RunsBesides

/-- With comments as tokens a run gives the same, and comments. -/
theorem runsBesides_inMode {s : Scanner} {mode : Mode} (h : s.Sound)
    (plain : s.mode.commentTokens = false)
    (tokens : mode.commentTokens = true) :
    RunsBesides mode s (s.inMode mode) := by
  induction s using run.induct with
  | case1 s ended =>
      exact .of_scan h plain tokens fun more => absurd ended more
  | case2 s more ih =>
      refine .of_scan h plain tokens fun _ => ih h.scan ?_
      refine scan_preserves (P := fun u => u.mode.commentTokens = false)
        (fun u hu => ?_) (fun _ _ hu => hu) plain
      rw [(u.kin_perform u.plan).mode]
      exact hu

/-- At the start of a source comments make no difference. -/
theorem ofGlyphs_withComments (file : File) (mode : Mode)
    (src : List Glyph) :
    ofGlyphs file mode.withComments src
      = (ofGlyphs file mode src).inMode mode.withComments := by
  let n : Nesting := { stack := { current := startContext mode } }
  let s : Scanner := { file, mode, rest := src, offset := 0, nesting := n }
  have looked : (s.recast mode.withComments n).look
      = s.look.recast mode.withComments n := look_recast s _ n
  have still : s.look.nesting = n := s.moved_look.nesting
  have moved : s.look.advance.nesting = n := by
    rw [(moved_advance _).nesting, still]
  unfold ofGlyphs
  dsimp only
  show (if src.head? = _ then (s.recast mode.withComments n).look.advance
      else (s.recast mode.withComments n).look)
    = inMode (if src.head? = _ then s.look.advance else s.look) _
  unfold inMode
  rw [looked]
  split
  · rw [advance_recast, moved]
  · rw [still]

/-- What a run shows: its tokens, each with the context behind it. -/
def shown (s : Scanner) : List (Lexeme × Context) :=
  s.run.map fun row => (row.1, row.2.context)

/-- A source shows the same tokens in the same contexts when comments are
tokens, but for the comments, and the same is reported, in order. -/
theorem shown_withComments {file : File} {mode : Mode}
    {source : List UInt8} {s : Scanner}
    (started : Scanner.start file mode source = .ok s)
    (plain : mode.commentTokens = false) (on : Bool) :
    ∃ t, Scanner.start file mode.withComments source = .ok t
      ∧ besidesComments (t.setRecipes on).shown = (s.setRecipes on).shown
      ∧ (t.setRecipes on).behindRun.reports
        = (s.setRecipes on).behindRun.reports := by
  have sound := ((Reachable.start started).setRecipes on).sound
  obtain ⟨size, rfl⟩ := start_eq_ok started
  have silent : (setRecipes (ofGlyphs file mode (Glyph.ofBytes source))
      on).mode.commentTokens = false := by
    show (ofGlyphs file mode _).mode.commentTokens = false
    rw [(nesting_ofGlyphs file mode _).2]
    exact plain
  have tokens : mode.withComments.commentTokens = true := rfl
  obtain ⟨rows, behind⟩ := runsBesides_inMode sound silent tokens
  refine ⟨ofGlyphs file mode.withComments (Glyph.ofBytes source),
    if_pos size, ?_, ?_⟩
  · rw [ofGlyphs_withComments]
    have listed := congrArg
      (List.map fun row => (row.1, Scanner.context row.2)) rows
    unfold shown
    rw [List.map_map] at listed
    refine Eq.trans ?_ listed
    unfold besidesComments
    rw [List.filter_map]
    rfl
  · rw [ofGlyphs_withComments]
    show (inMode (setRecipes _ on) mode.withComments).behindRun.reports = _
    rw [behind]
    rfl

/-- A call by colons that a comment is in, a comment that is all of its
line, and a recipe: `$:#a`, `#b` and a tab before `c`. -/
def beforeComments : Scanner :=
  ofGlyphs (File.alone "" 10) {}
    (Glyph.ofBytes [36, 58, 35, 97, 10, 35, 98, 10, 9, 99])

theorem shown_beforeComments :
    Scanner.start (File.alone "" 10) {}
        [36, 58, 35, 97, 10, 35, 98, 10, 9, 99] = .ok beforeComments
      ∧ (beforeComments.setRecipes true).behindRun.reports ≠ []
      ∧ ∃ t, Scanner.start (File.alone "" 10) { commentTokens := true }
          [36, 58, 35, 97, 10, 35, 98, 10, 9, 99] = .ok t
        ∧ besidesComments (t.setRecipes true).shown
          = (beforeComments.setRecipes true).shown
        ∧ (t.setRecipes true).behindRun.reports
          = (beforeComments.setRecipes true).behindRun.reports := by
  have started : Scanner.start (File.alone "" 10) {}
      [36, 58, 35, 97, 10, 35, 98, 10, 9, 99] = .ok beforeComments := rfl
  refine ⟨started, ?_, shown_withComments started rfl true⟩
  decide +kernel

end Scanner

end BuildLexer
