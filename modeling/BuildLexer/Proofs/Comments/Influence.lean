/-
Discarded comments have no influence, but for one character of each.

A source may be rewritten inside the comments that the scanner discards:
other bytes in place of those behind the hash signs, as many, and no
line ends among them (`Comment.Rewrites`). It then shows the same tokens
in the same contexts. What is reported is the same too, but for the
encoding of the characters right behind the hash signs, which are ahead
by the time the comments are recognised; where nothing is wrong with
those in either source, the reports are the same (`shown_rewritten`).
-/
import BuildLexer.Proofs.Comments.Twins

namespace BuildLexer

open Glyph Plan

namespace Comment

/-- A source is another one, rewritten inside some comments. -/
structure Rewrites (comments : List Comment) (a b : List UInt8) : Prop where
  length : b.length = a.length
  inside : ∀ i : Nat, a[i]? ≠ b[i]? → ∃ c ∈ comments, c.Covers i
  lines : ∀ i : Nat, a[i]? ≠ b[i]? → b[i]? ≠ some 10

/-- Behind the end of both sources there is nothing to compare. -/
theorem rewrites_iff {comments : List Comment} {a b : List UInt8} :
    Rewrites comments a b
      ↔ b.length = a.length
        ∧ ∀ i < a.length, a[i]? ≠ b[i]? →
          (∃ c ∈ comments, c.hash < i ∧ i < c.stop) ∧ b[i]? ≠ some 10 := by
  constructor
  · exact fun h => ⟨h.length, fun i _ other => ⟨h.inside i other,
      h.lines i other⟩⟩
  · rintro ⟨length, h⟩
    have bound {i : Nat} (other : a[i]? ≠ b[i]?) : i < a.length := by
      refine Nat.lt_of_not_le fun behind => other ?_
      rw [List.getElem?_eq_none behind,
        List.getElem?_eq_none (length ▸ behind)]
    exact ⟨length, fun i other => (h i (bound other) other).1,
      fun i other => (h i (bound other) other).2⟩

instance (comments : List Comment) (a b : List UInt8) :
    Decidable (Rewrites comments a b) :=
  decidable_of_iff _ rewrites_iff.symm

/-- Whether a report is about the encoding of the first character of one
of some comments. -/
def reportedFirst (comments : List Comment) (r : Report) : Bool :=
  decide (r.fault.topic = .encoding)
    && comments.any fun c => r.position.offset == c.hash + 1

end Comment

namespace Scanner

variable {kept : Report → Bool} {a b : List UInt8} {s t : Scanner}

-- ================================================================ runs

/-- One call in both. -/
theorem Twins.scan (h : Twins kept a b s t) :
    t.scan.1 = s.scan.1 ∧ Twins kept a b s.scan.2 t.scan.2 := by
  induction s using scan.induct generalizing t with
  | case1 s token hp =>
      obtain ⟨plan, stepped⟩ := h.step
      have hp' : t.plan.token = some token := plan.symm ▸ hp
      have file := stepped.abreast.file
      rw [step_of_token hp, step_of_token hp'] at file stepped
      rw [scan_of_token hp, scan_of_token hp']
      refine ⟨?_, stepped⟩
      show (⟨(t.perform t.plan).file.handle t.offset, token, t.plan.text⟩
        : Lexeme) = _
      rw [show (t.perform t.plan).file = (s.perform s.plan).file from file,
        h.abreast.offset, plan]
      rfl
  | case2 s hp ih =>
      obtain ⟨plan, stepped⟩ := h.step
      have hp' : t.plan.token = none := plan.symm ▸ hp
      rw [step_of_skip hp, step_of_skip hp'] at stepped
      rw [scan_of_skip hp, scan_of_skip hp']
      exact ih stepped

/-- A whole run in both. -/
theorem Twins.run (h : Twins kept a b s t) :
    t.shown = s.shown ∧ Abreast kept s.behindRun t.behindRun := by
  induction s using run.induct generalizing t with
  | case1 s ended =>
      obtain ⟨same, behind⟩ := h.scan
      have ended' : t.scan.1.token = .endOfFile := same ▸ ended
      unfold shown
      rw [run_of_end ended, run_of_end ended', behindRun_of_end ended,
        behindRun_of_end ended']
      refine ⟨?_, behind.abreast⟩
      simp only [List.map_cons, List.map_nil, same, context,
        behind.abreast.nesting]
  | case2 s more ih =>
      obtain ⟨same, behind⟩ := h.scan
      have more' : t.scan.1.token ≠ .endOfFile := same ▸ more
      obtain ⟨later, last⟩ := ih behind
      rw [behindRun_of_more more, behindRun_of_more more']
      refine ⟨?_, last⟩
      unfold shown at later ⊢
      rw [run_of_more more, run_of_more more', List.map_cons,
        List.map_cons, later, same, context, context,
        behind.abreast.nesting]

/-- What was reported in both. -/
theorem Abreast.reports (h : Abreast kept s t) :
    t.reports.filter kept = s.reports.filter kept := by
  unfold Scanner.reports
  rw [List.filter_reverse, List.filter_reverse, h.log]

-- =============================================================== starts

/-- Two scanners at the start of sources that begin alike. -/
theorem abreast_ofGlyphs {x y : List Glyph} (file : File) (mode : Mode)
    (front : y.head? = x.head?)
    (marked : x.head? = some byteOrderMark → y.take 2 = x.take 2) :
    Abreast kept (ofGlyphs file mode x) (ofGlyphs file mode y) := by
  let n : Nesting := { stack := { current := startContext mode } }
  let s : Scanner := { file, mode, rest := x, offset := 0, nesting := n }
  let t : Scanner := { file, mode, rest := y, offset := 0, nesting := n }
  have begun : Abreast kept s t := ⟨rfl, rfl, rfl, rfl, rfl⟩
  have looked := begun.look front
  unfold ofGlyphs
  dsimp only
  rw [front]
  split
  next h =>
    refine looked.advance ?_
    rw [rest_look, rest_look]
    exact marked h
  next => exact looked

/-- A byte order mark at the start is at the start of both sources. -/
theorem ofBytes_of_marked {rest : List Glyph}
    (ha : ofBytes a = byteOrderMark :: rest)
    (same : ∀ i < 3, b[i]? = a[i]?) :
    ofBytes b = byteOrderMark :: ofBytes (b.drop 3) := by
  have front : a.take 3 = String.utf8EncodeChar '\uFEFF' := by
    have bytes := allBytes_ofBytes a
    rw [ha] at bytes
    rw [← bytes]
    rfl
  have read := ofBytes_encode_append '\uFEFF' (b.drop 3)
  rwa [← front, ← take_eq_of_agree same, List.take_append_drop] at read

/-- A rewritten source begins as the source does. -/
theorem begins_alike {file : File} {mode : Mode} {on : Bool}
    (rewritten : Comment.Rewrites
      (setRecipes (ofGlyphs file mode (ofBytes a)) on).discarded a b) :
    (ofBytes b).head? = (ofBytes a).head?
      ∧ ((ofBytes a).head? = some byteOrderMark →
        (ofBytes b).take 2 = (ofBytes a).take 2) := by
  obtain ⟨passed, hp, front⟩ := passed_ofGlyphs file mode (ofBytes a)
  have offset := hp.offset
  have rest : (ofGlyphs file mode (ofBytes a)).rest
      = ofBytes (a.drop (ofGlyphs file mode (ofBytes a)).offset) :=
    hp.standsIn
  have ahead (c : Comment)
      (hc : c ∈ (setRecipes (ofGlyphs file mode (ofBytes a)) on).discarded) :
      (ofGlyphs file mode (ofBytes a)).offset ≤ c.hash := by
    have behind := offset_le_hash hc
    exact behind
  have heads : (ofBytes (b.drop (ofGlyphs file mode (ofBytes a)).offset)).head?
      = (ofBytes (a.drop (ofGlyphs file mode (ofBytes a)).offset)).head? :=
    head?_eq_of_differInComments
      (s := setRecipes (ofGlyphs file mode (ofBytes a)) on) hp.standsIn
      fun i _ => rewritten.inside i
  rcases front with ⟨rfl, other⟩ | rfl
  · rw [offset] at heads
    exact ⟨heads, fun mark => absurd mark other⟩
  · have marked := hp.split.symm
    rw [rest, offset] at marked
    rw [offset] at heads
    have marked' := ofBytes_of_marked marked fun i hi => by
      refine Decidable.not_not.1 fun other => ?_
      obtain ⟨c, hc, covers, -⟩ := rewritten.inside i (Ne.symm other)
      have behind : 3 ≤ c.hash := Nat.le_trans (Nat.le_of_eq offset.symm)
        (ahead c hc)
      omega
    refine ⟨by rw [marked, marked']; rfl, fun _ => ?_⟩
    rw [marked, marked', List.singleton_append, List.take_succ_cons,
      List.take_succ_cons, List.take_one, List.take_one]
    exact congrArg (fun g => byteOrderMark :: g.toList) heads

/-- The scanners at the start of a source and of a rewritten one. -/
theorem twins_start {file : File} {mode : Mode}
    (started : Scanner.start file mode a = .ok s)
    (plain : mode.commentTokens = false) (on : Bool)
    (rewritten : Comment.Rewrites (s.setRecipes on).discarded a b) :
    ∃ t, Scanner.start file mode b = .ok t
      ∧ ∀ kept : Report → Bool,
        (∀ c ∈ (s.setRecipes on).discarded,
          ∀ source, source = a ∨ source = b →
            ∀ fault, c.firstFault? source = some fault →
              ∀ r : Report, r.position.offset = c.hash + 1 →
                r.fault = fault → kept r = false) →
        Twins kept a b (s.setRecipes on) (t.setRecipes on) := by
  have placed := placed_start started
  obtain ⟨size, rfl⟩ := start_eq_ok started
  have sameSize : file.size = b.length := size.trans rewritten.length.symm
  refine ⟨ofGlyphs file mode (ofBytes b), if_pos sameSize, ?_⟩
  intro kept muted
  obtain ⟨passed, left, -⟩ := passed_ofGlyphs file mode (ofBytes a)
  obtain ⟨passed', right, -⟩ := passed_ofGlyphs file mode (ofBytes b)
  obtain ⟨front, marked⟩ := begins_alike rewritten
  have abreast : Abreast kept (ofGlyphs file mode (ofBytes a))
      (ofGlyphs file mode (ofBytes b)) :=
    abreast_ofGlyphs file mode front marked
  have nesting : (ofGlyphs file mode (ofBytes b)).nesting.setRecipes on
      = (ofGlyphs file mode (ofBytes a)).nesting.setRecipes on := by
    rw [abreast.nesting]
  refine ⟨⟨abreast.file, abreast.mode, abreast.offset, nesting,
    abreast.log⟩, ?_, placed.size.trans size, left.standsIn, right.standsIn,
    rewritten.length, fun i _ => rewritten.inside i, rewritten.lines, muted⟩
  show (ofGlyphs file mode (ofBytes a)).mode.commentTokens = false
  rw [(nesting_ofGlyphs file mode _).2]
  exact plain

/-- A source that is rewritten inside the comments that the scanner
discards shows the same tokens in the same contexts, and the same is
reported, but for the encoding of the first characters of the comments;
where nothing is wrong with those, the same without exception. -/
theorem shown_rewritten {file : File} {mode : Mode}
    (started : Scanner.start file mode a = .ok s)
    (plain : mode.commentTokens = false) (on : Bool)
    (rewritten : Comment.Rewrites (s.setRecipes on).discarded a b) :
    ∃ t, Scanner.start file mode b = .ok t
      ∧ (t.setRecipes on).shown = (s.setRecipes on).shown
      ∧ ((t.setRecipes on).behindRun.reports.filter
            fun r => !Comment.reportedFirst (s.setRecipes on).discarded r)
        = ((s.setRecipes on).behindRun.reports.filter
            fun r => !Comment.reportedFirst (s.setRecipes on).discarded r)
      ∧ ((∀ c ∈ (s.setRecipes on).discarded,
            c.firstFault? a = none ∧ c.firstFault? b = none) →
          (t.setRecipes on).behindRun.reports
            = (s.setRecipes on).behindRun.reports) := by
  obtain ⟨t, started', twins⟩ := twins_start started plain on rewritten
  have most := twins
    (fun r => !Comment.reportedFirst (s.setRecipes on).discarded r) <| by
      intro c hc source _ fault hf r place same
      have about : r.fault.topic = .encoding := by
        obtain ⟨g, -, hg⟩ := Option.bind_eq_some_iff.1 hf
        rw [same]
        exact topic_fault? hg
      have first : Comment.reportedFirst (s.setRecipes on).discarded r
          = true := by
        unfold Comment.reportedFirst
        rw [decide_eq_true about, Bool.true_and, List.any_eq_true]
        exact ⟨c, hc, beq_iff_eq.2 place⟩
      rw [first]
      rfl
  refine ⟨t, started', most.run.1, most.run.2.reports, fun quiet => ?_⟩
  have all := twins (fun _ => true) <| by
    intro c hc source either fault hf
    obtain ⟨left, right⟩ := quiet c hc
    rcases either with rfl | rfl
    · rw [left] at hf
      cases hf
    · rw [right] at hf
      cases hf
  have reports := all.run.2.reports
  rwa [List.filter_eq_self.2 fun _ _ => rfl,
    List.filter_eq_self.2 fun _ _ => rfl] at reports

/-- Before two comments: `x#ab`, a line end, and `#cd`. -/
def beforeTwoComments : Scanner :=
  ofGlyphs (File.alone "" 8) {}
    (ofBytes [120, 35, 97, 98, 10, 35, 99, 100])

theorem shown_beforeTwoComments :
    Scanner.start (File.alone "" 8) {} [120, 35, 97, 98, 10, 35, 99, 100]
        = .ok beforeTwoComments
      ∧ (beforeTwoComments.setRecipes true).discarded = [⟨1, 4⟩, ⟨5, 8⟩]
      ∧ Comment.Rewrites [⟨1, 4⟩, ⟨5, 8⟩]
        [120, 35, 97, 98, 10, 35, 99, 100]
        [120, 35, 34, 0xFF, 10, 35, 0, 36]
      ∧ ∃ t, Scanner.start (File.alone "" 8) {}
          [120, 35, 34, 0xFF, 10, 35, 0, 36] = .ok t
        ∧ (t.setRecipes true).shown
          = (beforeTwoComments.setRecipes true).shown
        ∧ ((t.setRecipes true).behindRun.reports.filter
              fun r => !Comment.reportedFirst [⟨1, 4⟩, ⟨5, 8⟩] r)
          = ((beforeTwoComments.setRecipes true).behindRun.reports.filter
              fun r => !Comment.reportedFirst [⟨1, 4⟩, ⟨5, 8⟩] r) := by
  have started : Scanner.start (File.alone "" 8) {}
      [120, 35, 97, 98, 10, 35, 99, 100] = .ok beforeTwoComments := rfl
  have comments : (beforeTwoComments.setRecipes true).discarded
      = [⟨1, 4⟩, ⟨5, 8⟩] := by
    decide +kernel
  have rewritten : Comment.Rewrites [⟨1, 4⟩, ⟨5, 8⟩]
      [120, 35, 97, 98, 10, 35, 99, 100]
      [120, 35, 34, 0xFF, 10, 35, 0, 36] := by
    decide +kernel
  obtain ⟨t, started', same, reports, -⟩ :=
    shown_rewritten started rfl true (comments.symm ▸ rewritten)
  rw [comments] at reports
  exact ⟨started, comments, rewritten, t, started', same, reports⟩

/-- Before a comment with a broken byte right behind its hash sign. -/
def beforeBrokenComment : Scanner :=
  ofGlyphs (File.alone "" 2) {} (ofBytes [35, 0xFF])

/-- The broken byte is reported, so comments are not without influence. -/
theorem not_reports_rewritten_all :
    ¬ ∀ (file : File) (mode : Mode) (a b : List UInt8) (s t : Scanner),
      mode.hashTokens = false → mode.commentTokens = false →
      Scanner.start file mode a = .ok s →
      Scanner.start file mode b = .ok t →
      Comment.Rewrites s.discarded a b →
      t.shown = s.shown ∧ t.behindRun.reports = s.behindRun.reports := by
  intro h
  have rewritten : Comment.Rewrites
      (ofGlyphs (File.alone "" 2) {} (ofBytes [35, 97])).discarded
      [35, 97] [35, 0xFF] := by
    decide +kernel
  have reported : (ofGlyphs (File.alone "" 2) {} (ofBytes [35, 97])
        ).behindRun.reports = []
      ∧ beforeBrokenComment.behindRun.reports ≠ [] := by
    decide +kernel
  have same := (h (File.alone "" 2) {} [35, 97] [35, 0xFF] _
    beforeBrokenComment rfl rfl rfl rfl rewritten).2
  exact reported.2 (same.trans reported.1)

end Scanner

end BuildLexer
