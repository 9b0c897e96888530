/-
A source behind a source.

Where a source ends with a line end and everything in it is closed there,
another one behind it is scanned as it would be alone, further back
(`run_append`). The tokens of the joined source are those of the two. So
are its reports, but for one thing: the first glyph of the second source
is reached, and what is wrong with it reported, before the line end
between the two is found to leave a call by colons open.

The first part is scanned in step with its source up to the last line end
(`TakesOver`), the second in step with its source from there on
(`TakesOver.mirrors`). In between the scanner of the joined source is in
the state in which a new one starts.
-/
import BuildLexer.Proofs.Join.HandOver

namespace BuildLexer

open Glyph

namespace Scanner

-- ================================================================= runs

section Runs

variable {s : Scanner} {row : Lexeme × Scanner}
  {rows : List (Lexeme × Scanner)}

theorem scan_of_run_cons (h : s.run = row :: rows) (more : rows ≠ []) :
    s.scan.1.token ≠ .endOfFile ∧ s.scan = row ∧ s.scan.2.run = rows := by
  by_cases ended : s.scan.1.token = .endOfFile
  · rw [run_of_end ended] at h
    exact absurd (List.cons.inj h).2.symm more
  · rw [run_of_more ended] at h
    exact ⟨ended, List.cons.inj h⟩

theorem scan_of_run_singleton (h : s.run = [row]) :
    s.scan.1.token = .endOfFile ∧ s.scan = row := by
  by_cases ended : s.scan.1.token = .endOfFile
  · rw [run_of_end ended] at h
    exact ⟨ended, (List.cons.inj h).1⟩
  · rw [run_of_more ended] at h
    exact absurd (List.cons.inj h).2 s.scan.2.run_ne_nil

end Runs

/-- A run gives some tokens, then a line end for the last byte, and then
the end. -/
structure RunsToLineEnd (file : File) (s : Scanner)
    (tokens : List (Lexeme × Scanner)) (last final : Lexeme × Scanner) :
    Prop where
  run : s.run = tokens ++ [last, final]
  token : last.1.token = .punct .lineEnd
  handle : last.1.handle.index + 1 = file.base + file.size

namespace RunsToLineEnd

variable {file : File} {s : Scanner} {tokens : List (Lexeme × Scanner)}
  {row last final : Lexeme × Scanner}

/-- The last call but one. -/
theorem givesLastByte (h : RunsToLineEnd file s [] last final) :
    s.scan = last ∧ last.2.scan = final
      ∧ last.2.scan.1.token = .endOfFile ∧ GivesLastByte file s := by
  obtain ⟨-, first, later⟩ :=
    scan_of_run_cons h.run (List.cons_ne_nil final [])
  subst first
  obtain ⟨ended, end'⟩ := scan_of_run_singleton later
  exact ⟨rfl, end', ended, h.token, h.handle⟩

/-- A call before. -/
theorem scan (h : RunsToLineEnd file s (row :: tokens) last final) :
    s.scan.1.token ≠ .endOfFile ∧ s.scan = row
      ∧ RunsToLineEnd file s.scan.2 tokens last final := by
  obtain ⟨more, first, later⟩ := scan_of_run_cons h.run (by simp)
  exact ⟨more, first, later, h.token, h.handle⟩

/-- What is ahead ends with a line end. -/
theorem ended (h : RunsToLineEnd file s tokens last final)
    (sound : s.Sound) (placed : Placed file s) : Ended s.rest := by
  induction tokens generalizing s with
  | nil => exact h.givesLastByte.2.2.2.ended sound placed
  | cons row tokens ih =>
      have later := ih h.scan.2.2 sound.scan placed.scan
      have more : s.scan.2.rest ≠ [] := List.ne_nil_of_mem later.mem
      exact (getLast?_of_suffix s.rest_scan_suffix more).symm.trans later

end RunsToLineEnd

theorem mode_scan (s : Scanner) : s.scan.2.mode = s.mode :=
  scan_preserves (P := fun t => t.mode = s.mode)
    (fun t h => (t.kin_perform t.plan).mode.trans h) (fun _ _ h => h) rfl

/-- What a run to a line end is in the whole, where another scanner takes
over behind it. -/
structure TakesOver (e : Excerpt) (s t : Scanner)
    (tokens : List (Lexeme × Scanner)) (last : Lexeme × Scanner)
    (u : Scanner) : Prop where
  hands : HandsOver e last.2 u
  sound : last.2.Sound
  mode : last.2.mode = s.mode
  lexemes : t.lexemes = (tokens ++ [last]).map (·.1) ++ u.lexemes
  whole : t.behindRun = u.behindRun
  part : s.behindRun = last.2.scan.2

theorem Mirrors.takesOver {e : Excerpt} {s t : Scanner}
    {tokens : List (Lexeme × Scanner)} {last final : Lexeme × Scanner}
    (h : Mirrors e s t) (front : e.AtFront) (sound : s.Sound)
    (calls : s.OpenCallsBehind)
    (closes : RunsToLineEnd e.part s tokens last final) :
    ∃ u, TakesOver e s t tokens last u := by
  induction tokens generalizing s t with
  | nil =>
      obtain ⟨rfl, -, ended, gives⟩ := closes.givesLastByte
      obtain ⟨same, hands⟩ := h.handOver front sound calls gives
      have more : s.scan.1.token ≠ .endOfFile := by
        rw [gives.token]
        exact nofun
      have more' : t.scan.1.token ≠ .endOfFile := by rwa [same]
      refine ⟨t.scan.2, hands, sound.scan, s.mode_scan, ?_,
        behindRun_of_more more', ?_⟩
      · rw [lexemes_of_more more', same]
        rfl
      · rw [behindRun_of_more more, behindRun_of_end ended]
  | cons row tokens ih =>
      obtain ⟨more, rfl, later⟩ := closes.scan
      have left := later.ended sound.scan h.part.scan
      have covers : e.Covers s.rest s.scan.2.rest :=
        Or.inr ⟨closes.ended sound h.part, List.ne_nil_of_mem left.mem⟩
      obtain ⟨same, behind⟩ := h.scan covers
      rw [front.distance, Lexeme.shift_zero] at same
      have more' : t.scan.1.token ≠ .endOfFile := by rwa [same]
      obtain ⟨u, taken⟩ :=
        ih behind sound.scan (calls.scan h.part more) later
      refine ⟨u, taken.hands, taken.sound, taken.mode.trans s.mode_scan, ?_,
        (behindRun_of_more more').trans taken.whole,
        (behindRun_of_more more).trans taken.part⟩
      rw [lexemes_of_more more', taken.lexemes, same]
      rfl

-- ============================================================ both ends

/-- With nothing open around a place, the end there is no fault. -/
theorem late_atEnd {n : Nesting} (outside : n.stack.saved = [])
    (src : List Glyph) : (Plan.atEnd (n.settle src)).late = [] := by
  have settled : (n.settle src).stack.saved = [] := by
    unfold Nesting.settle
    split
    next =>
      unfold Nesting.leave ContextStack.pop ContextStack.pop?
      dsimp only
      rw [outside]
      split
      next => rfl
      next => exact outside
    next => exact outside
  unfold Plan.atEnd ContextStack.unwind
  rw [settled]
  rfl

/-- With nothing open at the end, finding the end reports nothing. -/
theorem findings_scan_of_nil {file : File} {s : Scanner}
    (placed : Placed file s) (hr : s.rest = [])
    (outside : s.nesting.stack.saved = []) :
    s.scan.2.findings = s.findings := by
  have ahead : s.plan = Plan.atEnd (s.nesting.settle []) := by
    unfold plan
    rw [hr]
    rfl
  have none : s.added s.plan = [] := by
    unfold added
    rw [hr, ahead, late_atEnd outside]
    rfl
  rw [scan_of_token (token_plan_nil s hr)]
  show (s.perform s.plan).findings = s.findings
  rw [findings_perform _ placed.ahead, none, List.append_nil]

theorem rest_ofGlyphs_suffix (file : File) (mode : Mode)
    (src : List Glyph) : (ofGlyphs file mode src).rest <:+ src := by
  rcases moved_ofGlyphs file mode src with ⟨-, moved⟩ | ⟨-, moved⟩
  · rw [moved.rest]
    exact List.drop_suffix 1 src
  · exact ⟨[], moved.rest⟩

/-- Nothing reported at the start is a call left open. -/
theorem openCallsBehind_ofGlyphs {file : File} {src : List Glyph}
    (inside : totalWidth src ≤ file.size) (mode : Mode) :
    (ofGlyphs file mode src).OpenCallsBehind := by
  intro f hf open'
  rw [findings_ofGlyphs inside] at hf
  exact absurd open' (fault_faultsFrom hf)

/-- A source and one that begins with it are begun alike. -/
theorem mirrors_ofGlyphs {e : Excerpt} {mode : Mode} {src : List Glyph}
    (front : e.AtFront) (size : e.part.size = totalWidth src)
    (ends : Ended src)
    (part : Placed e.part (ofGlyphs e.part mode src))
    (whole : Placed e.whole (ofGlyphs e.whole mode (src ++ e.behind))) :
    Mirrors e (ofGlyphs e.part mode src)
      (ofGlyphs e.whole mode (src ++ e.behind)) := by
  have head := head?_append_of_mem ends.mem e.behind
  have nesting := nesting_ofGlyphs e.part mode src
  have nesting' := nesting_ofGlyphs e.whole mode (src ++ e.behind)
  have inWhole : totalWidth (src ++ e.behind) ≤ e.whole.size := by
    have := e.size
    rw [totalWidth_append]
    omega
  -- the mark is not the line end, so a glyph is behind it
  have marked : src.head? = some .byteOrderMark → 2 ≤ src.length := by
    intro hm
    obtain ⟨rest, rfl⟩ := List.head?_eq_some_iff.1 hm
    have later := List.length_pos_of_mem (mem_of_ne ends.mem (by decide))
    exact Nat.succ_le_succ later
  refine ⟨part, whole, nesting'.2.trans nesting.2.symm,
    nesting'.1.trans nesting.1.symm, ?_,
    (ofGlyphs e.part mode src).findings, ?_, ?_⟩
  · rcases moved_ofGlyphs e.part mode src with ⟨hm, moved⟩ | ⟨hm, moved⟩
    · rcases moved_ofGlyphs e.whole mode (src ++ e.behind) with
        ⟨-, moved'⟩ | ⟨hm', -⟩
      · rw [moved.rest, moved'.rest]
        have := marked hm
        exact List.drop_append_of_le_length (by omega)
      · exact absurd (head.trans hm) hm'
    · rcases moved_ofGlyphs e.whole mode (src ++ e.behind) with
        ⟨hm', -⟩ | ⟨-, moved'⟩
      · exact absurd (head.symm.trans hm') hm
      · rw [moved.rest, moved'.rest]
  · rw [front.partBefore, List.nil_append]
  · have same : (src ++ e.behind).take
          (if src.head? = some .byteOrderMark then 2 else 1)
        = src.take (if src.head? = some .byteOrderMark then 2 else 1) := by
      refine List.take_append_of_le_length ?_
      split
      next hm => exact marked hm
      next => exact List.length_pos_of_mem ends.mem
    rw [findings_ofGlyphs inWhole, findings_ofGlyphs (Nat.le_of_eq size.symm),
      head, same, front.wholeBefore, front.distance,
      Finding.map_shift_zero, List.nil_append]

/-- Switching recipes in both. -/
theorem Mirrors.setRecipes {e : Excerpt} {s t : Scanner}
    (h : Mirrors e s t) (on : Bool) :
    Mirrors e (s.setRecipes on) (t.setRecipes on) where
  part := h.part.setRecipes on
  whole := h.whole.setRecipes on
  mode := h.mode
  nesting := congrArg (Nesting.setRecipes · on) h.nesting
  rest := h.rest
  findings := h.findings

-- ===================================================== joined sources

/-- A source that a scanner stands before ends with a line end, outside of
everything as at the start: that is what its run gives for the last byte
before the end. -/
def EndsClean (s : Scanner) : Prop :=
  ∃ tokens last final, RunsToLineEnd s.file s tokens last final
    ∧ last.2.nesting.stack = s.nesting.stack

/-- Glyphs that end with a line end are read from such bytes. -/
theorem getLast?_of_ended {a : List UInt8}
    (h : Ended (Glyph.ofBytes a)) : a.getLast? = some 10 := by
  obtain ⟨before, hb⟩ := List.getLast?_eq_some_iff.1 h
  rw [← allBytes_ofBytes a, hb]
  unfold allBytes
  rw [List.flatMap_append, List.getLast?_append]
  rfl

/-- A byte order mark is read from its bytes only. -/
theorem bytes_prefix_of_head? {b : List UInt8} {g : Glyph}
    (h : (Glyph.ofBytes b).head? = some g) : g.bytes <+: b := by
  obtain ⟨rest, hr⟩ := List.head?_eq_some_iff.1 h
  rw [← allBytes_ofBytes b, hr]
  exact ⟨allBytes rest, rfl⟩

/-- What is known of a source when it has been scanned to its last line
end, as the front of a longer one: everything is closed, and what was
reported then is all. -/
theorem TakesOver.closed {e : Excerpt} {s t u : Scanner}
    {tokens : List (Lexeme × Scanner)} {last : Lexeme × Scanner}
    (h : TakesOver e s t tokens last u)
    (stack : last.2.nesting.stack.saved = []) :
    u.nesting = { stack := last.2.nesting.stack }
      ∧ s.behindRun.findings = last.2.findings := by
  obtain ⟨inherited, sound, -⟩ := h.sound
  rw [h.hands.done] at sound
  have opener : last.2.nesting.openerNext = false := sound.opener_nil
  constructor
  · rw [h.hands.nesting, ← opener]
  · rw [h.part, findings_scan_of_nil h.hands.part h.hands.done stack]

/-- The front of a joined source is scanned as it is alone. -/
theorem takesOver_of_clean {f fa : File} {mode : Mode} {a b : List UInt8}
    {s sa : Scanner} {on : Bool}
    (first : Scanner.start fa mode a = .ok sa)
    (both : Scanner.start f mode (a ++ b) = .ok s)
    (base : f.base = fa.base)
    (size : f.size = fa.size + totalWidth (Glyph.ofBytes b))
    {tokens : List (Lexeme × Scanner)} {last final : Lexeme × Scanner}
    (closes : RunsToLineEnd (sa.setRecipes on).file (sa.setRecipes on)
      tokens last final) :
    ∃ u, TakesOver (.front fa f (Glyph.ofBytes b) base size)
      (sa.setRecipes on) (s.setRecipes on) tokens last u := by
  have sound := ((Reachable.start first).setRecipes on).sound
  have placed := placed_start first
  have placed' := placed_start both
  have closes : RunsToLineEnd fa (sa.setRecipes on) tokens last final := by
    refine ⟨closes.run, closes.token, ?_⟩
    rw [closes.handle]
    show sa.file.base + sa.file.size = _
    rw [placed.base, placed.size]
  have left : Ended sa.rest := closes.ended sound (placed.setRecipes on)
  obtain ⟨sizeA, rfl⟩ := start_eq_ok first
  obtain ⟨-, rfl⟩ := start_eq_ok both
  have ends : Ended (Glyph.ofBytes a) := by
    have suffix := rest_ofGlyphs_suffix fa mode (Glyph.ofBytes a)
    exact (getLast?_of_suffix suffix (List.ne_nil_of_mem left.mem)).symm.trans
      left
  rw [Glyph.ofBytes_append (Or.inr (getLast?_of_ended ends))] at placed' ⊢
  have width : fa.size = totalWidth (Glyph.ofBytes a) := by
    rw [sizeA, totalWidth_ofBytes]
  have calls := openCallsBehind_ofGlyphs (Nat.le_of_eq width.symm) mode
  have front := Excerpt.atFront_front base size
  have mirrors := mirrors_ofGlyphs front width ends placed placed'
  exact (mirrors.setRecipes on).takesOver front sound calls closes

/-- Every source is begun outside of everything. -/
theorem begun_start {file : File} {mode : Mode} {source : List UInt8}
    {s : Scanner} (h : Scanner.start file mode source = .ok s) (on : Bool) :
    (s.setRecipes on).nesting
        = ({ stack := { current := startContext mode } } :
          Nesting).setRecipes on
      ∧ (s.setRecipes on).mode = mode := by
  obtain ⟨-, rfl⟩ := start_eq_ok h
  have begun := nesting_ofGlyphs file mode (Glyph.ofBytes source)
  exact ⟨congrArg (Nesting.setRecipes · on) begun.1, begun.2⟩

/-- A source that begins with no byte order mark is begun at its first
byte, where what is wrong with it is reported. -/
theorem start_unmarked {file : File} {mode : Mode} {b : List UInt8}
    {s : Scanner} (h : Scanner.start file mode b = .ok s)
    (unmarked : ¬ byteOrderMark.bytes <+: b) :
    s.rest = Glyph.ofBytes b
      ∧ s.findings = faultsFrom 0 ((Glyph.ofBytes b).take 1)
      ∧ (Glyph.ofBytes b).head? ≠ some byteOrderMark := by
  have head : (Glyph.ofBytes b).head? ≠ some byteOrderMark :=
    fun hm => unmarked (bytes_prefix_of_head? hm)
  obtain ⟨size, rfl⟩ := start_eq_ok h
  refine ⟨?_, ?_, head⟩
  · rcases moved_ofGlyphs file mode (Glyph.ofBytes b) with
      ⟨hm, -⟩ | ⟨-, moved⟩
    · exact absurd hm head
    · exact moved.rest
  · have inside : totalWidth (Glyph.ofBytes b) = file.size := by
      rw [totalWidth_ofBytes, size]
    rw [findings_ofGlyphs (Nat.le_of_eq inside), if_neg head]

/-- Further back that is what is wrong with the same glyph there. -/
theorem map_shift_findings_start {file : File} {mode : Mode}
    {b : List UInt8} {s : Scanner} (h : Scanner.start file mode b = .ok s)
    (unmarked : ¬ byteOrderMark.bytes <+: b) (distance : Nat) :
    s.findings.map (Finding.shift distance)
      = faultsFrom distance ((Glyph.ofBytes b).take 1) := by
  obtain ⟨-, atFirst, head⟩ := start_unmarked h unmarked
  have first : ((Glyph.ofBytes b).take 1).head? ≠ some byteOrderMark := by
    rwa [List.head?_take, if_neg Nat.one_ne_zero]
  rw [atFirst, ← faultsFrom_add (Or.inr first), Nat.add_zero]

/-- The rest of a joined source is scanned as it is alone, further back. -/
theorem TakesOver.mirrors {f fa fb : File} {mode : Mode}
    {a b : List UInt8} {s sa sb u : Scanner} {on : Bool}
    (first : Scanner.start fa mode a = .ok sa)
    (second : Scanner.start fb mode b = .ok sb)
    (unmarked : ¬ byteOrderMark.bytes <+: b)
    {base : f.base = fa.base} (base' : f.base = fb.base)
    {size : f.size = fa.size + totalWidth (Glyph.ofBytes b)}
    (size' : f.size = a.length + fb.size)
    {tokens : List (Lexeme × Scanner)} {last : Lexeme × Scanner}
    (h : TakesOver (.front fa f (Glyph.ofBytes b) base size)
      (sa.setRecipes on) s tokens last u)
    (stack : last.2.nesting.stack = (sa.setRecipes on).nesting.stack) :
    Mirrors
      (.back fb f a.length sb.findings u.findings base' size')
      (sb.setRecipes on) u := by
  obtain ⟨rest, -, -⟩ := start_unmarked second unmarked
  have placed := (placed_start second).setRecipes on
  have begunA := begun_start first on
  have begunB := begun_start second on
  rw [begunA.1] at stack
  have saved : last.2.nesting.stack.saved = [] := by
    rw [stack]
    rfl
  refine ⟨placed, h.hands.whole, ?_, ?_, ?_, [], ?_, ?_⟩
  · exact (h.hands.mode.trans h.mode).trans (begunA.2.trans begunB.2.symm)
  · rw [(h.closed saved).1, stack, begunB.1]
    rfl
  · show u.rest = _ ++ []
    rw [List.append_nil]
    exact h.hands.rest.trans rest.symm
  · exact (List.append_nil _).symm
  · exact (List.append_nil _).symm

/-- A source that ends clean, with another behind it, gives its own tokens
and then those of the other, further back. The same goes for the reports,
but what is reported of the other when its first byte is reached comes
before the report of the call by colons, if any, that the line end between
the two leaves open. -/
theorem run_append {fa fb f : File} {mode : Mode} {a b : List UInt8}
    {sa sb s : Scanner} (on : Bool)
    (first : Scanner.start fa mode a = .ok sa)
    (second : Scanner.start fb mode b = .ok sb)
    (both : Scanner.start f mode (a ++ b) = .ok s)
    (base : f.base = fa.base) (base' : f.base = fb.base)
    (clean : (sa.setRecipes on).EndsClean)
    (unmarked : ¬ byteOrderMark.bytes <+: b) :
    (s.setRecipes on).lexemes
        = (sa.setRecipes on).lexemes.dropLast
          ++ (sb.setRecipes on).lexemes.map (Lexeme.shift a.length)
      ∧ ∃ before late later,
        (sa.setRecipes on).behindRun.findings = before ++ late
        ∧ (late = [] ∨ late = [⟨a.length - 1, .openColonCall⟩])
        ∧ ⟨a.length - 1, .openColonCall⟩ ∉ before
        ∧ (sb.setRecipes on).behindRun.findings = sb.findings ++ later
        ∧ (s.setRecipes on).behindRun.findings
          = before ++ sb.findings.map (Finding.shift a.length)
            ++ late ++ later.map (Finding.shift a.length) := by
  obtain ⟨tokens, last, final, closes, stack⟩ := clean
  have size := (start_eq_ok both).1
  have sizeA := (start_eq_ok first).1
  have sizeB := (start_eq_ok second).1
  rw [List.length_append] at size
  have sizeF : f.size = fa.size + totalWidth (Glyph.ofBytes b) := by
    rw [totalWidth_ofBytes]
    omega
  obtain ⟨u, taken⟩ := takesOver_of_clean first both base sizeF closes
  have mirrors := taken.mirrors first second unmarked base' (by omega) stack
  obtain ⟨lexemes, mirrored⟩ := mirrors.run rfl
  obtain ⟨later, inB, inBoth⟩ := mirrored.findings
  obtain ⟨before, late, inA, handed, closing, other⟩ := taken.hands.findings
  have saved : last.2.nesting.stack.saved = [] := by
    rw [stack, (begun_start first on).1]
    rfl
  have atLast : openAtLast fa = ⟨a.length - 1, .openColonCall⟩ := by
    unfold openAtLast
    rw [sizeA]
  refine ⟨?_, before, late, later, ?_, ?_, ?_, inB, ?_⟩
  · have alone : (sa.setRecipes on).lexemes
        = (tokens ++ [last]).map (·.1) ++ [final.1] := by
      unfold Scanner.lexemes
      rw [closes.run]
      simp
    rw [taken.lexemes, lexemes, alone, List.dropLast_concat]
    rfl
  · exact (taken.closed saved).2.trans inA
  · exact atLast ▸ closing
  · exact atLast ▸ other
  · rw [taken.whole, inBoth]
    show u.findings ++ _ = _
    rw [handed]
    show before ++ faultsFrom fa.size ((Glyph.ofBytes b).take 1) ++ late ++ _
      = _
    rw [sizeA, map_shift_findings_start second unmarked]
    rfl

/-- Before a call by colons that a line end leaves open. -/
def beforeOpenCall : Scanner :=
  ofGlyphs (File.alone "" 3) {} (Glyph.ofBytes [36, 58, 10])

/-- Before a NUL. -/
def beforeNul : Scanner := ofGlyphs (File.alone "" 1) {} (Glyph.ofBytes [0])

/-- Before the first, and the second behind it. -/
def beforeBoth : Scanner :=
  ofGlyphs (File.alone "" 4) {} (Glyph.ofBytes [36, 58, 10, 0])

theorem endsClean_beforeOpenCall :
    (beforeOpenCall.setRecipes false).EndsClean := by
  let s := beforeOpenCall.setRecipes false
  let t := s.scan.2.scan.2
  have tokens : s.scan.1.token ≠ .endOfFile
      ∧ s.scan.2.scan.1.token ≠ .endOfFile
      ∧ t.scan.1.token = .punct .lineEnd
      ∧ t.scan.2.scan.1.token = .endOfFile := by
    decide +kernel
  have clean : t.scan.1.handle.index + 1 = s.file.base + s.file.size
      ∧ t.scan.2.nesting.stack = s.nesting.stack := by
    decide +kernel
  obtain ⟨first, second, third, ended⟩ := tokens
  have more : t.scan.1.token ≠ .endOfFile := by
    rw [third]
    exact nofun
  refine ⟨[s.scan, s.scan.2.scan], t.scan, t.scan.2.scan,
    ⟨?_, third, clean.1⟩, clean.2⟩
  rw [run_of_more first, run_of_more second, run_of_more more,
    run_of_end ended]
  rfl

/-- A NUL behind a call by colons that is left open is reported before
the call is. -/
theorem run_append_openCall :
    Scanner.start (File.alone "" 3) {} [36, 58, 10] = .ok beforeOpenCall
      ∧ Scanner.start (File.alone "" 1) {} [0] = .ok beforeNul
      ∧ Scanner.start (File.alone "" 4) {} [36, 58, 10, 0] = .ok beforeBoth
      ∧ (beforeOpenCall.setRecipes false).EndsClean
      ∧ ¬ byteOrderMark.bytes <+: [0]
      ∧ (beforeBoth.setRecipes false).behindRun.findings
        = [⟨3, .nulCharacter⟩, ⟨2, .openColonCall⟩]
      ∧ (beforeBoth.setRecipes false).lexemes
        = (beforeOpenCall.setRecipes false).lexemes.dropLast
          ++ (beforeNul.setRecipes false).lexemes.map (Lexeme.shift 3)
      ∧ ∃ before late later,
        (beforeOpenCall.setRecipes false).behindRun.findings
            = before ++ late
          ∧ (late = [] ∨ late = [⟨2, .openColonCall⟩])
          ∧ ⟨2, .openColonCall⟩ ∉ before
          ∧ (beforeNul.setRecipes false).behindRun.findings
            = beforeNul.findings ++ later
          ∧ (beforeBoth.setRecipes false).behindRun.findings
            = before ++ beforeNul.findings.map (Finding.shift 3)
              ++ late ++ later.map (Finding.shift 3) := by
  have first : Scanner.start (File.alone "" 3) {} [36, 58, 10]
      = .ok beforeOpenCall := rfl
  have second : Scanner.start (File.alone "" 1) {} [0] = .ok beforeNul := rfl
  have both : Scanner.start (File.alone "" 4) {} ([36, 58, 10] ++ [0])
      = .ok beforeBoth := rfl
  have unmarked : ¬ byteOrderMark.bytes <+: [0] := by decide +kernel
  have reported : (beforeBoth.setRecipes false).behindRun.findings
      = [⟨3, .nulCharacter⟩, ⟨2, .openColonCall⟩] := by
    decide +kernel
  exact ⟨first, second, both, endsClean_beforeOpenCall, unmarked, reported,
    run_append false first second both rfl rfl endsClean_beforeOpenCall
      unmarked⟩

/-- So the reports of a joined source are not always those of the first
and then those of the second. -/
theorem not_findings_append_all :
    ¬ ∀ (fa fb f : File) (mode : Mode) (a b : List UInt8)
        (sa sb s : Scanner) (on : Bool),
      Scanner.start fa mode a = .ok sa →
      Scanner.start fb mode b = .ok sb →
      Scanner.start f mode (a ++ b) = .ok s →
      f.base = fa.base → f.base = fb.base →
      (sa.setRecipes on).EndsClean → ¬ byteOrderMark.bytes <+: b →
      (s.setRecipes on).lexemes
          = (sa.setRecipes on).lexemes.dropLast
            ++ (sb.setRecipes on).lexemes.map (Lexeme.shift a.length)
        ∧ (s.setRecipes on).behindRun.findings
          = (sa.setRecipes on).behindRun.findings
            ++ (sb.setRecipes on).behindRun.findings.map
              (Finding.shift a.length) := by
  intro h
  have inOrder := (h (File.alone "" 3) (File.alone "" 1) (File.alone "" 4) {}
    [36, 58, 10] [0] beforeOpenCall beforeNul beforeBoth false rfl rfl rfl rfl
    rfl endsClean_beforeOpenCall (by decide +kernel)).2
  have swapped : (beforeBoth.setRecipes false).behindRun.findings
      ≠ (beforeOpenCall.setRecipes false).behindRun.findings
        ++ (beforeNul.setRecipes false).behindRun.findings.map
          (Finding.shift 3) := by
    decide +kernel
  exact swapped inOrder

end Scanner

end BuildLexer
