/-
Reading a source to its end, whatever its bytes are and whatever recipes
are switched on and off on the way.

Every call of `scan` halts, moves on and finds the end of the source
where it is and nowhere else. So the tokens of a session start at offsets
that ascend, there are no more of them than bytes, and a run comes to the
end of the source; behind it nothing is open and nothing changes any
more (`Progress`).

The single call is in `Sound.advances`. Over a session the offset only
grows, and each token but the end pays a byte of it
(`Session.ascends`).
-/
import BuildLexer.Proofs.Progress.Call

namespace BuildLexer.Scanner

-- ========================================================= what is said

/-- A call that gives the end of a source of some length in a file at a
base. -/
structure FindsEnd (base length : Nat) (s : Scanner) : Prop where
  cursor : s.scan.2.offset = length
  lexeme : s.scan.1 = ⟨⟨base + length⟩, .endOfFile, ""⟩
  closed : s.scan.2.nesting.stack.depth = 0
  outside : ∀ f : Flag, f ∈ Context.nested → f ∉ s.scan.2.context
  /-- Whatever is done from there on, the next call gives the same end
  and leaves the scanner as it is, its reports and lines included. -/
  rests : ∀ (lexemes : List Lexeme) (t : Scanner),
    Session s.scan.2 lexemes t → t.scan = (s.scan.1, t)

/-- A scanner that gave some lexemes, in a source of some length in a
file at a base. -/
structure Progress (base length : Nat) (lexemes : List Lexeme)
    (s : Scanner) : Prop where
  /-- The next call halts, after no more steps than bytes are left. -/
  halts : s.HaltsWithin (length - s.offset)
  /-- It finds the end where the scanner stands at the end. -/
  found : s.offset = length → s.scan.1.token = .endOfFile
  /-- It finds the end nowhere else, and comes to rest there. -/
  ended : s.scan.1.token = .endOfFile → s.FindsEnd base length
  /-- It moves on when it gives another token. -/
  moved : s.scan.1.token ≠ .endOfFile → s.offset < s.scan.2.offset
  /-- Every token so far starts before all that came after it. -/
  ascending : lexemes.Pairwise fun a b =>
    a.token ≠ .endOfFile → a.handle.index < b.handle.index
  /-- There were no more tokens than bytes. -/
  few : lexemes.countP (·.token ≠ .endOfFile) ≤ length
  /-- From here on there are no more tokens than bytes, and then the
  end. -/
  run : ∃ (tokens : List (Lexeme × Scanner)) (last : Lexeme × Scanner),
    s.run = tokens ++ [last]
      ∧ (∀ row ∈ tokens, row.1.token ≠ .endOfFile)
      ∧ last.1.token = .endOfFile ∧ tokens.length ≤ length

-- ============================================================= one call

variable {file : File} {s t : Scanner} {lexemes : List Lexeme}

/-- The token of a call starts at a byte of the source, or at its end. -/
theorem Advances.handle_eq {start : Nat} (h : s.Advances start)
    (placed : Placed file s) :
    s.scan.1.handle = ⟨file.base + start⟩ ∧ start ≤ s.scan.2.offset := by
  have inside : start ≤ s.scan.2.offset := by
    by_cases he : s.scan.1.token = .endOfFile
    · exact Nat.le_of_eq (h.ended he).2.1.symm
    · exact Nat.le_of_lt (h.moved he)
  have behind := placed.scan.offset_le
  rw [h.handle, placed.handle (by omega)]
  exact ⟨rfl, inside⟩

/-- A call that gives the end finds it at the end of the source. -/
theorem Sound.findsEnd (h : s.Sound) (placed : Placed file s)
    (he : s.scan.1.token = .endOfFile) :
    s.FindsEnd file.base file.size := by
  obtain ⟨start, call⟩ := h.advances
  obtain ⟨text, offset, finished⟩ := call.ended he
  obtain ⟨handle, -⟩ := call.handle_eq placed
  obtain ⟨inherited, calm⟩ := finished.outside
  have cursor := placed.scan.rest_eq_nil_iff.1 finished.rest
  have lexeme : s.scan.1 = ⟨⟨file.base + file.size⟩, .endOfFile, ""⟩ := by
    calc s.scan.1
        = ⟨s.scan.1.handle, s.scan.1.token, s.scan.1.text⟩ := rfl
      _ = ⟨⟨file.base + file.size⟩, .endOfFile, ""⟩ := by
          rw [handle, he, text, ← offset, cursor]
  refine ⟨cursor, lexeme, calm.layers.depth_eq,
    fun f hf => calm.layers.not_mem_nested hf, ?_⟩
  intro lexemes t work
  rw [finished.session work, finished.scan_eq, cursor,
    placed.scan.handle (Nat.le_refl _), lexeme]

-- ============================================================= sessions

/-- Over a session the offset grows, by a byte at least for each token,
and the lexemes start in the part of the source that is passed. -/
structure Ascends (base : Nat) (s t : Scanner) (lexemes : List Lexeme) :
    Prop where
  behind : ∀ a ∈ lexemes, base + s.offset ≤ a.handle.index
  ascending : lexemes.Pairwise fun a b =>
    a.token ≠ .endOfFile → a.handle.index < b.handle.index
  few : s.offset + lexemes.countP (·.token ≠ .endOfFile) ≤ t.offset

theorem Session.ascends (work : Session s lexemes t) (h : s.Sound)
    (placed : Placed file s) : Ascends file.base s t lexemes := by
  induction work with
  | done s =>
      exact ⟨fun _ ha => absurd ha List.not_mem_nil, .nil, Nat.le_refl _⟩
  | setRecipes on _ ih =>
      have later := ih (h.setRecipes on) (placed.setRecipes on)
      exact ⟨later.behind, later.ascending, later.few⟩
  | @scan s t lexemes _ ih =>
      have later := ih h.scan placed.scan
      obtain ⟨start, call⟩ := h.advances
      obtain ⟨handle, inside⟩ := call.handle_eq placed
      have index : s.scan.1.handle.index = file.base + start := by
        rw [handle]
      have first := call.behind
      refine ⟨?_, List.pairwise_cons.2 ⟨?_, later.ascending⟩, ?_⟩
      · intro a ha
        rcases List.mem_cons.1 ha with rfl | ha
        · omega
        · have := later.behind a ha
          omega
      · intro b hb other
        have := later.behind b hb
        have := call.moved other
        omega
      · have few := later.few
        by_cases he : s.scan.1.token = .endOfFile
        · rw [List.countP_cons_of_neg (by simp [he])]
          omega
        · have := call.moved he
          rw [List.countP_cons_of_pos (by simp [he])]
          omega

/-- The end is the last of a run and comes once. -/
theorem run_eq_append (s : Scanner) :
    ∃ (tokens : List (Lexeme × Scanner)) (last : Lexeme × Scanner),
      s.run = tokens ++ [last]
        ∧ (∀ row ∈ tokens, row.1.token ≠ .endOfFile)
        ∧ last.1.token = .endOfFile := by
  induction s using run.induct with
  | case1 s ended =>
      exact ⟨[], s.scan, run_of_end ended,
        fun _ hr => absurd hr List.not_mem_nil, ended⟩
  | case2 s more ih =>
      obtain ⟨tokens, last, cut, others, ended⟩ := ih
      refine ⟨s.scan :: tokens, last, ?_, ?_, ended⟩
      · rw [run_of_more more, cut, List.cons_append]
      · intro row hr
        rcases List.mem_cons.1 hr with rfl | hr
        · exact more
        · exact others row hr

/-- The tokens of a run pay a byte each. -/
theorem Sound.length_run_le (h : s.Sound) (placed : Placed file s)
    {tokens : List (Lexeme × Scanner)} {last : Lexeme × Scanner}
    (cut : s.run = tokens ++ [last])
    (others : ∀ row ∈ tokens, row.1.token ≠ .endOfFile) :
    tokens.length ≤ file.size := by
  obtain ⟨t, work⟩ := session_run s
  have few := (work.ascends h placed).few
  have inside := (placed.session work).offset_le
  have counted : tokens.length
      ≤ (s.run.map (·.1)).countP (·.token ≠ .endOfFile) := by
    have all : (tokens.map (·.1)).countP (·.token ≠ .endOfFile)
        = (tokens.map (·.1)).length := by
      rw [List.countP_eq_length]
      intro lexeme hl
      obtain ⟨row, hr, rfl⟩ := List.mem_map.1 hl
      exact decide_eq_true (others row hr)
    rw [cut, List.map_append, List.countP_append, all, List.length_map]
    exact Nat.le_add_right _ _
  omega

/-- Whatever was done with a scanner since the start of a source, it
goes on to the end of the source and rests there. -/
theorem progress_of_session {file : File} {mode : Mode}
    {source : List UInt8} {s₀ s : Scanner} {lexemes : List Lexeme}
    (started : Scanner.start file mode source = .ok s₀)
    (work : Session s₀ lexemes s) :
    Progress file.base source.length lexemes s := by
  have reached : Reachable s₀ := .start started
  have sound := (work.reachable reached).sound
  have placed₀ := placed_start started
  have placed := placed₀.session work
  have ascends := work.ascends reached.sound placed₀
  have inside := placed.offset_le
  have few := ascends.few
  rw [← (start_eq_ok started).1]
  refine ⟨?_, ?_, sound.findsEnd placed, ?_, ascends.ascending, ?_, ?_⟩
  · obtain ⟨n, token, hn, loop⟩ := s.haltsWithin
    have width := Glyph.length_le_totalWidth s.rest
    have cursor := placed.cursor
    exact ⟨n, token, by omega, loop⟩
  · exact fun he => scan_of_nil (placed.rest_eq_nil_iff.2 he)
  · intro other
    obtain ⟨start, call⟩ := sound.advances
    exact Nat.lt_of_le_of_lt call.behind (call.moved other)
  · omega
  · obtain ⟨tokens, last, cut, others, ended⟩ := s.run_eq_append
    exact ⟨tokens, last, cut, others, ended,
      sound.length_run_le placed cut others⟩

/-- Before a broken byte, a comment, a line end and `"$`. -/
def beforeBrokenByte : Scanner :=
  ofGlyphs (File.alone "" 6) {} (Glyph.ofBytes [255, 35, 97, 10, 34, 36])

/-- Behind all of it, with recipes switched on behind the line end. -/
def behindOpenCall : Scanner :=
  (beforeBrokenByte.scan.2.scan.2.setRecipes true).scan.2.scan.2

/-- A string and a call by a bare name in it are open at the end. -/
theorem progress_of_session_open :
    Scanner.start (File.alone "" 6) {} [255, 35, 97, 10, 34, 36]
        = .ok beforeBrokenByte
      ∧ behindOpenCall.nesting.stack.depth = 2
      ∧ behindOpenCall.scan.1.token = .endOfFile
      ∧ ∃ lexemes, lexemes.length = 4
        ∧ Session beforeBrokenByte lexemes behindOpenCall
        ∧ Progress 1 6 lexemes behindOpenCall := by
  have started : Scanner.start (File.alone "" 6) {}
      [255, 35, 97, 10, 34, 36] = .ok beforeBrokenByte := rfl
  have state : behindOpenCall.nesting.stack.depth = 2
      ∧ behindOpenCall.scan.1.token = .endOfFile := by
    decide +kernel
  have work : Session beforeBrokenByte _ behindOpenCall :=
    .scan (.scan (.setRecipes true (.scan (.scan (.done _)))))
  refine ⟨started, state.1, state.2, _, ?_, work, ?_⟩
  · simp only [List.length_cons, List.length_nil]
  · exact progress_of_session started work

end BuildLexer.Scanner
