/-
Every string is closed once.

A token opens a string, and one of three things ends it: a token, for
its closing quotes, or a report, where its line or the source ends
first. So the strings opened so far are those that were closed, those
that were reported, and those that are still open around the place
(`strings_of_session`), whatever else is open or closed in between and
whatever closing marks stand in the way.

The argument is an account of one step. A turn says what the step does
to the constructs and with it what it adds on each side (`Turn.layers`);
at the end of the source all constructs are left, and the strings among
them are reported one by one (`unclosed_atEnd`).
-/
import BuildLexer.Proofs.Nesting.Invariant
import BuildLexer.Proofs.Nesting.Turns
import BuildLexer.Proofs.Progress.Call
import BuildLexer.Proofs.Scanner.Reports

namespace BuildLexer

open Plan

-- ========================================================= open strings

/-- How many levels of a stack hold a string. -/
def ContextStack.openStrings (s : ContextStack) : Nat :=
  s.levels.countP (Flag.quoted ∈ ·)

section Shape

variable {inherited : Context} {kinds : List Flag} {s : ContextStack}
  {n : Nesting}

/-- The strings on a stack are those among the constructs. -/
theorem Layers.openStrings_eq (h : Layers inherited kinds s) :
    s.openStrings = kinds.count .quoted := by
  unfold ContextStack.openStrings ContextStack.levels
  induction h with
  | @ground c plain inherits =>
      have out : .quoted ∉ c := fun hc =>
        Context.eq_empty_iff.1 plain _ (Context.mem_inter.2 ⟨hc, by decide⟩)
      simp [out]
  | @above kind kinds c outer construct _ _ _ _ ih =>
      have told := construct.mem_iff (f := .quoted) (by decide)
      rw [List.countP_cons, ih, List.count_cons]
      by_cases hk : kind = .quoted
      · simp [told, hk]
      · simp [told, hk, Ne.symm hk]

/-- Of the contexts left at the end, so many hold a string. -/
theorem Layers.strings_unwind (h : Layers inherited kinds s) :
    s.unwind.2.countP (Flag.quoted ∈ ·) = kinds.count .quoted := by
  unfold ContextStack.unwind
  induction h with
  | ground => rfl
  | @above kind kinds c outer construct _ _ _ _ ih =>
      have told := construct.mem_iff (f := .quoted) (by decide)
      unfold ContextStack.unwindFrom
      rw [if_pos construct.meets_nested, List.countP_cons, ih,
        List.count_cons]
      by_cases hk : kind = .quoted
      · simp [told, hk]
      · simp [told, hk, Ne.symm hk]

/-- At the end of the source each string that is open is reported. -/
theorem unclosed_atEnd (h : Layers inherited kinds n.stack) :
    (atEnd n).unclosed = kinds.count .quoted := by
  rw [← h.strings_unwind, List.countP_eq_length_filter]
  unfold unclosed atEnd
  dsimp only
  rw [List.nil_append, List.countP_map]
  exact List.countP_eq_length.2 fun _ _ => rfl

end Shape

-- ============================================================== reports

/-- A report is told by its words to be about a string. -/
theorem Fault.message_eq_iff {f : Fault} :
    f.message = "string literal not terminated" ↔ f = .openString := by
  have means : Means ["string literal not terminated"] [.openString] := by
    decide
  rw [← List.mem_singleton, means.message_mem_iff f, List.mem_singleton]

namespace Scanner

variable {file : File} {s t : Scanner} {lexemes : List Lexeme}

/-- How many strings were reported as left open. -/
def unclosedStrings (s : Scanner) : Nat :=
  s.findings.countP (·.fault = .openString)

theorem unclosedStrings_eq (s : Scanner) :
    s.unclosedStrings
      = s.reports.countP (·.message = "string literal not terminated") := by
  unfold unclosedStrings findings
  rw [List.countP_map]
  apply List.countP_congr
  intro r _
  simp only [Function.comp, decide_eq_true_eq]
  exact Fault.message_eq_iff.symm

/-- No glyph leaves a string open. -/
theorem countP_faultsFrom (offset : Nat) (gs : List Glyph) :
    (Glyph.faultsFrom offset gs).countP (·.fault = .openString) = 0 := by
  rw [List.countP_eq_zero]
  intro f hf
  have about := Glyph.topic_faultsFrom hf
  rw [decide_eq_true_eq]
  intro ho
  rw [ho] at about
  cases about

/-- At the start no string is open or reported. -/
theorem strings_start {mode : Mode} {source : List UInt8}
    (h : Scanner.start file mode source = .ok s) :
    s.nesting.stack.openStrings = 0 ∧ s.unclosedStrings = 0 := by
  obtain ⟨size, rfl⟩ := start_eq_ok h
  obtain ⟨nesting, -⟩ := nesting_ofGlyphs file mode (Glyph.ofBytes source)
  have inside : Glyph.totalWidth (Glyph.ofBytes source) ≤ file.size :=
    Nat.le_of_eq ((Glyph.totalWidth_ofBytes source).trans size.symm)
  constructor
  · rw [nesting]
    exact (Layers.ground (startContext_plain mode) rfl).openStrings_eq
  · unfold unclosedStrings
    rw [findings_ofGlyphs inside]
    exact countP_faultsFrom _ _

/-- A step adds the strings that its plan finds left open. -/
theorem unclosedStrings_perform (p : Plan)
    (inside : s.offset + Glyph.totalWidth s.rest ≤ s.file.size) :
    (s.perform p).unclosedStrings = s.unclosedStrings + p.unclosed := by
  have placed (fs : List Finding) :
      (fs.map (Finding.placed s.file.size s.offset)).countP
          (·.fault = .openString)
        = fs.countP (·.fault = .openString) := by
    rw [List.countP_map]
    rfl
  unfold unclosedStrings unclosed
  rw [findings_perform p inside, added, List.countP_append,
    List.countP_append, List.countP_append, List.countP_append, placed,
    placed, countP_faultsFrom, Nat.add_zero]

-- ============================================================== account

/-- From one scanner to a later one: the strings opened in between, with
those open and reported before, are the strings closed in between, with
those open and reported behind. -/
def Accounts (s t : Scanner) (lexemes : List Lexeme) : Prop :=
  t.nesting.stack.openStrings
      + lexemes.countP (·.token = .literal .composed) + t.unclosedStrings
    = s.nesting.stack.openStrings
      + lexemes.countP (·.token = .literal .compound) + s.unclosedStrings

/-- What a step does to the strings that are open. -/
theorem Sound.openStrings_plan (h : s.Sound) :
    s.plan.nesting.stack.openStrings
        + s.plan.token.toList.count (.literal .composed) + s.plan.unclosed
      = s.nesting.stack.openStrings
        + s.plan.token.toList.count (.literal .compound) := by
  cases hr : s.rest with
  | nil =>
      -- all constructs are left, and the strings among them reported
      obtain ⟨inherited, hn, -⟩ := h
      obtain ⟨kinds, hl⟩ := hn.layers
      rw [hr] at hn
      have settled := (Nesting.calm_settle hl hn.opener_nil []
        fun _ => by simp).layers
      have none :
          Layers inherited [] (next s.mode s.nesting []).nesting.stack :=
        (calm_next_nil hn).layers
      have reported := unclosed_atEnd settled
      rw [count_dropKind (by decide)] at reported
      unfold plan
      rw [hr, none.openStrings_eq, hl.openStrings_eq]
      show 0 + 0 + (atEnd (s.nesting.settle [])).unclosed = _ + 0
      rw [reported, Nat.zero_add]
      rfl
  | cons g rest =>
      obtain ⟨inherited, kinds, m, hl, left, name, -, turns⟩ := h.turns hr
      obtain ⟨kinds', hl', account⟩ := turns.turn.layers left name
      rw [count_dropKind (by decide)] at account
      rw [hl.openStrings_eq, hl'.openStrings_eq]
      exact account

/-- What is known of the line does not matter for it. -/
theorem Sound.openStrings_afterToken (h : s.Sound) (endsLine : Bool) :
    (s.nesting.afterToken endsLine).stack.openStrings
      = s.nesting.stack.openStrings := by
  obtain ⟨inherited, hn, -⟩ := h
  obtain ⟨kinds, hl⟩ := hn.layers
  rw [hl.openStrings_eq,
    (Nesting.layers_afterToken hl endsLine).openStrings_eq]

theorem Sound.accounts_scan (h : s.Sound) (placed : Placed file s) :
    Accounts s s.scan.2 [s.scan.1] := by
  induction s using scan.induct with
  | case1 s token hp =>
      have open' := h.openStrings_plan
      have reported := unclosedStrings_perform s.plan placed.ahead
      have line := h.perform.openStrings_afterToken
        (token == .punct .lineEnd)
      rw [hp] at open'
      unfold Accounts
      rw [scan_of_token hp]
      show ((s.perform s.plan).nesting.afterToken _).stack.openStrings
          + [token].count _ + (s.perform s.plan).unclosedStrings
        = _ + [token].count _ + _
      rw [line, nesting_perform, reported]
      rw [Option.toList_some] at open'
      omega
  | case2 s hp ih =>
      have open' := h.openStrings_plan
      have reported := unclosedStrings_perform s.plan placed.ahead
      have later := ih h.perform (placed.perform s.plan)
      rw [hp] at open'
      rw [scan_of_skip hp]
      unfold Accounts at later ⊢
      rw [nesting_perform, reported] at later
      simp only [Option.toList_none, List.count_nil] at open'
      omega

/-- Whatever is done with a scanner, the account is kept. -/
theorem Session.accounts (work : Session s lexemes t) (h : s.Sound)
    (placed : Placed file s) : Accounts s t lexemes := by
  induction work with
  | done => rfl
  | setRecipes on _ ih =>
      have later := ih (h.setRecipes on) (placed.setRecipes on)
      obtain ⟨inherited, hn, -⟩ := h
      obtain ⟨kinds, hl⟩ := hn.layers
      have set := (hl.setInherited {.recipesAllowed} on).openStrings_eq
      unfold Accounts at later ⊢
      rw [hl.openStrings_eq, ← set]
      exact later
  | scan _ ih =>
      have first := h.accounts_scan placed
      have later := ih h.scan placed.scan
      unfold Accounts at first later ⊢
      rw [List.countP_cons, List.countP_cons]
      rw [List.countP_cons, List.countP_cons, List.countP_nil,
        List.countP_nil] at first
      omega

/-- At every moment the strings that were opened are those that were
closed, those that were reported as not terminated and those on the
stack. Once the end of the source has been given, none is on the
stack. -/
theorem strings_of_session {file : File} {mode : Mode}
    {source : List UInt8} {s t : Scanner} {lexemes : List Lexeme}
    (started : Scanner.start file mode source = .ok s)
    (work : Session s lexemes t) :
    lexemes.countP (·.token = .literal .compound)
        = lexemes.countP (·.token = .literal .composed)
          + t.reports.countP (·.message = "string literal not terminated")
          + t.nesting.stack.levels.countP (Flag.quoted ∈ ·)
      ∧ ((∃ l ∈ lexemes, l.token = .endOfFile) →
        lexemes.countP (·.token = .literal .compound)
          = lexemes.countP (·.token = .literal .composed)
            + t.reports.countP
                (·.message = "string literal not terminated")) := by
  have sound : s.Sound := (Reachable.start started).sound
  have account := work.accounts sound (placed_start started)
  obtain ⟨outside, unreported⟩ := strings_start started
  unfold Accounts at account
  rw [outside, unreported, unclosedStrings_eq] at account
  have balance : lexemes.countP (·.token = .literal .compound)
      = lexemes.countP (·.token = .literal .composed)
        + t.reports.countP (·.message = "string literal not terminated")
        + t.nesting.stack.openStrings := by
    omega
  refine ⟨balance, fun ended => ?_⟩
  obtain ⟨inherited, calm⟩ := (work.finished sound ended).outside
  rw [calm.layers.openStrings_eq] at balance
  exact balance

/-- Before `"$("")`, a string with a call in it that holds another one.
Only the inner string is closed. -/
def beforeInnerString : Scanner :=
  ofGlyphs (File.alone "" 6) {} (Glyph.ofBytes [34, 36, 40, 34, 34, 41])

/-- Behind the inner string, which recipes are switched on in. -/
def behindInnerString : Scanner :=
  (beforeInnerString.scan.2.scan.2.scan.2.scan.2.setRecipes true).scan.2

theorem strings_of_session_inner :
    Scanner.start (File.alone "" 6) {} [34, 36, 40, 34, 34, 41]
        = .ok beforeInnerString
      ∧ ∃ lexemes t, Session beforeInnerString lexemes t
        ∧ (∃ l ∈ lexemes, l.token = .endOfFile)
        ∧ lexemes.countP (·.token = .literal .composed) = 1
        ∧ lexemes.countP (·.token = .literal .compound)
          = lexemes.countP (·.token = .literal .composed)
            + t.reports.countP
                (·.message = "string literal not terminated") := by
  have started : Scanner.start (File.alone "" 6) {}
      [34, 36, 40, 34, 34, 41] = .ok beforeInnerString := rfl
  have work : Session beforeInnerString _
      behindInnerString.scan.2.scan.2 :=
    .scan (.scan (.scan (.scan (.setRecipes true
      (.scan (.scan (.scan (.done _))))))))
  have ended : behindInnerString.scan.2.scan.1.token = .endOfFile := by
    decide +kernel
  refine ⟨started, _, _, work, ?_, ?_, ?_⟩
  · exact ⟨_, List.mem_of_getLast? rfl, ended⟩
  · decide +kernel
  · exact (strings_of_session started work).2
      ⟨_, List.mem_of_getLast? rfl, ended⟩

end Scanner

end BuildLexer
