/-
The states that a scanner can be brought into: at the start of a source,
then by reading tokens and by switching recipes on and off, in any order
and as often as one likes.

A call of `scan` is one or more steps, so an invariant is proved for one
step and holds of a whole call (`scan_preserves`), and with it of every
run (`Reachable.invariant`). What a call returns is decided by its last
step (`scan_of_token`, `scan_of_skip`).
-/
import BuildLexer.Scanner.Scan

namespace BuildLexer.Scanner

-- ========================================================== one call

/-- A step that makes a token is the whole call. -/
theorem scan_of_token {s : Scanner} {token : Token}
    (h : s.plan.token = some token) :
    s.scan = (s.perform s.plan).deliver s.offset token s.plan.text := by
  rw [scan]
  split
  next t ht =>
    rw [h] at ht
    obtain rfl := Option.some.inj ht
    rfl
  next hn =>
    rw [h] at hn
    cases hn

/-- After a step that makes none the call goes on. -/
theorem scan_of_skip {s : Scanner} (h : s.plan.token = none) :
    s.scan = (s.perform s.plan).scan := by
  rw [scan]
  split
  next t ht =>
    rw [h] at ht
    cases ht
  next => rfl

/-- What each step keeps, a call keeps. -/
theorem scan_preserves {P : Scanner → Prop}
    (step : ∀ s, P s → P (s.perform s.plan))
    (line : ∀ s ends, P s →
      P { s with nesting := s.nesting.afterToken ends })
    {s : Scanner} (h : P s) : P s.scan.2 := by
  fun_induction scan s with
  | case1 s token hp => exact line _ _ (step s h)
  | case2 s hp ih => exact ih (step s h)

/-- A call is some steps that make no token and a last one that makes
the token returned. What the former keep still holds where the last one
begins. -/
theorem exists_lastStep {P : Scanner → Prop}
    (skip : ∀ s, P s → s.plan.token = none → P (s.perform s.plan))
    {s : Scanner} (h : P s) :
    ∃ u token, P u ∧ u.plan.token = some token
      ∧ s.scan = (u.perform u.plan).deliver u.offset token u.plan.text := by
  induction s using scan.induct with
  | case1 s token hp => exact ⟨s, token, h, hp, scan_of_token hp⟩
  | case2 s hp ih =>
      rw [scan_of_skip hp]
      exact ih (skip s h hp)

/-- With nothing ahead a call gives the end. -/
theorem scan_of_nil {s : Scanner} (h : s.rest = []) :
    s.scan.1.token = .endOfFile := by
  rw [scan_of_token (token_plan_nil s h)]
  rfl

-- ========================================================= whole runs

theorem run_of_end {s : Scanner} (h : s.scan.1.token = .endOfFile) :
    s.run = [s.scan] := by
  rw [run, if_pos h]

theorem run_of_more {s : Scanner} (h : s.scan.1.token ≠ .endOfFile) :
    s.run = s.scan :: s.scan.2.run := by
  rw [run, if_neg h]

theorem run_ne_nil (s : Scanner) : s.run ≠ [] := by
  by_cases h : s.scan.1.token = .endOfFile
  · rw [run_of_end h]
    exact List.cons_ne_nil _ _
  · rw [run_of_more h]
    exact List.cons_ne_nil _ _

/-- Every row of a run is a call. -/
theorem exists_scan_of_mem_run {s : Scanner} {row : Lexeme × Scanner}
    (h : row ∈ s.run) : ∃ u : Scanner, row = u.scan := by
  induction s using run.induct with
  | case1 s ended =>
      rw [run_of_end ended] at h
      exact ⟨s, List.mem_singleton.1 h⟩
  | case2 s more ih =>
      rw [run_of_more more] at h
      rcases List.mem_cons.1 h with rfl | later
      · exact ⟨s, rfl⟩
      · exact ih later

/-- The lexemes of a run. -/
def lexemes (s : Scanner) : List Lexeme := s.run.map (·.1)

/-- The scanner behind a run. -/
def behindRun (s : Scanner) : Scanner := (s.run.getLast?.map (·.2)).getD s

section Runs

variable {s : Scanner}

theorem lexemes_of_end (h : s.scan.1.token = .endOfFile) :
    s.lexemes = [s.scan.1] := by
  unfold lexemes
  rw [run_of_end h]
  rfl

theorem lexemes_of_more (h : s.scan.1.token ≠ .endOfFile) :
    s.lexemes = s.scan.1 :: s.scan.2.lexemes := by
  unfold lexemes
  rw [run_of_more h]
  rfl

theorem behindRun_of_end (h : s.scan.1.token = .endOfFile) :
    s.behindRun = s.scan.2 := by
  unfold behindRun
  rw [run_of_end h]
  rfl

theorem behindRun_of_more (h : s.scan.1.token ≠ .endOfFile) :
    s.behindRun = s.scan.2.behindRun := by
  unfold behindRun
  rw [run_of_more h, List.getLast?_cons,
    List.getLast?_eq_some_getLast s.scan.2.run_ne_nil]
  rfl

end Runs

-- ======================================================== call by call

/-- The scanner behind some calls. -/
def after (s : Scanner) : Nat → Scanner
  | 0 => s
  | k + 1 => (s.after k).scan.2

/-- The first of some calls can be made apart. -/
theorem after_scan (s : Scanner) (k : Nat) :
    s.scan.2.after k = s.after (k + 1) := by
  induction k with
  | zero => rfl
  | succ k ih => exact congrArg (·.scan.2) ih

-- ===================================================== reachable states

/-- What a scanner can be brought into. -/
inductive Reachable : Scanner → Prop
  /-- The start of a source in a file of its size, which may stand
  anywhere and know lines already. -/
  | start {file : File} {mode : Mode} {source : List UInt8} {s : Scanner} :
      Scanner.start file mode source = .ok s → Reachable s
  | scan {s : Scanner} : Reachable s → Reachable s.scan.2
  | setRecipes {s : Scanner} (on : Bool) :
      Reachable s → Reachable (s.setRecipes on)

/-- A scanner that was started stands at the front of the glyphs of its
source, and its file has the size of the source. -/
theorem start_eq_ok {file : File} {mode : Mode} {source : List UInt8}
    {s : Scanner} (h : Scanner.start file mode source = .ok s) :
    file.size = source.length
      ∧ s = ofGlyphs file mode (Glyph.ofBytes source) := by
  unfold Scanner.start at h
  split at h
  next hs =>
    injection h with h
    exact ⟨hs, h.symm⟩
  next => cases h

/-- What holds at every start and is kept by every step holds always. -/
theorem Reachable.invariant {P : Scanner → Prop}
    (start : ∀ file mode src, P (ofGlyphs file mode src))
    (step : ∀ s, P s → P (s.perform s.plan))
    (line : ∀ s ends, P s →
      P { s with nesting := s.nesting.afterToken ends })
    (recipes : ∀ s on, P s → P (s.setRecipes on))
    {s : Scanner} (h : Reachable s) : P s := by
  induction h with
  | start h =>
      obtain ⟨-, rfl⟩ := start_eq_ok h
      exact start _ _ _
  | scan _ ih => exact scan_preserves step line ih
  | setRecipes on _ ih => exact recipes _ on ih

end BuildLexer.Scanner
