/-
Scanning: one token after the other, to the end of the source.

A call of `scan` makes steps until one gives a token. Steps that give
none read something, so they come to an end, and so does a whole run:
every token but the last leaves less to read (`length_scan`).
-/
import BuildLexer.Scanner.Basic

namespace BuildLexer

/-- A token that was read: where it starts, its kind and its text. -/
structure Lexeme where
  handle : Handle
  token : Token
  text : String
  deriving DecidableEq

namespace Scanner

/-- The plan of the next step. -/
def plan (s : Scanner) : Plan := Plan.next s.mode s.nesting s.rest

/-- The token of a step that has been made from an offset on. What is
known about the next place depends on whether a line ended. -/
def deliver (s : Scanner) (start : Nat) (token : Token) (text : String) :
    Lexeme × Scanner :=
  (⟨s.file.handle start, token, text⟩,
    { s with
      nesting := s.nesting.afterToken (token == .punct .lineEnd) })

/-- The end of the source is a token. -/
theorem token_plan_nil (s : Scanner) (h : s.rest = []) :
    s.plan.token = some .endOfFile := by
  simp [plan, Plan.next, Plan.atEnd, h]

/-- Reads the next token. At the end of the source that is the end
itself, as often as asked for. -/
def scan (s : Scanner) : Lexeme × Scanner :=
  match _h : s.plan.token with
  | some token => (s.perform s.plan).deliver s.offset token s.plan.text
  | none => scan (s.perform s.plan)
termination_by s.rest.length
decreasing_by
  apply length_perform
  intro done
  simp [token_plan_nil s done] at _h

/-- Every token but the end of the source leaves less to read. -/
theorem length_scan (s : Scanner) (h : s.scan.1.token ≠ .endOfFile) :
    s.scan.2.rest.length < s.rest.length := by
  fun_induction scan s with
  | case1 s token hp =>
    refine length_perform s s.plan fun done => ?_
    rw [token_plan_nil s done] at hp
    exact h (Option.some.inj hp).symm
  | case2 s hp ih =>
    refine Nat.lt_trans (ih h) (length_perform s s.plan fun done => ?_)
    simp [token_plan_nil s done] at hp

/-- All tokens to the end of the source, each with the scanner behind
it. The last is the end itself. -/
def run (s : Scanner) : List (Lexeme × Scanner) :=
  if s.scan.1.token = .endOfFile then [s.scan] else s.scan :: run s.scan.2
termination_by s.rest.length
decreasing_by exact length_scan s ‹_›

/-- The next tokens, at most `n` of them and none from the end of the
source on, and the scanner behind them. -/
def tokens : (n : Nat) → Scanner → List Lexeme × Scanner
  | 0, s => ([], s)
  | n + 1, s =>
    let (lexeme, next) := s.scan
    if lexeme.token = .endOfFile then ([], next)
    else
      let (lexemes, last) := tokens n next
      (lexeme :: lexemes, last)

end Scanner

end BuildLexer
