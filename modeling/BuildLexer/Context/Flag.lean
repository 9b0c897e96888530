/-
What is known about a place in a source before its text is read: one
flag for each fact.

Nine flags belong to constructs that are open around the place. The
other four are about lines: whether one has just begun, and how tabs
and hash signs are to be taken in it.
-/
namespace BuildLexer

/-- A fact about the surroundings of a place. -/
inductive Flag where
  /-- Inside a recipe line. -/
  | recipeLine
  /-- Inside a string in double quotes. -/
  | quoted
  /-- In the arguments of a call in parentheses. -/
  | parenCall
  /-- In the arguments of a call in braces. -/
  | braceCall
  /-- In the first part of a call by colons, or in the brackets of a
  rule. -/
  | colonCallLeft
  /-- In the second part of either. -/
  | colonCallRight
  /-- Right behind the sigil of a call by a bare name. -/
  | nameCall
  /-- In parentheses that open no call, or in braces within a call. -/
  | group
  /-- The open string has three quotes at each end. -/
  | tripleQuoted
  /-- Nothing has been read on this line. -/
  | lineStart
  /-- A tab at the start of any line opens a recipe. -/
  | recipesAllowed
  /-- A tab at the start of a line opens a recipe, because the lines
  follow a rule. -/
  | recipesExpected
  /-- A hash sign is a token and starts no comment. -/
  | commentsOff
  deriving DecidableEq

namespace Flag

/-- The flags by number. -/
def number : Flag → Nat
  | recipeLine => 0
  | quoted => 1
  | parenCall => 2
  | braceCall => 3
  | colonCallLeft => 4
  | colonCallRight => 5
  | nameCall => 6
  | group => 7
  | tripleQuoted => 8
  | lineStart => 9
  | recipesAllowed => 10
  | recipesExpected => 11
  | commentsOff => 12

/-- Each flag has a number of its own. -/
theorem number_inj {f g : Flag} : f.number = g.number ↔ f = g := by
  cases f <;> cases g <;> decide

/-- The flags are numbered without going beyond thirteen bits. -/
theorem number_lt (f : Flag) : f.number < 13 := by
  cases f <;> decide

end Flag

end BuildLexer
