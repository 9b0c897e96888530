/-
Sets of code points, given as closed ranges in ascending order. The
tables of character properties are written in this form, one range for
each unbroken run, so a table can be held against the published one
line by line.
-/
namespace BuildLexer.CodeRanges

/-- Whether a code point lies in one of the ranges. -/
def covers (ranges : List (Nat × Nat)) (n : Nat) : Bool :=
  ranges.any fun (first, last) => first ≤ n && n ≤ last

end BuildLexer.CodeRanges
