/-
Numbers.

A number is a run of digits in which underscores may stand between two
digits. It starts with `0b` or `0x` for another base, or with a digit;
then a fraction and an exponent may follow, each only when a digit is
there to make it one, so that `1.name` is a number, a dot and a name. A
number that starts with 0 and goes on with octal digits is octal.

Underscores are taken wherever they stand and the misplaced ones noted:
each that follows another, and one that ends a run. The second kind is
known only when the run is over, so for the last run of a number it is
noted after the number was read (`late`), together with what is wrong
with the number as a whole; everything else is noted while it is read
(`early`). Offsets count from the start of the number, its sign
included.
-/
import BuildLexer.Fault
import BuildLexer.Text.Letter

namespace BuildLexer

/-- A number at the front of some glyphs. -/
structure Number where
  kind : Literal
  length : Nat
  early : List Finding
  late : List Finding
  deriving DecidableEq

namespace Number

-- ===================================================== runs of digits

/-- The mark that may stand between digits. -/
def separator : Glyph := .scalar '_'

/-- A digit of the bases up to sixteen. -/
def isHexDigit (g : Glyph) : Bool := (g.digitValue? 16).isSome

/-- The digits and separators at the front. -/
def runOf (isDigit : Glyph → Bool) (src : List Glyph) : List Glyph :=
  src.takeWhile fun g => g == separator || isDigit g

/-- A run of digits and the offset it starts at. -/
structure Run where
  start : Nat
  glyphs : List Glyph

namespace Run

/-- The offset behind a run. -/
def stop (r : Run) : Nat := r.start + r.glyphs.length

/-- The offsets of the separators that follow one. -/
def doubledFrom : Nat → List Glyph → List Nat
  | start, a :: b :: rest =>
    if a = separator ∧ b = separator then
      (start + 1) :: doubledFrom (start + 1) (b :: rest)
    else doubledFrom (start + 1) (b :: rest)
  | _, _ => []

/-- The separators that follow one. -/
def doubled (r : Run) : List Finding :=
  (doubledFrom r.start r.glyphs).map (⟨·, .misplacedSeparator⟩)

/-- The separator that ends a run, if one does. -/
def dangling (r : Run) : List Finding :=
  if r.glyphs.getLast? = some separator then
    [⟨r.stop - 1, .misplacedSeparator⟩]
  else []

/-- The first digit of a run that is too large for the base. -/
def tooLarge? (base : Nat) (r : Run) : Option Nat :=
  (r.glyphs.findIdx? fun g =>
    g.isDigit && (g.digitValue? base).isNone).map (r.start + ·)

end Run

/-- What is noted while some runs are read. -/
def earlyOf : List Run → List Finding
  | [] => []
  | [last] => last.doubled
  | r :: rest => r.doubled ++ r.dangling ++ earlyOf rest

/-- What is noted about the last run once it is over. -/
def lateOf (runs : List Run) : List Finding :=
  match runs.getLast? with
  | some last => last.dangling
  | none => []

-- ============================================== fraction and exponent

/-- The digits of a fraction, if a point and a digit are next. -/
def fraction? : List Glyph → Option (List Glyph)
  | .scalar '.' :: d :: rest =>
    if d.isDigit then some (runOf Glyph.isDigit (d :: rest)) else none
  | _ => none

/-- Whether a glyph marks an exponent. -/
def isExponentMark (g : Glyph) : Bool := g == .scalar 'e' || g == .scalar 'E'

/-- Whether a glyph is the sign of an exponent. -/
def isSign (g : Glyph) : Bool := g == .scalar '+' || g == .scalar '-'

/-- The digits of an exponent and the length of what stands before
them, if a mark, perhaps a sign, and a digit are next. -/
def exponent? : List Glyph → Option (Nat × List Glyph)
  | e :: s :: rest =>
    if !isExponentMark e then none
    else if s.isDigit then some (1, runOf Glyph.isDigit (s :: rest))
    else if isSign s && rest.head?.any Glyph.isDigit then
      some (2, runOf Glyph.isDigit rest)
    else none
  | _ => none

/-- The run of a fraction that starts at an offset. -/
def fractionRun (start : Nat) (src : List Glyph) : List Run :=
  match fraction? src with
  | some digits => [⟨start + 1, digits⟩]
  | none => []

/-- The run of an exponent that starts at an offset. -/
def exponentRun (start : Nat) (src : List Glyph) : List Run :=
  match exponent? src with
  | some (before, digits) => [⟨start + before, digits⟩]
  | none => []

/-- Where some runs stop, if they begin at an offset. -/
def stopOf (start : Nat) (runs : List Run) : Nat :=
  (runs.getLast?.map Run.stop).getD start

/-- The runs of what makes a number a float: a fraction, an exponent,
both or none. -/
def floatRuns (start : Nat) (src : List Glyph) : List Run :=
  let fraction := fractionRun start src
  let stop := stopOf start fraction
  fraction ++ exponentRun stop (src.drop (stop - start))

-- ============================================================ numbers

/-- A binary number, whose digits start at an offset. -/
def binary (start : Nat) (src : List Glyph) : Number :=
  let run : Run := ⟨start, runOf Glyph.isDigit src⟩
  let whole : List Finding :=
    if !run.glyphs.any Glyph.isDigit then [⟨0, .noBinaryDigits⟩]
    else (run.tooLarge? 2).toList.map (⟨·, .notBinaryDigit⟩)
  ⟨.binary, run.stop, run.doubled, run.dangling ++ whole⟩

/-- A hexadecimal number, whose digits start at an offset. -/
def hexadecimal (start : Nat) (src : List Glyph) : Number :=
  let run : Run := ⟨start, runOf isHexDigit src⟩
  let whole : List Finding :=
    if !run.glyphs.any isHexDigit then [⟨0, .noHexadecimalDigits⟩] else []
  ⟨.hexadecimal, run.stop, run.doubled, run.dangling ++ whole⟩

/-- The kind of a whole number that starts with 0, given its digits and
what follows, with the fault of a digit that is not octal. A number
before an `i` is decimal. -/
def zeroKind (mantissa : Run) (rest : List Glyph) :
    Literal × List Finding :=
  if rest.head? = some (.scalar 'i')
      ∨ !(mantissa.glyphs.drop 1).any Glyph.isDigit then (.integer, [])
  else match mantissa.tooLarge? 8 with
    | some offset => (.integer, [⟨offset, .notOctalDigit⟩])
    | none => (.octal, [])

/-- A number in digits, which start at an offset. -/
def decimal (start : Nat) (src : List Glyph) : Number :=
  let mantissa : Run := ⟨start, runOf Glyph.isDigit src⟩
  let rest := src.drop mantissa.glyphs.length
  let runs := floatRuns mantissa.stop rest
  if runs.isEmpty then
    let (kind, whole) :=
      if src.head? = some (.scalar '0') then zeroKind mantissa rest
      else (.integer, [])
    ⟨kind, mantissa.stop, mantissa.doubled, mantissa.dangling ++ whole⟩
  else
    ⟨.float, stopOf mantissa.stop runs, earlyOf (mantissa :: runs),
      lateOf runs⟩

/-- The number whose first digit stands at the front, at an offset from
where the number starts. -/
def read (start : Nat) (src : List Glyph) : Number :=
  match src with
  | .scalar '0' :: mark :: rest =>
    if mark = .scalar 'b' ∨ mark = .scalar 'B' then binary (start + 2) rest
    else if mark = .scalar 'x' ∨ mark = .scalar 'X' then
      hexadecimal (start + 2) rest
    else decimal start src
  | _ => decimal start src

end Number

end BuildLexer
