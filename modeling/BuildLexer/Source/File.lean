/-
One source file: the stretch of handles it owns and the lines found in
it so far.

A file of `size` bytes owns the handles from `base` to `base + size`,
both included; the last one is the place after its text. Lines are
registered while the text is read. The first line starts at offset 0
and is never registered, so a file keeps the starts of the later ones
only, latest first: a start is accepted when it lies behind the latest
and inside the text, which keeps the list strictly decreasing.

To find the line of an offset is then to drop the starts behind it:
what is left are the later lines that begin at or before the offset
(`startsUpTo`), their number gives the line and their first the place
where that line starts.
-/
import BuildLexer.Source.Position

namespace BuildLexer

/-- A file's name, its stretch of handles and its known lines. -/
structure File where
  name : String
  base : Nat
  size : Nat
  /-- Starts of the lines after the first, latest first. -/
  laterStarts : List Nat := []
  deriving DecidableEq

namespace File

/-- The largest size that a file can have, in 32 bits. -/
def maxSize : Nat := 0xFFFFFFFF

/-- A file that stands alone begins at the first handle there is. -/
def alone (name : String) (size : Nat) : File :=
  { name, base := 1, size }

-- ============================================================== lines

/-- Where the latest known line starts. -/
def lastStart (f : File) : Nat := f.laterStarts.headD 0

/-- Registers a line. A start that is not behind the latest one, or not
inside the text, is ignored. -/
def addLine (f : File) (start : Nat) : File :=
  if f.lastStart < start ∧ start < f.size then
    { f with laterStarts := start :: f.laterStarts }
  else f

/-- How many lines are known. -/
def lineCount (f : File) : Nat := f.laterStarts.length + 1

/-- The later lines that begin at or before an offset, latest first. -/
def startsUpTo (f : File) (offset : Nat) : List Nat :=
  f.laterStarts.dropWhile (offset < ·)

/-- The line that an offset is on, counted from 1. -/
def lineOf (f : File) (offset : Nat) : Nat :=
  (f.startsUpTo offset).length + 1

/-- Where the line that an offset is on starts. -/
def lineStart (f : File) (offset : Nat) : Nat :=
  (f.startsUpTo offset).headD 0

-- ============================================================ handles

/-- The handle of an offset; offsets past the end mean the end. -/
def handle (f : File) (offset : Nat) : Handle :=
  ⟨f.base + min offset f.size⟩

/-- The offset of a handle, brought into the file when it lies outside. -/
def offset (f : File) (h : Handle) : Nat :=
  min (h.index - f.base) f.size

/-- Whether the handle is one of the file's. -/
def contains (f : File) (h : Handle) : Bool :=
  f.base ≤ h.index && h.index ≤ f.base + f.size

/-- The handles of a file. -/
theorem contains_iff {f : File} {h : Handle} :
    f.contains h = true ↔ f.base ≤ h.index ∧ h.index ≤ f.base + f.size := by
  unfold contains
  rw [Bool.and_eq_true, decide_eq_true_eq, decide_eq_true_eq]

theorem contains_handle (f : File) (offset : Nat) :
    f.contains (f.handle offset) = true := by
  rw [contains_iff]
  unfold handle
  dsimp only
  omega

theorem offset_handle (f : File) (offset : Nat) :
    f.offset (f.handle offset) = min offset f.size := by
  unfold File.offset handle
  dsimp only
  omega

theorem isValid_handle {f : File} (valid : 1 ≤ f.base) (offset : Nat) :
    (f.handle offset).isValid = true := by
  unfold Handle.isValid handle
  simp
  omega

-- ========================================================== positions

/-- The position of an offset inside the file. -/
def positionAt (f : File) (offset : Nat) : Position where
  filename := f.name
  offset := offset
  line := f.lineOf offset
  column := offset - f.lineStart offset + 1

/-- The position of a handle, by the lines known so far. -/
def position (f : File) (h : Handle) : Position :=
  if h.isValid && f.contains h then f.positionAt (f.offset h)
  else Position.unknown

/-- A file that does not begin at no place has positions for its
offsets. -/
theorem position_handle {f : File} (valid : 1 ≤ f.base) (offset : Nat) :
    f.position (f.handle offset) = f.positionAt (min offset f.size) := by
  unfold position
  rw [isValid_handle valid, f.contains_handle, f.offset_handle]
  rfl

end File

end BuildLexer
