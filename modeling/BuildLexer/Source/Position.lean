/-
Where a piece of source text is: as a handle, which is one number and
names a place among all files of a set, and as a position, which names
the file, the line and the column for a reader.

Handles are what tokens carry; a position is worked out from a handle
only when somebody asks (`File.position`, `FileSet.position`). Number 0
is kept free in the space of handles, so that "no place" has a handle
too, and line 0 marks the position that such a handle resolves to.
-/
namespace BuildLexer

-- ============================================================ handles

/-- A place in the space shared by the files of a set. -/
structure Handle where
  index : Nat
  deriving DecidableEq

namespace Handle

/-- The handle of no place: files start at handle 1 or later. -/
def nowhere : Handle := ⟨0⟩

/-- Whether the handle can belong to a file at all. -/
def isValid (h : Handle) : Bool := h.index != 0

end Handle

-- ========================================================== positions

/-- A place as a reader sees it. The offset counts bytes from 0, lines
and columns count from 1, and a column is a byte of its line. -/
structure Position where
  filename : String
  offset : Nat
  line : Nat
  column : Nat
  deriving DecidableEq

namespace Position

/-- The position of a place that is in no file. -/
def unknown : Position := ⟨"", 0, 0, 0⟩

/-- A position is in a text when it has a line. -/
def isValid (p : Position) : Bool := p.line != 0

/-- Line and column, joined by a colon. -/
def lineAndColumn (p : Position) : String :=
  toString p.line ++ ":" ++ toString p.column

/-- The written form: the parts that are known, or a dash when neither
the file nor the line is. -/
def render (p : Position) : String :=
  if p.isValid then
    if p.filename.isEmpty then p.lineAndColumn
    else p.filename ++ ":" ++ p.lineAndColumn
  else if p.filename.isEmpty then "-"
  else p.filename

end Position

end BuildLexer
