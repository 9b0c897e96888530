/-
Collections of diagnostics.

A collection holds trees in the order they came, as many as its limit
allows; the oldest give way. Single messages are added as they come,
also at a position that is there already. Trees are merged: one at a
known position goes into the tree there.

For a reader the collection is put in order, by file, line and column,
then plain diagnostics before those that hold trees, then by first
message; equal ones stay in the order they came. Of the diagnostics on
one line the first can be kept alone.
-/
import BuildLexer.Diagnostic.Merge
import BuildLexer.Diagnostic.Render

namespace BuildLexer

/-- Trees in the order they came, oldest first. -/
structure Diagnostics where
  entries : List Tree := []
  /-- How many entries are kept, and how many parts of each tree into
  which another is merged. -/
  limit : Nat := defaultLimit
  deriving DecidableEq

namespace Diagnostics

-- ============================================================= filling

/-- Drops the oldest entries above the limit. -/
def truncate (d : Diagnostics) : Diagnostics :=
  { d with entries := newest d.limit d.entries }

/-- Adds a message at a position. -/
def add (d : Diagnostics) (p : Position) (message : String) : Diagnostics :=
  truncate { d with entries := d.entries ++ [Tree.single p message] }

/-- Merges a tree into the first entry at its position, or appends it. -/
def mergeInto (limit : Nat) (new : Tree) : List Tree → List Tree
  | [] => [new]
  | t :: rest =>
    if t.position = new.position then t.merge limit new.parts :: rest
    else t :: mergeInto limit new rest

/-- Merges one tree. -/
def mergeTree (d : Diagnostics) (t : Tree) : Diagnostics :=
  truncate { d with entries := mergeInto d.limit t d.entries }

/-- Merges trees in order. -/
def merge (d : Diagnostics) (ts : List Tree) : Diagnostics :=
  ts.foldl mergeTree d

/-- Drops all entries. -/
def reset (d : Diagnostics) : Diagnostics := { d with entries := [] }

-- ============================================================ looking

/-- How many entries there are. -/
def size (d : Diagnostics) : Nat := d.entries.length

/-- Whether there are no entries. -/
def isEmpty (d : Diagnostics) : Bool := d.entries.isEmpty

/-- Nothing when there are no entries, and all of them otherwise. -/
def toExcept (d : Diagnostics) : Except Diagnostics Unit :=
  if d.isEmpty then .ok () else .error d

-- ============================================================== order

/-- The order of two trees for a reader. -/
def order (a b : Tree) : Ordering :=
  (compare a.position.filename b.position.filename).then <|
  (compare a.position.line b.position.line).then <|
  (compare a.position.column b.position.column).then <|
  (compare a.hasNodes b.hasNodes).then <|
  compare a.firstMessage b.firstMessage

/-- Whether two trees are on the same line of the same file. -/
def sameLine (a b : Tree) : Bool :=
  a.position.filename == b.position.filename
    && a.position.line == b.position.line

/-- Puts the entries in order. -/
def sort (d : Diagnostics) : Diagnostics :=
  { d with entries := d.entries.mergeSort fun a b => (order a b).isLE }

/-- Puts the entries in order and keeps the first of each line. -/
def removeMultiples (d : Diagnostics) : Diagnostics :=
  { d with entries := d.sort.entries.eraseRepsBy sameLine }

-- =========================================================== in words

/-- The first entry in words, and how many there are besides. -/
def render (d : Diagnostics) : String :=
  match d.entries with
  | [] => "no errors"
  | [only] => only.render
  | first :: others =>
    first.render ++ " (and " ++ toString others.length ++ " more errors)"

end Diagnostics

end BuildLexer
