/-
Several files in one space of handles.

Each file begins right behind the one before it, with the handle after
the end of that file's text as its own, so no handle belongs to two
files. The space ends at the largest 32-bit number: bases stop there.
The files stand in the order they were added, which is also the order
of their bases, so the owner of a handle is the last file that begins
at or before it, if that file reaches so far.
-/
import BuildLexer.Source.File

namespace BuildLexer

/-- Files in the order they were added, and the base of the next. -/
structure FileSet where
  files : List File := []
  nextBase : Nat := 1
  deriving DecidableEq

namespace FileSet

/-- The largest handle there is. -/
def lastHandle : Nat := 0xFFFFFFFF

/-- The base of a file that follows one of `size` bytes at `base`. -/
def baseAfter (base size : Nat) : Nat :=
  min (min (base + size) lastHandle + 1) lastHandle

/-- Adds a file. Its number in the set is the number of files before. -/
def addFile (s : FileSet) (name : String) (size : Nat) : FileSet where
  files := s.files ++ [{ name, base := s.nextBase, size }]
  nextBase := baseAfter s.nextBase size

/-- The file with a number, if the set has so many. -/
def file? (s : FileSet) (number : Nat) : Option File := s.files[number]?

/-- Replaces the file with a number. -/
def setFile (s : FileSet) (number : Nat) (f : File) : FileSet :=
  { s with files := s.files.set number f }

/-- The file that a handle belongs to. -/
def owner? (s : FileSet) (h : Handle) : Option File :=
  if h.isValid then
    (s.files.takeWhile (·.base ≤ h.index)).getLast?.filter (·.contains h)
  else none

/-- The position of a handle, by the lines known so far. -/
def position (s : FileSet) (h : Handle) : Position :=
  match s.owner? h with
  | some f => f.position h
  | none => Position.unknown

end FileSet

end BuildLexer
