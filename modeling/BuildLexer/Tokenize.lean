/-
A whole source at once: its tokens without the end, and what was
reported, as a collection of diagnostics with the default limit. A file
is made for the source, and a source that is too long for a file is not
read (`tokenizeSource`).
-/
import BuildLexer.Diagnostic.Collection
import BuildLexer.Scanner.Scan

namespace BuildLexer

/-- Collects reports, each as a diagnostic of its own. -/
def Diagnostics.ofReports (rs : List Report) : Diagnostics :=
  rs.foldl (fun d r => d.add r.position r.message) {}

/-- A scanner at the start of a source, in a file of its own. -/
def Scanner.alone (name : String) (mode : Mode) (source : List UInt8) :
    Scanner :=
  Scanner.ofGlyphs (File.alone name source.length) mode
    (Glyph.ofBytes source)

/-- The tokens from a scanner up to the end, and all that was reported. -/
def Scanner.collect (s : Scanner) : List Lexeme × Diagnostics :=
  let (lexemes, last) := s.tokens (s.rest.length + 1)
  (lexemes, Diagnostics.ofReports last.reports)

/-- The tokens of a source up to its end, and what is wrong with it. -/
def tokenize (name : String) (mode : Mode) (source : List UInt8) :
    List Lexeme × Diagnostics :=
  (Scanner.alone name mode source).collect

/-- The same for a source that is to be a file of its own. The size of a
file is a number of 32 bits. -/
def tokenizeSource (name : String) (mode : Mode) (source : List UInt8) :
    Except SizeMismatch (List Lexeme × Diagnostics) := do
  if File.maxSize < source.length then
    throw ⟨File.maxSize, source.length⟩
  let s ← Scanner.start (File.alone name source.length) mode source
  return s.collect

end BuildLexer
