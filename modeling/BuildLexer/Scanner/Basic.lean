/-
The scanner's state, and how it moves.

The scanner stands at an offset of a file with the glyphs ahead of it.
Moving over a glyph registers the line that starts behind a newline,
and looks at the glyph reached: a NUL, a broken byte or a byte order
mark inside the text is reported there and then, once, whatever it
turns out to be part of. Only the rest of a comment is passed over
without looking.

Reports never stop the scanner. They are kept latest first, each at the
position that the lines known at the moment give. In a new file those
are all lines up to the place, so the position is final.
-/
import BuildLexer.Plan.Step
import BuildLexer.Source.File

namespace BuildLexer

/-- A scanner at work on one file. -/
structure Scanner where
  file : File
  mode : Mode
  /-- The glyphs from the offset on. -/
  rest : List Glyph
  offset : Nat
  nesting : Nesting
  /-- What was reported, latest first. -/
  log : List Report := []
  deriving DecidableEq

/-- Why a source cannot be scanned into a file. -/
structure SizeMismatch where
  fileSize : Nat
  sourceLength : Nat
  deriving DecidableEq

/-- The words for a mismatch of sizes. -/
def SizeMismatch.message (e : SizeMismatch) : String :=
  "file size (" ++ toString e.fileSize ++ ") does not match source length ("
    ++ toString e.sourceLength ++ ")"

/-- What is wrong with a glyph wherever it stands, at an offset. -/
def Glyph.fault? (offset : Nat) : Glyph → Option Fault
  | broken _ => some .illFormedByte
  | scalar c =>
    if c = '\x00' then some .nulCharacter
    else if c = '\uFEFF' ∧ 0 < offset then some .strayByteOrderMark
    else none

namespace Scanner

-- ============================================================ reports

/-- Files a report at an offset. -/
def report (s : Scanner) (offset : Nat) (fault : Fault) : Scanner :=
  { s with log := ⟨s.file.position (s.file.handle offset), fault⟩ :: s.log }

/-- Files the findings of a step that began at an offset. -/
def reportAll (s : Scanner) (start : Nat) (findings : List Finding) :
    Scanner :=
  findings.foldl (fun s f => s.report (start + f.offset) f.fault) s

/-- How many reports were filed. -/
def errorCount (s : Scanner) : Nat := s.log.length

/-- The reports in the order they were filed. -/
def reports (s : Scanner) : List Report := s.log.reverse

-- ============================================================= moving

/-- Looks at the glyph that was reached. -/
def look (s : Scanner) : Scanner :=
  match s.rest.head?.bind (Glyph.fault? s.offset) with
  | some fault => s.report s.offset fault
  | none => s

/-- Moves over one glyph; at the end nothing moves. -/
def advance (s : Scanner) : Scanner :=
  match s.rest with
  | [] => s
  | g :: rest =>
    let offset := s.offset + g.width
    let file := if g = .newline then s.file.addLine offset else s.file
    look { s with rest, offset, file }

/-- Moves over some glyphs. -/
def walk : Nat → Scanner → Scanner
  | 0, s => s
  | n + 1, s => walk n s.advance

/-- Passes to the end of the line without looking. -/
def skipLine (s : Scanner) : Scanner :=
  let passed := s.rest.takeWhile (· != .newline)
  { s with
    rest := s.rest.drop passed.length
    offset := s.offset + Glyph.totalWidth passed }

/-- Carries out a plan. -/
def perform (s : Scanner) (p : Plan) : Scanner :=
  let start := s.offset
  let s := walk (p.more + 1) (s.reportAll start p.early)
  let s := if p.skipsLine then s.skipLine else s
  { s.reportAll start p.late with nesting := p.nesting }

-- ============================================================ starting

/-- The context a source starts in. -/
def startContext (mode : Mode) : Context :=
  if mode.hashTokens then {.lineStart, .commentsOff} else {.lineStart}

/-- A scanner at the start of some glyphs. A byte order mark there is
passed over. -/
def ofGlyphs (file : File) (mode : Mode) (src : List Glyph) : Scanner :=
  let stack : ContextStack := { current := startContext mode }
  let s := look { file, mode, rest := src, offset := 0, nesting := { stack } }
  if src.head? = some .byteOrderMark then s.advance else s

/-- A scanner at the start of a source, whose length must be the size
of the file. -/
def start (file : File) (mode : Mode) (source : List UInt8) :
    Except SizeMismatch Scanner :=
  if file.size = source.length then
    .ok (ofGlyphs file mode (Glyph.ofBytes source))
  else .error ⟨file.size, source.length⟩

/-- Lets tabs open recipes on all lines, or no longer. -/
def setRecipes (s : Scanner) (on : Bool) : Scanner :=
  { s with nesting := s.nesting.setRecipes on }

/-- The context at the place where the scanner stands. -/
def context (s : Scanner) : Context := s.nesting.stack.current

/-- The position of a handle, by the lines known so far. -/
def position (s : Scanner) (h : Handle) : Position := s.file.position h

-- ============================================== what moving leaves alone

/-- A report moves nothing. -/
@[simp] theorem rest_report (s : Scanner) (offset : Nat) (f : Fault) :
    (s.report offset f).rest = s.rest := rfl

@[simp] theorem rest_reportAll (s : Scanner) (start : Nat)
    (fs : List Finding) : (s.reportAll start fs).rest = s.rest := by
  unfold reportAll
  induction fs generalizing s with
  | nil => rfl
  | cons f fs ih => rw [List.foldl_cons, ih, rest_report]

/-- To look at a glyph moves nothing. -/
@[simp] theorem rest_look (s : Scanner) : s.look.rest = s.rest := by
  unfold look
  split <;> rfl

/-- Moving on passes one glyph, if there is one. -/
@[simp] theorem rest_advance (s : Scanner) :
    s.advance.rest = s.rest.drop 1 := by
  unfold advance
  split <;> rename_i h <;> simp [h]

/-- A walk passes as many glyphs as it is long, if they are there. -/
@[simp] theorem rest_walk (n : Nat) (s : Scanner) :
    (walk n s).rest = s.rest.drop n := by
  induction n generalizing s with
  | zero => rfl
  | succ n ih => rw [walk, ih, rest_advance, List.drop_drop, Nat.add_comm]

/-- Passing the rest of a line leaves no more than there was. -/
theorem length_skipLine (s : Scanner) :
    s.skipLine.rest.length ≤ s.rest.length := by
  simp [skipLine]

/-- Carrying out a plan at a glyph moves on. -/
theorem length_perform (s : Scanner) (p : Plan) (h : s.rest ≠ []) :
    (s.perform p).rest.length < s.rest.length := by
  have walked : (walk (p.more + 1) (s.reportAll s.offset p.early)).rest.length
      < s.rest.length := by
    have := List.length_pos_iff.2 h
    simp only [rest_walk, rest_reportAll, List.length_drop]
    omega
  simp only [perform, rest_reportAll]
  split
  · exact Nat.lt_of_le_of_lt (length_skipLine _) walked
  · exact walked

end Scanner

end BuildLexer
