/-
A text of marks is cut into them, the longest first.

How such a text has to be cut is said without any scanner: from the front,
always the longest mark there is, and alone the head of an arrow that
begins none (`MarkSplit`). There is one way to do so
(`MarkSplit.unique`), and it is what a scanner gives that begins with the
text: a token for each piece, and a report for each head of an arrow that
is left alone (`marks_split`).

One call takes one piece (`AtMarks.scan`). What carries it from call to
call is that nothing is open, since only sigils and brackets open
anything. A colon may end the head of a rule, which is noted, but no
construct.
-/
import BuildLexer.Proofs.Punctuation.Longest
import BuildLexer.Proofs.Recipes.Expected
import BuildLexer.Proofs.Scanner.Code
import BuildLexer.Proofs.Tiling.Run

namespace BuildLexer

open Plan Glyph

-- ============================================================= the pieces

/-- A piece of a text of marks: a mark, or the head of an arrow alone. -/
inductive MarkPiece where
  | mark (token : Token)
  | stray

namespace MarkPiece

/-- The characters of a piece. -/
def chars : MarkPiece → List Char
  | mark token => token.chars
  | stray => ['>']

/-- The token that a piece is given as. -/
def token : MarkPiece → Token
  | mark token => token
  | stray => .illegal

/-- The text that the token carries. -/
def text : MarkPiece → String
  | mark _ => ""
  | stray => ">"

/-- What is wrong with a piece. -/
def findings : MarkPiece → List Finding
  | mark _ => []
  | stray => [⟨0, .illegalCharacter '>'⟩]

/-- A piece that is to be taken first of a text. -/
def Leads (piece : MarkPiece) (text rest : List Char) : Prop :=
  match piece with
  | mark token => LongestMark token text rest
  | stray => text = '>' :: rest ∧ NoMark text

theorem Leads.front {piece : MarkPiece} {text rest : List Char}
    (h : piece.Leads text rest) :
    text = piece.chars ++ rest ∧ piece.chars ≠ [] := by
  cases piece with
  | mark token => exact ⟨LongestMark.front h, chars_ne_nil _ h.mark⟩
  | stray => exact ⟨h.1, List.cons_ne_nil _ _⟩

/-- No piece is the end of the source. -/
theorem Leads.token_ne {piece : MarkPiece} {text rest : List Char}
    (h : piece.Leads text rest) : piece.token ≠ .endOfFile := by
  cases piece with
  | mark token =>
      have noEnd : Token.endOfFile ∉ Token.marks := by decide
      rintro rfl
      exact noEnd h.mark
  | stray => exact nofun

theorem Leads.unique {piece other : MarkPiece}
    {text rest rest' : List Char} (h : piece.Leads text rest)
    (h' : other.Leads text rest') : piece = other ∧ rest = rest' := by
  cases piece with
  | mark token =>
      cases other with
      | mark token' =>
          obtain ⟨same, left⟩ := LongestMark.unique h h'
          exact ⟨congrArg mark same, left⟩
      | stray =>
          exact absurd ⟨rest, (LongestMark.front h).symm⟩ (h'.2 token h.mark)
  | stray =>
      cases other with
      | mark token' =>
          exact absurd ⟨rest', (LongestMark.front h').symm⟩
            (h.2 token' h'.mark)
      | stray => exact ⟨rfl, (List.cons.inj (h.1.symm.trans h'.1)).2⟩

end MarkPiece

/-- A text cut into pieces, from the front, always the longest. -/
inductive MarkSplit : List Char → List MarkPiece → Prop
  | nil : MarkSplit [] []
  | cons {piece : MarkPiece} {text rest : List Char}
      {pieces : List MarkPiece} (first : piece.Leads text rest)
      (more : MarkSplit rest pieces) : MarkSplit text (piece :: pieces)

theorem MarkSplit.unique {text : List Char} {a b : List MarkPiece}
    (ha : MarkSplit text a) (hb : MarkSplit text b) : a = b := by
  have nonempty {piece : MarkPiece} {rest : List Char}
      (h : piece.Leads [] rest) : False := by
    obtain ⟨front, some_char⟩ := h.front
    exact some_char (List.append_eq_nil_iff.1 front.symm).1
  induction ha generalizing b with
  | nil =>
      cases hb with
      | nil => rfl
      | cons first _ => exact (nonempty first).elim
  | cons first _ ih =>
      cases hb with
      | nil => exact (nonempty first).elim
      | cons first' more' =>
          obtain ⟨rfl, rfl⟩ := first.unique first'
          rw [ih more']

/-- The lexemes of some pieces in a file from an offset on, and the end
behind them. -/
def lexemesFrom (file : File) : Nat → List MarkPiece → List Lexeme
  | offset, [] => [⟨file.handle offset, .endOfFile, ""⟩]
  | offset, piece :: pieces =>
    ⟨file.handle offset, piece.token, piece.text⟩
      :: lexemesFrom file (offset + piece.chars.length) pieces

/-- What is wrong with some pieces from an offset on. -/
def findingsFrom : Nat → List MarkPiece → List Finding
  | _, [] => []
  | offset, piece :: pieces =>
    piece.findings.map (Finding.shift offset)
      ++ findingsFrom (offset + piece.chars.length) pieces

theorem lexemesFrom_congr {a b : File}
    (same : ∀ offset, a.handle offset = b.handle offset) (offset : Nat)
    (pieces : List MarkPiece) :
    lexemesFrom a offset pieces = lexemesFrom b offset pieces := by
  induction pieces generalizing offset with
  | nil => rw [lexemesFrom, lexemesFrom, same]
  | cons piece pieces ih => rw [lexemesFrom, lexemesFrom, same, ih]

-- =========================================================== plain steps

theorem Nesting.isInside_afterToken (n : Nesting) (endsLine : Bool) :
    (n.afterToken endsLine).isInside = n.isInside := by
  rw [Bool.eq_iff_iff]
  unfold isInside meets
  rw [Context.meets_iff, Context.meets_iff]
  refine exists_congr fun f => and_congr_left fun nested => ?_
  refine mem_afterToken ?_ endsLine
  rintro rfl
  exact absurd nested (by decide)

/-- Outside all constructs the end of the source closes nothing. -/
theorem Plan.atEnd_of_outside {n : Nesting} (outside : n.isInside = false) :
    atEnd n = { token := some .endOfFile, nesting := n } := by
  have stays : n.stack.unwind = (n.stack, []) := by
    obtain ⟨⟨current, saved⟩, opener⟩ := n
    cases saved with
    | nil => rfl
    | cons outer saved =>
        have plain : ¬ current.meets Context.nested = true :=
          Bool.eq_false_iff.1 outside
        unfold ContextStack.unwind ContextStack.unwindFrom
        rw [if_neg plain]
  unfold atEnd
  rw [stays]
  rfl

/-- The characters of marks are plain. -/
theorem plainText_of_markChars {text : List Char}
    (drawn : ∀ c ∈ text, c ∈ markChars) : PlainText text := by
  have all : ∀ c ∈ markChars, 0 < c.toNat ∧ c.toNat < 0x80 :=
    forall_mem_of_all (by decide)
  exact fun c hc => all c (drawn c hc)

namespace Scanner

/-- What carrying out a plan for the front of a plain text does. -/
theorem perform_plain {s : Scanner} {p : Plan} {read left : List Char}
    (plain : PlainText (read ++ left))
    (ahead : s.rest = written (read ++ left))
    (count : read.length = p.more + 1) (unread : p.skipsLine = false)
    (early : p.early = []) (late : ∀ f ∈ p.late, f.offset ≤ read.length)
    (inside : s.offset + (read ++ left).length ≤ s.file.size) :
    (s.perform p).rest = written left
      ∧ (s.perform p).offset = s.offset + read.length
      ∧ (s.perform p).findings
        = s.findings ++ p.late.map (Finding.shift s.offset) := by
  obtain ⟨front, behind⟩ := List.forall_mem_append.1 plain
  have length : (written read).length = p.more + 1 := by
    rw [length_written, count]
  rw [written_append] at ahead
  refine ⟨?_, ?_, ?_⟩
  · rw [rest_perform, Plan.leaves_of_not_skipsLine unread, ahead, ← length,
      List.drop_left]
  · rw [offset_perform, Plan.reads_of_not_skipsLine unread, ahead, ← length,
      List.take_left, totalWidth_written front]
  · have fine : (written left).take 1 = written (left.take 1) :=
      List.map_take.symm
    have width : totalWidth s.rest = (read ++ left).length := by
      rw [ahead, ← written_append, totalWidth_written plain]
    rw [List.length_append] at inside width
    rw [findings_perform p (by omega), added, early, ahead,
      faultsFrom_behind front count, fine,
      faultsFrom_written (fun c hc => behind c (List.mem_of_mem_take hc)),
      placed_eq_shift (by omega) late]
    rfl

-- =============================================================== one call

/-- A scanner outside all constructs with nothing but marks ahead. -/
structure AtMarks (text : List Char) (s : Scanner) : Prop where
  ahead : s.rest = written text
  drawn : ∀ c ∈ text, c ∈ markChars
  outside : s.nesting.isInside = false
  inside : s.offset + text.length ≤ s.file.size

/-- A call that takes a piece, with nothing but marks ahead behind it. -/
structure TakesPiece (s : Scanner) (piece : MarkPiece) (left : List Char) :
    Prop where
  lexeme : s.scan.1 = ⟨s.file.handle s.offset, piece.token, piece.text⟩
  kin : Kin s s.scan.2
  behind : AtMarks left s.scan.2
  offset : s.scan.2.offset = s.offset + piece.chars.length
  findings : s.scan.2.findings
    = s.findings ++ piece.findings.map (Finding.shift s.offset)

namespace AtMarks

variable {s : Scanner} {text rest : List Char} {c : Char}

theorem not_has (h : AtMarks text s) {f : Flag} (nested : f ∈ Context.nested) :
    ¬ s.nesting.has f = true :=
  Nesting.not_has_of_outside h.outside nested

/-- No call by a bare name is open there. -/
theorem settle (h : AtMarks text s) (src : List Glyph) :
    s.nesting.settle src = s.nesting :=
  Nesting.settle_eq (h.not_has (by decide))

theorem plan (h : AtMarks (c :: rest) s) :
    s.plan = inCode s.mode (s.nesting.atGlyph (.scalar c)) (.scalar c)
      (written rest) := by
  unfold Scanner.plan
  rw [h.ahead, written_cons]
  show Plan.atGlyph s.mode (s.nesting.settle _) _ _ = _
  rw [h.settle, atGlyph_of_code (h.not_has (by decide))
    (h.not_has (by decide))]

/-- A step that makes the token of a piece takes the piece. -/
theorem takes (h : AtMarks text s) {piece : MarkPiece} {left : List Char}
    (leads : piece.Leads text left) (made : s.plan.token = some piece.token)
    (shown : s.plan.text = piece.text)
    (count : piece.chars.length = s.plan.more + 1)
    (unread : s.plan.skipsLine = false) (early : s.plan.early = [])
    (late : s.plan.late = piece.findings)
    (outside : s.plan.nesting.isInside = false) : s.TakesPiece piece left := by
  obtain ⟨rfl, -⟩ := leads.front
  have within : ∀ f ∈ s.plan.late, f.offset ≤ piece.chars.length := by
    rw [late]
    cases piece with
    | mark token => exact nofun
    | stray => exact List.forall_mem_singleton.2 (Nat.zero_le _)
  obtain ⟨ahead, offset, findings⟩ := perform_plain
    (plainText_of_markChars h.drawn) h.ahead count unread early within h.inside
  have kin := s.kin_perform s.plan
  have call := scan_of_token made
  have inside := h.inside
  rw [List.length_append] at inside
  constructor
  · rw [call, shown]
    show (⟨(s.perform s.plan).file.handle s.offset, _, _⟩ : Lexeme) = _
    rw [kin.handle]
  · rw [call]
    exact ⟨kin.base, kin.size, kin.mode⟩
  · rw [call]
    refine ⟨ahead, (List.forall_mem_append.1 h.drawn).2, ?_, ?_⟩
    · exact (Nesting.isInside_afterToken _ _).trans outside
    · show (s.perform s.plan).offset + _ ≤ (s.perform s.plan).file.size
      rw [offset, kin.size]
      omega
  · rw [call]
    exact offset
  · rw [call, ← late]
    exact findings

/-- One call takes one piece. -/
theorem scan (h : AtMarks (c :: rest) s) :
    ∃ piece left, piece.Leads (c :: rest) left ∧ s.TakesPiece piece left := by
  have outside : (s.nesting.atGlyph (.scalar c)).isInside = false :=
    (Nesting.isInside_atGlyph _ _).trans h.outside
  have plan := h.plan
  rcases inCode_marks s.mode h.drawn outside with
    ⟨token, more, n', marked, around, size, left, longest⟩ | ⟨rfl, stray⟩
  · rw [marked] at plan
    refine ⟨.mark token, left, longest, h.takes longest ?_ ?_ ?_ ?_ ?_ ?_ ?_⟩
    case refine_3 => exact size.trans (congrArg (·.more + 1) plan.symm)
    case refine_7 =>
      rw [plan]
      rcases around with rfl | rfl
      · exact outside
      · exact (Nesting.isInside_afterRule _).trans outside
    all_goals
      rw [plan]
      rfl
  · rw [stray] at plan
    have leads : MarkPiece.stray.Leads ('>' :: rest) rest :=
      ⟨rfl, noMark_head rest⟩
    refine ⟨.stray, rest, leads, h.takes leads ?_ ?_ ?_ ?_ ?_ ?_ ?_⟩
    case refine_7 =>
      rw [plan]
      exact outside
    all_goals
      rw [plan]
      rfl

/-- With no mark ahead a call gives the end and reports nothing. -/
theorem scan_nil (h : AtMarks [] s) :
    s.scan.1 = ⟨s.file.handle s.offset, .endOfFile, ""⟩
      ∧ s.scan.2.findings = s.findings := by
  have plan : s.plan = { token := some .endOfFile, nesting := s.nesting } := by
    unfold Scanner.plan
    rw [h.ahead]
    show atEnd (s.nesting.settle []) = _
    rw [h.settle, atEnd_of_outside h.outside]
  have made : s.plan.token = some .endOfFile := by rw [plan]
  have kin := s.kin_perform s.plan
  have inside : s.offset + totalWidth s.rest ≤ s.file.size := by
    rw [h.ahead]
    exact h.inside
  rw [scan_of_token made]
  constructor
  · show (⟨(s.perform s.plan).file.handle s.offset, _, s.plan.text⟩ : Lexeme)
      = _
    rw [kin.handle, plan]
  · show (s.perform s.plan).findings = _
    rw [findings_perform s.plan inside, added, plan, h.ahead]
    exact List.append_nil _

-- ================================================================ the run

/-- A run takes one piece after the other. -/
theorem run (h : AtMarks text s) :
    ∃ pieces, MarkSplit text pieces
      ∧ s.lexemes = lexemesFrom s.file s.offset pieces
      ∧ s.behindRun.findings
        = s.findings ++ findingsFrom s.offset pieces := by
  induction s using run.induct generalizing text with
  | case1 s last =>
      cases text with
      | nil =>
          obtain ⟨lexeme, findings⟩ := h.scan_nil
          refine ⟨[], .nil, ?_, ?_⟩
          · rw [lexemes_of_end last, lexeme]
            rfl
          · rw [behindRun_of_end last, findings]
            exact (List.append_nil _).symm
      | cons c rest =>
          obtain ⟨piece, left, leads, takes⟩ := h.scan
          rw [takes.lexeme] at last
          exact absurd last leads.token_ne
  | case2 s more ih =>
      cases text with
      | nil =>
          obtain ⟨lexeme, -⟩ := h.scan_nil
          exact absurd (congrArg Lexeme.token lexeme) more
      | cons c rest =>
          obtain ⟨piece, left, leads, takes⟩ := h.scan
          obtain ⟨pieces, split, lexemes, findings⟩ := ih takes.behind
          refine ⟨piece :: pieces, .cons leads split, ?_, ?_⟩
          · rw [lexemes_of_more more, lexemes, takes.lexeme, takes.offset,
              lexemesFrom_congr takes.kin.handle]
            rfl
          · rw [behindRun_of_more more, findings, takes.findings,
              takes.offset, List.append_assoc]
            rfl

end AtMarks

/-- A source of these characters is given as its longest marks from the
front, one after the other; each head of an arrow that begins none is
illegal and reported, and nothing else is. -/
theorem marks_split (file : File) (mode : Mode) (text : List Char)
    (size : file.size = (Utf8.encode text).length)
    (drawn : ∀ c ∈ text, c ∈ markChars) :
    ∃ s pieces, Scanner.start file mode (Utf8.encode text) = .ok s
      ∧ MarkSplit text pieces
      ∧ (∀ other, MarkSplit text other → other = pieces)
      ∧ s.lexemes = lexemesFrom file 0 pieces
      ∧ s.behindRun.findings = findingsFrom 0 pieces := by
  have read : ofBytes (Utf8.encode text) = written text :=
    Utf8.ofBytes_encode text
  have started : Scanner.start file mode (Utf8.encode text)
      = .ok (ofGlyphs file mode (written text)) := by
    unfold Scanner.start
    rw [if_pos size, read]
  have plain := plainText_of_markChars drawn
  have width := totalWidth_ofBytes (Utf8.encode text)
  rw [read, totalWidth_written plain] at width
  have unmarked : (written text).head? ≠ some .byteOrderMark := by
    cases text with
    | nil => exact nofun
    | cons c text =>
        rintro mark
        obtain rfl := scalar.inj (Option.some.inj mark)
        exact absurd (drawn _ List.mem_cons_self) (by decide)
  obtain ⟨marked, -⟩ | ⟨-, moved⟩ := moved_ofGlyphs file mode (written text)
  · exact absurd marked unmarked
  have fine : (ofGlyphs file mode (written text)).findings = [] := by
    rw [findings_ofGlyphs (by rw [totalWidth_written plain]; omega),
      if_neg unmarked]
    exact (congrArg (faultsFrom 0) List.map_take.symm).trans
      (faultsFrom_written (fun c hc => plain c (List.mem_of_mem_take hc)) 0)
  have outside : (ofGlyphs file mode (written text)).nesting.isInside
      = false := by
    rw [moved.nesting]
    exact Context.meets_eq_false fun f held nested =>
      (Context.eq_empty_iff.1 (startContext_plain mode) f)
        (Context.mem_inter.2 ⟨held, nested⟩)
  have offset : (ofGlyphs file mode (written text)).offset = 0 :=
    moved.offset
  have ready : AtMarks text (ofGlyphs file mode (written text)) := by
    refine ⟨moved.rest, drawn, outside, ?_⟩
    rw [offset, moved.kin.size]
    show 0 + text.length ≤ file.size
    omega
  obtain ⟨pieces, split, lexemes, findings⟩ := ready.run
  refine ⟨_, pieces, started, split, fun other cut => cut.unique split, ?_, ?_⟩
  · rw [lexemes, offset]
    exact lexemesFrom_congr moved.kin.handle 0 pieces
  · rw [findings, fine, offset]
    rfl

/-- Behind an arrow its head is left alone, and of three colons the last
goes with the equals sign. -/
theorem marks_split_arrow_colons :
    ∃ s, Scanner.start (File.alone "" 7) {}
        (Utf8.encode ['-', '>', '>', ':', ':', ':', '=']) = .ok s
      ∧ s.lexemes.map (fun l => (l.token, l.text))
        = [(.punct .arrow, ""), (.illegal, ">"), (.rule .doubleColon, ""),
          (.assign .colon, ""), (.endOfFile, "")]
      ∧ s.behindRun.findings = [⟨2, .illegalCharacter '>'⟩] := by
  obtain ⟨s, pieces, started, -, only, lexemes, findings⟩ :=
    marks_split (File.alone "" 7) {} ['-', '>', '>', ':', ':', ':', '=']
      (by decide) (forall_mem_of_all (by decide))
  have arrow : (MarkPiece.mark (.punct .arrow)).Leads
      ['-', '>', '>', ':', ':', ':', '='] ['>', ':', ':', ':', '='] :=
    ⟨by decide, rfl, by decide +kernel⟩
  have head : MarkPiece.stray.Leads
      ['>', ':', ':', ':', '='] [':', ':', ':', '='] :=
    ⟨rfl, noMark_head _⟩
  have colons : (MarkPiece.mark (.rule .doubleColon)).Leads
      [':', ':', ':', '='] [':', '='] :=
    ⟨by decide, rfl, by decide +kernel⟩
  have assign : (MarkPiece.mark (.assign .colon)).Leads [':', '='] [] :=
    ⟨by decide, rfl, by decide +kernel⟩
  have split := MarkSplit.cons arrow (.cons head
    (.cons colons (.cons assign .nil)))
  obtain rfl := only _ split
  refine ⟨s, started, ?_, findings⟩
  rw [lexemes]
  rfl

end Scanner

end BuildLexer
