/-
The tokens of a source, laid end to end, are the source.

For a source of well-formed text the run of a scanner cuts what is
behind a leading byte order mark into spans, one for each token, and the
gaps between them (`Tiles`). Every span is there, is what its token is
written as, and begins and ends at the offsets that the scanner tells; a
gap holds joined lines and comments and nothing else (`Gap`). So no byte
is lost or read twice, and the source can be put together again from the
tokens, up to the text of the gaps.

The proof goes by the step, the call and the run. A step reads what its
plan says, and its plan is faithful; a call of `scan` is some steps that
skip, which are its gap, and one that makes a token, which is its span
(`Sound.reads`); and a run is one call after the other.
-/
import BuildLexer.Proofs.Tiling.Rules

namespace BuildLexer

-- ======================================================= well-formed text

/-- The bytes of some text. -/
def Utf8.encode (text : List Char) : List UInt8 :=
  text.flatMap String.utf8EncodeChar

/-- How many bytes some text takes. -/
def Utf8.width (text : List Char) : Nat := (Utf8.encode text).length

namespace Utf8

@[simp] theorem width_nil : width [] = 0 := rfl

@[simp] theorem width_append (a b : List Char) :
    width (a ++ b) = width a + width b := by
  unfold width encode
  rw [List.flatMap_append, List.length_append]

theorem totalWidth_map_scalar (text : List Char) :
    Glyph.totalWidth (text.map .scalar) = width text := by
  induction text with
  | nil => rfl
  | cons c text ih =>
      unfold width encode at ih ⊢
      rw [List.map_cons, Glyph.totalWidth_cons, ih, List.flatMap_cons,
        List.length_append, String.length_utf8EncodeChar]
      rfl

/-- Well-formed text is read character by character. -/
theorem ofBytes_encode (text : List Char) :
    Glyph.ofBytes (encode text) = text.map .scalar := by
  induction text with
  | nil => simp [encode, Glyph.ofBytes]
  | cons c text ih =>
      have bytes : encode (c :: text)
          = String.utf8EncodeChar c ++ encode text := rfl
      rw [bytes, Glyph.ofBytes_encode_append, ih, List.map_cons]

end Utf8

-- ========================================================= gaps and tiles

/-- Text between two tokens, and what is left behind it: line ends
behind backslashes and, in a mode where neither hash signs nor comments
are tokens, comments up to a line end or the end of the source. -/
inductive Gap (mode : Mode) : List Char → List Char → Prop
  | none {left : List Char} : Gap mode [] left
  | join {gap left : List Char} (more : Gap mode gap left) :
      Gap mode ('\\' :: '\n' :: gap) left
  | comment {body gap left : List Char} (plain : mode = {})
      (inLine : '\n' ∉ body)
      (stop : ∀ c : Char, (gap ++ left).head? = some c → c = '\n')
      (more : Gap mode gap left) : Gap mode ('#' :: body ++ gap) left

/-- Text from an offset on in the file at a base, cut by a run into gaps
and spans. Each token comes with the scanner behind it. -/
inductive Tiles (base : Nat) (mode : Mode) :
    Nat → List Char → List (Lexeme × Scanner) → Prop
  /-- The end of the source, behind the last gap. -/
  | done {offset : Nat} {gap : List Char} {lexeme : Lexeme}
      {behind : Scanner} (skipped : Gap mode gap [])
      (token : lexeme.token = .endOfFile)
      (start : lexeme.handle.index = base + (offset + Utf8.width gap))
      (stop : behind.offset = offset + Utf8.width gap) :
      Tiles base mode offset gap [(lexeme, behind)]
  /-- A gap, the span of a token, and what follows. -/
  | token {offset : Nat} {gap span left : List Char} {lexeme : Lexeme}
      {behind : Scanner} {pieces : List (Lexeme × Scanner)}
      (skipped : Gap mode gap (span ++ left)) (nonempty : span ≠ [])
      (written :
        String.ofList span ∈ lexeme.token.writings lexeme.text)
      (start : lexeme.handle.index = base + (offset + Utf8.width gap))
      (stop : behind.offset
        = offset + Utf8.width gap + Utf8.width span)
      (more : Tiles base mode behind.offset left pieces) :
      Tiles base mode offset (gap ++ span ++ left)
        ((lexeme, behind) :: pieces)

-- ============================================================== one step

/-- What is skipped goes in front of a gap. -/
theorem Skipped.gap {mode : Mode} {read gap left : List Char}
    (h : Skipped mode (read.map .scalar) ((gap ++ left).map .scalar))
    (more : Gap mode gap left) : Gap mode (read ++ gap) left := by
  generalize hr : read.map Glyph.scalar = glyphs at h
  generalize hl : (gap ++ left).map Glyph.scalar = behind at h
  cases h with
  | join =>
      obtain ⟨c, more', rfl, hc, hd⟩ := List.map_eq_cons_iff.1 hr
      obtain ⟨d, none, rfl, hd, hn⟩ := List.map_eq_cons_iff.1 hd
      cases hc
      cases hd
      rw [List.map_eq_nil_iff.1 hn]
      exact Gap.join more
  | comment plain inLine stop =>
      obtain ⟨c, body, rfl, hc, rfl⟩ := List.map_eq_cons_iff.1 hr
      cases hc
      refine Gap.comment plain ?_ ?_ more
      · intro hn
        exact inLine (List.mem_map_of_mem hn)
      · intro c hc
        have ahead : behind.head? = some (.scalar c) := by
          rw [← hl, List.head?_map, hc]
          rfl
        exact Glyph.scalar.inj (stop _ ahead)

namespace Scanner

/-- A step at well-formed text reads some of it. -/
theorem perform_text {s : Scanner} {text : List Char}
    (h : s.rest = text.map .scalar) :
    ∃ read left, text = read ++ left
      ∧ s.plan.reads s.rest = read.map .scalar
      ∧ (s.perform s.plan).rest = left.map .scalar
      ∧ (s.perform s.plan).offset = s.offset + Utf8.width read := by
  have split := s.plan.reads_append_leaves s.rest
  have cut := h.symm.trans split.symm
  obtain ⟨read, left, ht, hr, hl⟩ := List.map_eq_append_iff.1 cut
  refine ⟨read, left, ht, hr.symm, ?_, ?_⟩
  · rw [rest_perform, hl]
  · rw [offset_perform, ← hr, Utf8.totalWidth_map_scalar]

-- ============================================================== one call

/-- What a call of `scan` reads: a gap and the span of its token, which
is empty at the end of the source. -/
structure Reads (s : Scanner) (gap span left : List Char) : Prop where
  skipped : Gap s.mode gap (span ++ left)
  kin : Kin s s.scan.2
  start : s.scan.1.handle = s.file.handle (s.offset + Utf8.width gap)
  stop : s.scan.2.offset
    = s.offset + Utf8.width gap + Utf8.width span
  rest : s.scan.2.rest = left.map .scalar
  token : s.scan.1.token = .endOfFile ∧ span = [] ∧ left = []
    ∨ span ≠ []
      ∧ String.ofList span ∈ s.scan.1.token.writings s.scan.1.text

/-- The step that makes the token reads its span. -/
theorem Sound.reads_of_token {s : Scanner} (h : s.Sound) {token : Token}
    (hp : s.plan.token = some token) {text : List Char}
    (ht : s.rest = text.map .scalar) :
    ∃ span left, text = span ++ left ∧ s.Reads [] span left := by
  have call := scan_of_token hp
  have kin := s.kin_perform s.plan
  obtain ⟨span, left, hcut, hread, hleft, hstop⟩ := perform_text ht
  refine ⟨span, left, hcut, ⟨.none, ?_, ?_, ?_, ?_, ?_⟩⟩
  · rw [call]
    exact ⟨kin.base, kin.size, kin.mode⟩
  · rw [call]
    exact kin.handle s.offset
  · rw [call]
    exact hstop
  · rw [call]
    exact hleft
  rw [call]
  cases text with
  | nil =>
      rw [token_plan_nil s ht] at hp
      obtain ⟨rfl, rfl⟩ := List.append_eq_nil_iff.1 hcut.symm
      exact Or.inl ⟨(Option.some.inj hp).symm, rfl, rfl⟩
  | cons c text =>
      have ahead : s.rest ≠ [] := by
        rw [ht]
        exact List.cons_ne_nil _ _
      have written := h.written ahead hp
      rw [hread, Glyph.lossyText_map_scalar] at written
      refine Or.inr ⟨?_, written⟩
      intro he
      subst he
      rw [ht] at hread
      exact s.plan.reads_ne_nil _ _ hread

/-- A step that makes none goes in front of the gap. -/
theorem Sound.reads_of_skip {s : Scanner} (h : s.Sound)
    (hp : s.plan.token = none) {read gap span left : List Char}
    (hread : s.plan.reads s.rest = read.map .scalar)
    (hleft : (s.perform s.plan).rest
      = (gap ++ span ++ left).map .scalar)
    (hstop : (s.perform s.plan).offset = s.offset + Utf8.width read)
    (later : (s.perform s.plan).Reads gap span left) :
    s.Reads (read ++ gap) span left := by
  have call := scan_of_skip hp
  have kin := s.kin_perform s.plan
  have read := h.skipped hp
  rw [hread, ← rest_perform, hleft, List.append_assoc] at read
  have skipped := later.skipped
  rw [kin.mode] at skipped
  refine ⟨read.gap skipped, ?_, ?_, ?_, ?_, ?_⟩
  · rw [call]
    exact kin.trans later.kin
  · rw [call, later.start, hstop, kin.handle, Utf8.width_append,
      Nat.add_assoc]
  · rw [call, later.stop, hstop, Utf8.width_append, Nat.add_assoc,
      Nat.add_assoc, Nat.add_assoc, Nat.add_assoc]
  · rw [call]
    exact later.rest
  · rw [call]
    exact later.token

/-- So a call reads a gap and a span. -/
theorem Sound.reads {s : Scanner} (h : s.Sound) {text : List Char}
    (ht : s.rest = text.map .scalar) :
    ∃ gap span left, text = gap ++ span ++ left
      ∧ s.Reads gap span left := by
  induction s using scan.induct generalizing text with
  | case1 s token hp =>
      obtain ⟨span, left, hcut, call⟩ := h.reads_of_token hp ht
      exact ⟨[], span, left, hcut, call⟩
  | case2 s hp ih =>
      obtain ⟨read, left, hcut, hread, hleft, hstop⟩ := perform_text ht
      obtain ⟨gap, span, behind, rfl, later⟩ := ih h.perform hleft
      refine ⟨read ++ gap, span, behind, ?_, ?_⟩
      · rw [hcut, List.append_assoc, List.append_assoc, List.append_assoc]
      · exact h.reads_of_skip hp hread hleft hstop later

-- ============================================================= the run

/-- The number of a handle inside the file. -/
theorem index_handle {file : File} {offset : Nat}
    (h : offset ≤ file.size) :
    (file.handle offset).index = file.base + offset := by
  unfold File.handle
  rw [Nat.min_eq_left h]

/-- A run over well-formed text tiles it. -/
theorem Sound.tiles {s : Scanner} (h : s.Sound) {text : List Char}
    (ht : s.rest = text.map .scalar)
    (inside : s.offset + Utf8.width text ≤ s.file.size) :
    Tiles s.file.base s.mode s.offset text s.run := by
  induction s using run.induct generalizing text with
  | case1 s last =>
      obtain ⟨gap, span, left, rfl, call⟩ := h.reads ht
      rcases call.token with ⟨-, rfl, rfl⟩ | ⟨-, written⟩
      · rw [List.append_nil, List.append_nil] at inside ⊢
        have start := call.start
        have stop := call.stop
        rw [Utf8.width_nil, Nat.add_zero] at stop
        rw [run, if_pos last]
        refine Tiles.done call.skipped last ?_ stop
        rw [start, index_handle inside]
      · rw [last] at written
        cases written
  | case2 s more ih =>
      obtain ⟨gap, span, left, rfl, call⟩ := h.reads ht
      rcases call.token with ⟨last, -⟩ | ⟨nonempty, written⟩
      · exact absurd last more
      rw [Utf8.width_append, Utf8.width_append] at inside
      have behind : s.scan.2.offset + Utf8.width left
          ≤ s.scan.2.file.size := by
        rw [call.stop, call.kin.size]
        omega
      have later := ih h.scan call.rest behind
      rw [call.kin.base, call.kin.mode] at later
      rw [run, if_neg more]
      refine Tiles.token call.skipped nonempty written ?_ call.stop later
      rw [call.start, index_handle]
      omega

-- ==================================================== a source of its own

/-- How many characters at the start of a text are a byte order mark. -/
def markLength (text : List Char) : Nat :=
  if text.head? = some '\uFEFF' then 1 else 0

theorem byteOrderMark_iff (text : List Char) :
    (text.map Glyph.scalar).head? = some .byteOrderMark
      ↔ text.head? = some '\uFEFF' := by
  cases text with
  | nil => exact iff_of_false nofun nofun
  | cons c text =>
      rw [List.map_cons, List.head?_cons, List.head?_cons,
        Option.some.injEq, Option.some.injEq]
      exact ⟨fun h => Glyph.scalar.inj h, congrArg Glyph.scalar⟩

/-- A scanner starts behind the mark. -/
theorem moved_markLength (file : File) (mode : Mode) (text : List Char) :
    let n : Nesting := { stack := { current := startContext mode } }
    let src := text.map Glyph.scalar
    Moved { file, mode, rest := src, offset := 0, nesting := n }
      (ofGlyphs file mode src)
      ((text.take (markLength text)).map .scalar)
      ((text.drop (markLength text)).map .scalar) := by
  intro n src
  have mark := byteOrderMark_iff text
  unfold markLength
  rcases moved_ofGlyphs file mode src with ⟨hm, moved⟩ | ⟨hm, moved⟩
  · rw [if_pos (mark.1 hm), List.map_take, List.map_drop]
    exact moved
  · rw [if_neg fun h => hm (mark.2 h)]
    exact moved

/-- The run over a source of well-formed text tiles what is behind a
leading byte order mark. -/
theorem tiles_run (file : File) (mode : Mode) (text : List Char)
    (size : file.size = (Utf8.encode text).length) :
    ∃ s, Scanner.start file mode (Utf8.encode text) = .ok s
      ∧ Tiles file.base mode (Utf8.width (text.take (markLength text)))
          (text.drop (markLength text)) s.run := by
  have started : Scanner.start file mode (Utf8.encode text)
      = .ok (ofGlyphs file mode (text.map .scalar)) := by
    unfold Scanner.start
    rw [if_pos size, Utf8.ofBytes_encode]
  refine ⟨_, started, ?_⟩
  have sound := sound_ofGlyphs file mode (text.map .scalar)
  have moved := moved_markLength file mode text
  have behind : (ofGlyphs file mode (text.map .scalar)).offset
      = Utf8.width (text.take (markLength text)) := by
    rw [moved.offset, Utf8.totalWidth_map_scalar, Nat.zero_add]
  have inside : (ofGlyphs file mode (text.map .scalar)).offset
      + Utf8.width (text.drop (markLength text))
        ≤ (ofGlyphs file mode (text.map .scalar)).file.size := by
    rw [behind, ← Utf8.width_append, List.take_append_drop,
      moved.kin.size, size]
    exact Nat.le_refl _
  have tiles := sound.tiles moved.rest inside
  rw [behind, moved.kin.base, moved.kin.mode] at tiles
  exact tiles

/-- A byte order mark, a joined line and a comment, none of which is in
a span. -/
theorem tiles_run_mark_join_comment :
    ∃ s, Scanner.start (File.alone "" 9) {}
        (Utf8.encode ['\uFEFF', 'é', '\\', '\n', '#', 'b']) = .ok s
      ∧ Tiles 1 {} 3 ['é', '\\', '\n', '#', 'b'] s.run :=
  tiles_run (File.alone "" 9) {} ['\uFEFF', 'é', '\\', '\n', '#', 'b'] rfl

end Scanner

end BuildLexer
