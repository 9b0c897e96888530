/-
Every plan at a glyph is faithful (`faithful_next`).

The rules come in the order of `Plan`. For a mark the proof compares its
spelling with the characters that selected it; this is where the
operators, the colons and the references have to agree with the table of
spellings. For text the length of what is read does not matter, so
nothing has to be known of how literals are measured: only their kinds
are looked at, because a few kinds of literal leave a quote, a tab or a
backslash out of their text.

Where something is skipped the mode decides, and with it the one fact
about contexts that is used here: hash signs are tokens at a place
exactly when the mode says so.
-/
import BuildLexer.Proofs.Literal.OneLine
import BuildLexer.Proofs.Nesting.Sound
import BuildLexer.Proofs.Tiling.Written

namespace BuildLexer

namespace Plan

variable {mode : Mode} {n : Nesting} {g : Glyph} {rest : List Glyph}

-- ================================================================ marks

/-- A mark is spelled by the characters that it is wide. -/
theorem spells_mark {token : Token} {more : Nat} {chars : List Char}
    (few : more ≤ 2) (whole : '\uFFFD' ∉ chars.take (more + 1))
    (written :
      String.ofList (chars.take (more + 1)) ∈ token.writings "")
    (n : Nesting) : (mark token more n).Spells chars :=
  ⟨⟨rfl, few⟩, whole, token, rfl, written⟩

/-- A mark of one character. -/
theorem spells_single {token : Token} {c : Char} (hc : c ≠ '\uFFFD')
    (h : token.writings "" = [String.singleton c]) (next : List Char)
    (n : Nesting) : (mark token 0 n).Spells (c :: next) := by
  refine spells_mark (Nat.zero_le 2) ?_ ?_ n
  · rw [List.take_succ_cons, List.take_zero, List.mem_singleton]
    exact Ne.symm hc
  · rw [h, List.take_succ_cons, List.take_zero,
      ← String.singleton_eq_ofList]
    exact List.mem_singleton.2 rfl

/-- An operator is found by its spelling. -/
theorem spells_operator {chars : List Char} {token : Token} {more : Nat}
    (h : operator? chars = some (token, more)) (n : Nesting) :
    (mark token more n).Spells chars := by
  unfold operator? at h
  split at h <;> cases h <;>
    exact spells_mark (by decide) (by simp) (List.mem_singleton.2 rfl) n

/-- The colons of rules are spelled as they stand, -/
theorem spells_ruleColon (next : List Char) :
    (ruleColon n next).Spells (':' :: next) := by
  unfold ruleColon
  split <;>
    exact spells_mark (by decide) (by simp) (List.mem_singleton.2 rfl) _

/-- and so are all others, -/
theorem spells_colon (next : List Char) :
    (colon n next).Spells (':' :: next) := by
  have plain (after : Nesting) :
      (mark (.rule .colon) 0 after).Spells (':' :: next) :=
    spells_single (by decide) rfl next after
  unfold colon
  split
  · split
    · exact plain _
    · exact plain _
  split
  · exact plain _
  · exact spells_ruleColon next

/-- and the brackets to the right. -/
theorem spells_rightBracket (next : List Char) :
    (rightBracket n next).Spells (']' :: next) := by
  unfold rightBracket
  split
  next h =>
    rw [Bool.and_eq_true, decide_eq_true_iff] at h
    obtain ⟨more, rfl⟩ := List.head?_eq_some_iff.1 h.1
    exact spells_mark (by decide) (by simp) (List.mem_singleton.2 rfl) _
  next => exact spells_single (by decide) rfl next n

-- =========================================================== references

/-- The symbol of a suffix is the glyph that it was told by. -/
theorem symbol_of_suffix? {g : Glyph} {suffix : Suffix}
    (h : suffix? g = some suffix) : g = .scalar suffix.symbol := by
  cases g with
  | scalar c =>
      have found := List.find?_some h
      rw [beq_iff_eq] at found
      rw [found]
  | broken b => cases h

/-- A sigil is written as it is, with its suffix behind it. -/
theorem faithful_reference (sigil : Sigil) :
    (reference sigil n rest).Faithful mode
      (.scalar sigil.symbol :: rest) := by
  unfold reference
  split
  next suffix h =>
    obtain ⟨g, hg, hs⟩ := Option.bind_eq_some_iff.1 h
    obtain ⟨rest, rfl⟩ := List.head?_eq_some_iff.1 hg
    rw [symbol_of_suffix? hs]
    show Glyph.lossyText [.scalar sigil.symbol, .scalar suffix.symbol]
      ∈ [(Token.reference sigil (some suffix)).spelling]
    exact List.mem_singleton.2 rfl
  next =>
    show Glyph.lossyText [.scalar sigil.symbol]
      ∈ [(Token.reference sigil none).spelling]
    exact List.mem_singleton.2 rfl

/-- In text a doubled sigil is written for the plain character. -/
theorem faithful_referenceInText (sigil : Sigil) :
    (referenceInText sigil n rest).Faithful mode
      (.scalar sigil.symbol :: rest) := by
  unfold referenceInText
  split
  next h =>
    obtain ⟨rest, rfl⟩ := List.head?_eq_some_iff.1 h
    cases sigil with
    | closure => exact List.mem_singleton.2 rfl
    | delegate => exact List.mem_singleton.2 rfl
  next => exact faithful_reference sigil

-- ================================================================= text

/-- Plain text is not the sign that stands for a doubled one. -/
theorem faithful_raw (hd : g ≠ .scalar '$') (ha : g ≠ .scalar '&')
    (more : Nat) :
    (spanning (.literal .raw) (g :: rest) more n).Faithful mode
      (g :: rest) := by
  have delegate : Glyph.lossyText ((g :: rest).take (more + 1)) ≠ "$" :=
    Glyph.lossyText_ne_singleton hd (by decide) _
  have closure : Glyph.lossyText ((g :: rest).take (more + 1)) ≠ "&" :=
    Glyph.lossyText_ne_singleton ha (by decide) _
  unfold Faithful
  show Glyph.lossyText
      ((spanning (.literal .raw) (g :: rest) more n).reads (g :: rest))
    ∈ [_]
  rw [reads_of_not_skipsLine rfl]
  refine List.mem_singleton.2 ?_
  exact (if_neg fun h => h.elim delegate closure).symm

/-- A mark before some text that it is no part of. -/
theorem faithful_behind {token : Token} {c : Char} {more : Nat}
    (h : ∀ text : String,
      token.writings text = [String.singleton c ++ text]) :
    Faithful mode (.scalar c :: rest)
      { token := some token
        text := Glyph.lossyText (rest.take more)
        more := more
        nesting := n } := by
  unfold Faithful
  show Glyph.lossyText (Plan.reads _ (.scalar c :: rest))
    ∈ token.writings (Glyph.lossyText (rest.take more))
  rw [reads_of_not_skipsLine rfl, h, List.take_succ_cons,
    Glyph.lossyText_scalar_cons]
  exact List.mem_singleton.2 rfl

/-- The plan for a recipe is faithful. -/
theorem faithful_inRecipe :
    (inRecipe n g rest).Faithful mode (g :: rest) := by
  unfold inRecipe
  split
  next h =>
    rw [h]
    exact List.mem_singleton.2 rfl
  split
  next h =>
    rw [h]
    unfold recipeEscape
    split
    next => exact List.mem_singleton.2 rfl
    next g rest =>
      have escape : Faithful mode (.scalar '\\' :: g :: rest)
          { token := some (.literal .escape)
            text := Glyph.lossyText ((g :: rest).take 1)
            more := 1
            nesting := n } := faithful_behind fun _ => rfl
      exact escape
  split
  next h =>
    rw [h]
    exact faithful_referenceInText .delegate
  split
  next h =>
    rw [h]
    exact faithful_referenceInText .closure
  next hd ha => exact faithful_raw hd ha _

-- ============================================================== strings

/-- An escape by a number joins no lines. -/
theorem ofNumber_ne_lineJoin (length greatest value : Nat) :
    Escape.ofNumber length greatest value ≠ .lineJoin := by
  unfold Escape.ofNumber
  split
  · exact nofun
  · exact nofun

/-- Nor does one of hexadecimal digits, however many there are. -/
theorem hexadecimal_ne_lineJoin (count greatest : Nat)
    (src : List Glyph) :
    Escape.hexadecimal count greatest src ≠ .lineJoin := by
  unfold Escape.hexadecimal
  dsimp only
  split
  · exact nofun
  · exact ofNumber_ne_lineJoin _ _ _

/-- Lines are joined at a line end only. -/
theorem head?_of_lineJoin {src : List Glyph}
    (h : Escape.read src = .lineJoin) : src.head? = some .newline := by
  unfold Escape.read at h
  split at h
  next => cases h
  next g rest =>
    split at h
    next => cases h
    split at h
    next hg => exact congrArg some hg
    split at h
    next => exact absurd h (hexadecimal_ne_lineJoin _ _ _)
    split at h
    next => exact absurd h (hexadecimal_ne_lineJoin _ _ _)
    split at h
    next => exact absurd h (hexadecimal_ne_lineJoin _ _ _)
    split at h
    next => cases h
    next => exact absurd h (ofNumber_ne_lineJoin _ _ _)

/-- An escape in a string gives its own text, or skips a line join. -/
theorem faithful_stringEscape :
    (stringEscape n rest).Faithful mode (.scalar '\\' :: rest) := by
  unfold stringEscape
  split
  next => exact faithful_behind fun _ => rfl
  next h =>
    obtain ⟨left, rfl⟩ := List.head?_eq_some_iff.1 (head?_of_lineJoin h)
    exact Skipped.join
  next length finding h =>
    have spanned : (spanning .illegal (.scalar '\\' :: rest) length
        n).Faithful mode (.scalar '\\' :: rest) :=
      faithful_spanning (fun _ => rfl) length n
    exact spanned

/-- The plan for a string is faithful. -/
theorem faithful_inString :
    (inString n g rest).Faithful mode (g :: rest) := by
  unfold inString
  dsimp only
  split
  next h =>
    rw [h]
    split
    next => exact List.mem_cons_self
    split
    next hq =>
      have front : rest.take 2 = [.scalar '"', .scalar '"'] :=
        beq_iff_eq.1 hq
      show Glyph.lossyText (.scalar '"' :: rest.take 2 ++ [])
        ∈ ["\"", "\"\"\""]
      rw [front]
      exact List.mem_cons_of_mem _ List.mem_cons_self
    next => exact faithful_raw (by decide) (by decide) _
  split
  next h =>
    rw [Bool.and_eq_true, decide_eq_true_iff] at h
    rw [h.1]
    exact List.mem_singleton.2 rfl
  split
  next h =>
    rw [h]
    exact faithful_stringEscape
  split
  next h =>
    rw [h]
    exact faithful_referenceInText .delegate
  split
  next h =>
    rw [h]
    exact faithful_referenceInText .closure
  next hd ha => exact faithful_raw hd ha _

-- ================================================================= code

/-- A word is written as itself, reserved or not. -/
theorem writings_ofWord (text : String) :
    text ∈ (Token.ofWord text).writings text := by
  unfold Token.ofWord
  cases found : Token.words.find? (·.spelling == text) with
  | none => exact List.mem_singleton.2 rfl
  | some word =>
      have spelled := List.find?_some found
      rw [beq_iff_eq] at spelled
      rw [Option.getD_some, ← spelled]
      rcases List.mem_append.1 (List.mem_of_find?_eq_some found) with h | h
      · obtain ⟨k, -, rfl⟩ := List.mem_map.1 h
        exact List.mem_singleton.2 rfl
      · obtain ⟨k, -, rfl⟩ := List.mem_map.1 h
        exact List.mem_singleton.2 rfl

/-- A name gives the glyphs of its run. -/
theorem faithful_name (src : List Glyph) :
    (name n src).Faithful mode src := by
  show Glyph.lossyText ((name n src).reads src) ∈ _
  rw [reads_of_not_skipsLine rfl]
  exact writings_ofWord _

/-- Numbers are whole literals, -/
theorem whole_of_isNumber {kind : Literal} (h : kind.isNumber = true) :
    kind.Whole := by
  intro text
  cases kind <;> first | rfl | cases h

/-- and so are times and dates. -/
theorem whole_of_isTemporal {kind : Literal}
    (h : kind.isTemporal = true) : kind.Whole := by
  intro text
  cases kind <;> first | rfl | cases h

/-- A number gives the glyphs that are read for it, -/
theorem faithful_number (start : Nat) (src : List Glyph) :
    (number n start src).Faithful mode src := by
  let read := Number.read start (src.drop start)
  have proper := Number.proper_read start (src.drop start)
  have spanned : (spanning (.literal read.kind) src (read.length - 1)
      n).Faithful mode src :=
    faithful_spanning (whole_of_isNumber proper.kind) _ n
  exact spanned

/-- and so does whatever starts with a digit. -/
theorem faithful_digits (src : List Glyph) :
    (digits n src).Faithful mode src := by
  unfold digits
  split
  next temporal h =>
    have spanned : (spanning (.literal temporal.kind) src
        (temporal.length - 1) n).Faithful mode src :=
      faithful_spanning
        (whole_of_isTemporal (Temporal.proper_read? h).kind) _ n
    exact spanned
  next => exact faithful_number 0 src

/-- Quotes are spelled as they stand. -/
theorem faithful_openString (src : List Glyph) :
    (openString n src).Faithful mode src := by
  unfold openString
  split
  · exact faithful_spanning (fun _ => rfl) _ _
  · exact faithful_spanning (fun _ => rfl) _ _

/-- The end of a line has no text. -/
theorem faithful_lineEnd :
    (lineEnd n).Faithful mode (.newline :: rest) := by
  unfold lineEnd
  split
  · exact List.mem_singleton.2 rfl
  · exact List.mem_singleton.2 rfl

/-- The rest of the line behind a hash sign. -/
theorem reads_comment {p : Plan} (skips : p.skipsLine = true)
    (more : p.more = 0) (rest : List Glyph) :
    p.reads (.scalar '#' :: rest)
        = .scalar '#' :: rest.takeWhile (· != .newline)
      ∧ p.leaves (.scalar '#' :: rest)
        = rest.dropWhile (· != .newline) := by
  unfold reads leaves
  rw [more]
  dsimp only
  rw [if_pos skips, if_pos skips]
  exact ⟨rfl, rfl⟩

/-- A comment is a token or skipped, and only skipped in a mode that
wants neither comments nor hash signs. -/
theorem faithful_hash (hm : n.has .commentsOff = mode.hashTokens) :
    (Plan.hash mode n (.scalar '#' :: rest)).Faithful mode
      (.scalar '#' :: rest) := by
  unfold Plan.hash
  split
  next => exact List.mem_singleton.2 rfl
  next off =>
    split
    next =>
      unfold Faithful
      show Glyph.lossyText (Plan.reads _ (.scalar '#' :: rest)) ∈ [_]
      rw [(reads_comment rfl rfl rest).1]
      exact List.mem_singleton.2 rfl
    next silent =>
      have plain : mode = {} := by
        rw [hm, Bool.not_eq_true] at off
        rw [Bool.not_eq_true] at silent
        cases mode with
        | mk hashTokens commentTokens =>
            obtain rfl : hashTokens = false := off
            obtain rfl : commentTokens = false := silent
            rfl
      unfold Faithful
      show Skipped mode (Plan.reads _ (.scalar '#' :: rest))
        (Plan.leaves _ (.scalar '#' :: rest))
      obtain ⟨hr, hl⟩ :=
        reads_comment (p := { skip 0 n with skipsLine := true }) rfl rfl rest
      rw [hr, hl]
      refine Skipped.comment plain ?_ ?_
      · exact not_mem_takeWhile (by simp) rest
      · intro g hg
        rw [← hl] at hg
        exact newline_of_skipsLine rfl hg

/-- A backslash gives its escape or skips a line join. -/
theorem faithful_backslash :
    (backslash n rest).Faithful mode (.scalar '\\' :: rest) := by
  unfold backslash
  split
  next h =>
    obtain ⟨left, rfl⟩ := List.head?_eq_some_iff.1 h
    exact Skipped.join
  next => exact List.mem_singleton.2 rfl

/-- The plan for an operator is faithful. -/
theorem faithful_operator :
    (operator n g rest).Faithful mode (g :: rest) := by
  unfold operator
  split
  next token more h =>
    have spelled := spells_operator h n
    exact spelled.faithful
  next =>
    unfold Faithful
    show Glyph.lossyText (Plan.reads _ (g :: rest)) ∈ [_]
    rw [reads_of_not_skipsLine rfl]
    exact List.mem_singleton.2 rfl

-- ================================================================ steps

/-- The marks of one character are faithful. -/
theorem faithful_single {token : Token} {c : Char} (h : g.char = c)
    (hc : c ≠ '\uFFFD')
    (hw : token.writings "" = [String.singleton c]) (n : Nesting) :
    (mark token 0 n).Faithful mode (g :: rest) := by
  refine Spells.faithful ?_
  rw [h]
  exact spells_single hc hw _ n

/-- A step at a glyph that is neither letter nor digit. -/
theorem faithful_special (hm : n.has .commentsOff = mode.hashTokens) :
    (special mode n g rest).Faithful mode (g :: rest) := by
  have blank {src : List Glyph} :
      (blanks n src).Faithful mode src :=
    faithful_spanning (fun _ => rfl) _ n
  have string : (spanning (.literal .string) (g :: rest)
      (RawString.read rest).length n).Faithful mode (g :: rest) :=
    faithful_spanning (fun _ => rfl) _ n
  unfold special
  dsimp only
  split
  next h =>
    obtain rfl := Glyph.eq_scalar_of_char h (by decide)
    split
    · exact faithful_behind fun _ => rfl
    · exact blank
  next => exact blank
  next => exact blank
  next h =>
    obtain rfl := Glyph.eq_scalar_of_char h (by decide)
    exact faithful_lineEnd
  next h =>
    obtain rfl := Glyph.eq_scalar_of_char h (by decide)
    exact faithful_hash hm
  next h =>
    obtain rfl := Glyph.eq_scalar_of_char h (by decide)
    exact faithful_backslash
  next => exact string
  next => exact faithful_openString _
  next h =>
    obtain rfl := Glyph.eq_scalar_of_char h (by decide)
    exact faithful_reference .delegate
  next h =>
    obtain rfl := Glyph.eq_scalar_of_char h (by decide)
    exact faithful_reference .closure
  next h =>
    refine Spells.faithful ?_
    rw [h]
    exact spells_colon _
  next h =>
    refine Spells.faithful ?_
    rw [h]
    exact spells_rightBracket _
  next h => exact faithful_single h (by decide) rfl _
  next h => exact faithful_single h (by decide) rfl _
  next h => exact faithful_single h (by decide) rfl _
  next h => exact faithful_single h (by decide) rfl _
  next h =>
    split
    · exact faithful_number 1 _
    · exact faithful_operator
  next => exact faithful_operator

/-- How hash signs are taken is inherited from the outside. -/
theorem has_commentsOff {inherited : Context} {kinds : List Flag}
    (hl : Layers inherited kinds n.stack)
    (hm : .commentsOff ∈ inherited ↔ mode.hashTokens = true) :
    n.has .commentsOff = mode.hashTokens := by
  have inherits : Flag.commentsOff ∈ n.stack.current
      ↔ .commentsOff ∈ inherited := by
    rw [← hl.inherits_current, Context.mem_inter]
    exact ⟨fun h => ⟨h, by decide⟩, fun h => h.1⟩
  rw [Bool.eq_iff_iff, ← hm, ← inherits]
  exact decide_eq_true_iff

/-- Every plan at a glyph is faithful. -/
theorem faithful_next {inherited : Context} {kinds : List Flag}
    (hl : Layers inherited kinds n.stack)
    (hm : .commentsOff ∈ inherited ↔ mode.hashTokens = true)
    (g : Glyph) (rest : List Glyph) :
    (next mode n (g :: rest)).Faithful mode (g :: rest) := by
  have settled : ∃ kinds, Layers inherited kinds
      (n.settle (g :: rest)).stack := by
    unfold Nesting.settle
    split
    · exact ⟨_, Nesting.layers_leave hl _ (by decide)⟩
    · exact ⟨_, hl⟩
  obtain ⟨kinds, hl⟩ := settled
  show (Plan.atGlyph mode (n.settle (g :: rest)) g rest).Faithful mode _
  unfold Plan.atGlyph
  split
  · exact faithful_inRecipe
  split
  · exact faithful_inString
  have code : Layers inherited kinds
      ((n.settle (g :: rest)).atGlyph g).stack := by
    unfold Nesting.atGlyph
    split
    · exact Nesting.layers_remove hl (Or.inr rfl)
    · exact hl
  unfold inCode
  split
  · exact faithful_name _
  split
  · exact faithful_digits _
  · exact faithful_special (has_commentsOff code hm)

end Plan

namespace Scanner

/-- Each step of a sound scanner with source left is faithful. -/
theorem Sound.faithful {s : Scanner} (h : s.Sound)
    (more : s.rest ≠ []) : s.plan.Faithful s.mode s.rest := by
  obtain ⟨inherited, hn, hm⟩ := h
  obtain ⟨kinds, hl⟩ := hn.layers
  cases hr : s.rest with
  | nil => exact absurd hr more
  | cons g rest =>
      unfold plan
      rw [hr]
      exact Plan.faithful_next hl hm g rest

/-- A step at a glyph that makes a token reads what it is written as. -/
theorem Sound.written {s : Scanner} (h : s.Sound) (more : s.rest ≠ [])
    {token : Token} (hp : s.plan.token = some token) :
    Glyph.lossyText (s.plan.reads s.rest)
      ∈ token.writings s.plan.text := by
  have faithful := h.faithful more
  unfold Plan.Faithful at faithful
  rw [hp] at faithful
  exact faithful

/-- A step that makes none reads something to skip. -/
theorem Sound.skipped {s : Scanner} (h : s.Sound)
    (hp : s.plan.token = none) :
    Skipped s.mode (s.plan.reads s.rest) (s.plan.leaves s.rest) := by
  have more : s.rest ≠ [] := by
    intro hn
    rw [token_plan_nil s hn] at hp
    cases hp
  have faithful := h.faithful more
  unfold Plan.Faithful at faithful
  rw [hp] at faithful
  exact faithful

end Scanner

end BuildLexer
