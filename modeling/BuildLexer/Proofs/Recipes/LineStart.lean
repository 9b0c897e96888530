/-
Where a recipe may start.

A tab opens a recipe at the start of a line only, and outside all
constructs. What is known of the line is kept with each context, and
taken back in the active one when a token has been read. A call saves
the context around it before that, so a sigil at the start of a line
leaves behind what was known there, and when no name follows, the tab
behind the sigil finds it again. That is the one way for a tab to open a
recipe in the middle of a line: between the start of the line and the
tab there is nothing but sigils (`recipe_after_sigils`).

The invariant looks at the place as it is once a call by a bare name is
over (`stackAtLineEnd`): if it is outside all constructs and the line is
said to have just begun, then it has, but for sigils, or a line end is
next (`OnLine`). The second happens behind a comment that is skipped. A
step that makes a token takes back what is known of the line, and only a
sigil leads into a call by a bare name (`Turn.named`), so a case for the
sigil and one for the line end are all there is to see.
-/
import BuildLexer.Proofs.Nesting.Invariant
import BuildLexer.Proofs.Nesting.Turns
import BuildLexer.Proofs.Progress.Call
import BuildLexer.Proofs.Scanner.Passage

namespace BuildLexer

open Plan Glyph

-- ========================================================== line starts

/-- Bytes behind which a line starts: none, a byte order mark, or bytes
that end with a newline. -/
def StartsLine (before : List UInt8) : Prop :=
  before = [] ∨ before = [0xEF, 0xBB, 0xBF] ∨ before.getLast? = some 10

/-- Glyphs behind which a line has just begun, but for sigils. -/
inductive FreshLine : List Glyph → Prop
  | source : FreshLine []
  | mark : FreshLine [byteOrderMark]
  | lineEnd (before : List Glyph) : FreshLine (before ++ [newline])
  | sigil {passed : List Glyph} (s : Sigil) :
      FreshLine passed → FreshLine (passed ++ [.scalar s.symbol])

theorem symbol_ne_newline (s : Sigil) :
    Glyph.scalar s.symbol ≠ newline := by
  cases s <;> decide

theorem bytes_symbol (s : Sigil) :
    Glyph.bytes (.scalar s.symbol) = [36]
      ∨ Glyph.bytes (.scalar s.symbol) = [38] := by
  cases s with
  | closure => exact Or.inr rfl
  | delegate => exact Or.inl rfl

/-- The bytes of such glyphs are the start of a line and sigils. -/
theorem FreshLine.bytes {passed : List Glyph} (h : FreshLine passed) :
    ∃ before sigils, allBytes passed = before ++ sigils
      ∧ StartsLine before ∧ ∀ b ∈ sigils, b = 36 ∨ b = 38 := by
  induction h with
  | source => exact ⟨[], [], rfl, Or.inl rfl, by simp⟩
  | mark => exact ⟨_, [], rfl, Or.inr (Or.inl rfl), by simp⟩
  | lineEnd before =>
      refine ⟨allBytes (before ++ [newline]), [], ?_, ?_, by simp⟩
      · rw [List.append_nil]
      · refine Or.inr (Or.inr ?_)
        rw [allBytes, List.flatMap_append]
        exact List.getLast?_concat
  | sigil s _ ih =>
      obtain ⟨before, sigils, cut, starts, all⟩ := ih
      refine ⟨before, sigils ++ Glyph.bytes (.scalar s.symbol), ?_, starts,
        ?_⟩
      · rw [allBytes, List.flatMap_append, ← allBytes, cut,
          List.append_assoc, List.flatMap_singleton]
      · intro b hb
        rcases List.mem_append.1 hb with hb | hb
        · exact all b hb
        · rcases bytes_symbol s with hs | hs
          · rw [hs] at hb
            exact Or.inl (List.mem_singleton.1 hb)
          · rw [hs] at hb
            exact Or.inr (List.mem_singleton.1 hb)

-- ============================================================== stacks

/-- Looking at a glyph changes nothing that is known of the line. -/
theorem line_atGlyph (n : Nesting) (g : Glyph) :
    (n.atGlyph g).stack.saved = n.stack.saved
      ∧ (.lineStart ∈ (n.atGlyph g).stack.current
        ↔ .lineStart ∈ n.stack.current) := by
  unfold Nesting.atGlyph
  split
  · refine ⟨rfl, Nesting.mem_remove.trans ?_⟩
    simp
  · exact ⟨rfl, Iff.rfl⟩

/-- Leaving the call that a sigil opened leads back to the place of the
sigil, with what was known there. -/
theorem leave_afterToken_enter (m : Nesting) (opener : Bool) :
    (({ m.enter {.nameCall} with openerNext := opener } : Nesting).afterToken
        false |>.leave {.nameCall}).stack = m.stack := by
  have inside : .nameCall ∈ ((m.stack.push {.nameCall}).remove
      {.lineStart}).current := by
    simp [ContextStack.push, ContextStack.remove]
  have meets : ((m.stack.push {.nameCall}).remove {.lineStart}).current.meets
      {.nameCall} = true :=
    Context.meets_iff.2 ⟨_, inside, Context.mem_singleton.2 rfl⟩
  show ((m.stack.push {.nameCall}).remove {.lineStart}).pop {.nameCall} = _
  unfold ContextStack.pop ContextStack.pop?
  rw [if_pos meets]
  rfl

/-- What was known of the line is taken back by a token in the middle of
it, unless the token is a sigil and the call is left at once. -/
theorem Turn.line {inherited : Context}
    {kinds : List Flag} {m n' : Nesting} {token : Option Token}
    {unclosed : Nat} (turn : Turn m token unclosed n')
    (hl : Layers inherited kinds m.stack)
    (name : kinds.head? ≠ some .nameCall)
    (begun : .lineStart
      ∈ ((n'.afterToken false).leave {.nameCall}).stack.current) :
    ∃ sigil, token = some (.reference sigil none)
      ∧ ((n'.afterToken false).leave {.nameCall}).stack = m.stack := by
  by_cases hn : n'.has .nameCall = true
  · obtain ⟨sigil, opener, ht, rfl⟩ := turn.named hl name hn
    exact ⟨sigil, ht, leave_afterToken_enter m opener⟩
  · have unnamed : ¬ (n'.afterToken false).has .nameCall = true := by
      rw [Nesting.has_iff, Nesting.mem_afterToken (by decide),
        ← Nesting.has_iff]
      exact hn
    rw [Nesting.leave_of_not_has unnamed] at begun
    exact absurd rfl (Nesting.mem_remove.1 begun).2

namespace Scanner

variable {src passed : List Glyph} {file : File} {s t : Scanner}

/-- What is known of the line is right: outside all constructs the line
has just begun, but for sigils, when it is said to have. -/
structure OnLine (src passed : List Glyph) (s : Scanner) : Prop where
  place : Passed src passed s
  line : s.stackAtLineEnd.saved = [] →
    .lineStart ∈ s.stackAtLineEnd.current →
    FreshLine passed ∨ ∀ g : Glyph, s.rest.head? = some g → g = newline

/-- The turn of a step starts from the place where a line end would
find it. -/
theorem line_turn {m : Nesting} {g : Glyph}
    (hm : m = s.nesting.leave {.nameCall}
      ∨ m = (s.nesting.leave {.nameCall}).atGlyph g) :
    m.stack.saved = s.stackAtLineEnd.saved
      ∧ (.lineStart ∈ m.stack.current
        ↔ .lineStart ∈ s.stackAtLineEnd.current) := by
  rcases hm with rfl | rfl
  · exact ⟨rfl, Iff.rfl⟩
  · exact line_atGlyph _ g

-- ================================================================ steps

/-- Behind a step that skips, the line is a new one, or its end is
next. -/
theorem OnLine.skip (h : OnLine src passed s) (sound : s.Sound)
    (hp : s.plan.token = none) :
    OnLine src (passed ++ s.plan.reads s.rest) (s.perform s.plan) where
  place := h.place.perform s.plan
  line := by
    intro _ _
    have skipped := sound.skipped hp
    rw [rest_perform]
    generalize s.plan.reads s.rest = read at skipped ⊢
    generalize s.plan.leaves s.rest = left at skipped ⊢
    cases skipped with
    | join =>
        have line := FreshLine.lineEnd (passed ++ [.scalar '\\'])
        rw [List.append_assoc] at line
        exact Or.inl line
    | comment _ _ stop => exact Or.inr stop

theorem stackAtLineEnd_deliver (s : Scanner) (start : Nat) {token : Token}
    (text : String) (h : token ≠ .punct .lineEnd) :
    (s.deliver start token text).2.stackAtLineEnd
      = ((s.nesting.afterToken false).leave {.nameCall}).stack := by
  unfold stackAtLineEnd Scanner.deliver
  rw [beq_false_of_ne h]

/-- A sigil alone is read as its character. -/
theorem Sound.reads_of_sigil (sound : s.Sound) (more : s.rest ≠ [])
    {sigil : Sigil} (hp : s.plan.token = some (.reference sigil none)) :
    s.plan.reads s.rest = [.scalar sigil.symbol] := by
  have written := sound.written more hp
  apply Glyph.eq_scalar_of_lossyText
  · cases sigil <;> decide
  · exact List.mem_singleton.1 written

/-- Behind a step that makes a token, the line has just begun if the
token is a line end, and otherwise only behind a sigil. -/
theorem OnLine.deliver (h : OnLine src passed s) (sound : s.Sound)
    {token : Token} (hp : s.plan.token = some token) (text : String) :
    OnLine src (passed ++ s.plan.reads s.rest)
      ((s.perform s.plan).deliver s.offset token text).2 := by
  have moved := h.place.perform s.plan
  refine ⟨⟨moved.split, moved.offset⟩, fun outside begun => ?_⟩
  cases hr : s.rest with
  | nil =>
      have ended : (s.perform s.plan).rest = [] := by
        rw [rest_perform, hr, Plan.leaves_nil]
      refine Or.inr fun g hg => ?_
      have none : some g = List.head? [] := hg.symm.trans (congrArg _ ended)
      cases none
  | cons g rest =>
      have more : s.rest ≠ [] := by
        rw [hr]
        exact List.cons_ne_nil g rest
      rw [← hr]
      by_cases he : token = .punct .lineEnd
      · subst he
        rw [sound.reads_of_lineEnd hp]
        exact Or.inl (.lineEnd passed)
      obtain ⟨inherited, kinds, m, -, left, name, hm, turns⟩ :=
        sound.turns hr
      obtain ⟨saved, known⟩ := line_turn hm
      rw [stackAtLineEnd_deliver _ _ text he, nesting_perform]
        at outside begun
      obtain ⟨sigil, ht, back⟩ := turns.turn.line left name begun
      rw [back] at outside begun
      have read := sound.reads_of_sigil more ht
      have split := s.plan.reads_append_leaves s.rest
      rw [read] at split ⊢
      rcases h.line (saved.symm.trans outside) (known.1 begun) with
        fresh | next
      · exact Or.inl (.sigil sigil fresh)
      · have front : s.rest.head? = some (.scalar sigil.symbol) := by
          rw [← split]
          rfl
        exact absurd (next _ front) (symbol_ne_newline sigil)

-- ============================================================= sessions

/-- Switching recipes changes nothing that is known of the line. -/
theorem OnLine.setRecipes (h : OnLine src passed s) (sound : s.Sound)
    (on : Bool) : OnLine src passed (s.setRecipes on) := by
  obtain ⟨inherited, hn, -⟩ := sound
  obtain ⟨kinds, hl⟩ := hn.layers
  have set : (s.setRecipes on).stackAtLineEnd
      = s.stackAtLineEnd.setInherited {.recipesAllowed} on :=
    hl.pop_setInherited (by decide) _ on
  refine ⟨⟨h.place.split, h.place.offset⟩, fun outside begun => ?_⟩
  rw [set] at outside begun
  apply h.line
  · exact List.map_eq_nil_iff.1 outside
  · exact (mem_setFlags (by decide)).1 begun

/-- A scanner at work on a source, for which what is known of the line
is right. -/
structure Tracked (file : File) (src : List Glyph) (s : Scanner) : Prop where
  sound : s.Sound
  placed : Placed file s
  line : ∃ passed, OnLine src passed s

theorem Tracked.skip (h : Tracked file src s) (hp : s.plan.token = none) :
    Tracked file src (s.perform s.plan) := by
  obtain ⟨passed, line⟩ := h.line
  exact ⟨h.sound.perform, h.placed.perform _, _, line.skip h.sound hp⟩

theorem Tracked.scan (h : Tracked file src s) :
    Tracked file src s.scan.2 := by
  obtain ⟨u, token, hu, hp, call⟩ :=
    exists_lastStep (fun _ hs hp => Tracked.skip hs hp) h
  obtain ⟨passed, line⟩ := hu.line
  have behind := line.deliver hu.sound hp u.plan.text
  rw [← call] at behind
  exact ⟨h.sound.scan, h.placed.scan, _, behind⟩

theorem Tracked.setRecipes (h : Tracked file src s) (on : Bool) :
    Tracked file src (s.setRecipes on) := by
  obtain ⟨passed, line⟩ := h.line
  exact ⟨h.sound.setRecipes on, h.placed.setRecipes on, passed,
    line.setRecipes h.sound on⟩

theorem tracked_start {mode : Mode} {source : List UInt8}
    (h : Scanner.start file mode source = .ok s) :
    Tracked file (ofBytes source) s := by
  have placed := placed_start h
  obtain ⟨-, rfl⟩ := start_eq_ok h
  obtain ⟨passed, place, none⟩ :=
    passed_ofGlyphs file mode (ofBytes source)
  refine ⟨sound_ofGlyphs _ _ _, placed, passed, place, fun _ _ => ?_⟩
  rcases none with ⟨rfl, -⟩ | rfl
  · exact Or.inl .source
  · exact Or.inl .mark

-- ============================================================== recipes

/-- The step that opens a recipe is made at a tab, outside all
constructs, on a line that has just begun but for sigils. -/
theorem OnLine.recipe (h : OnLine src passed s) (sound : s.Sound)
    (hp : s.plan.token = some (.literal .recipe)) :
    FreshLine passed ∧ s.rest.head? = some (.scalar '\t')
      ∧ s.plan.nesting.stack.depth = 1 := by
  cases hr : s.rest with
  | nil =>
      rw [token_plan_nil s hr] at hp
      cases hp
  | cons g rest =>
      obtain ⟨inherited, kinds, m, -, left, -, hm, turns⟩ := sound.turns hr
      obtain ⟨saved, known⟩ := line_turn hm
      have turn := turns.turn
      rw [hp] at turn
      have tab : g = .scalar '\t' := by
        have written := sound.written (hr ▸ List.cons_ne_nil g rest) hp
        obtain ⟨more, hm⟩ := s.plan.exists_reads_cons g rest
        have front := head?_lossyText g more
        rw [hr, hm] at written
        rw [List.mem_singleton.1 written, String.toList_append] at front
        exact Glyph.eq_scalar_of_char (Option.some.inj front).symm
          (by decide)
      generalize s.plan.nesting = n', s.plan.unclosed = unclosed at turn ⊢
      cases turn with
      | shift plain _ => cases plain
      | recipe opens =>
          have outside := eq_nil_of_opensRecipe left opens
          rw [outside] at left
          have none : m.stack.saved = [] :=
            List.length_eq_zero_iff.1 left.depth_eq
          have begun : m.has .lineStart = true := by
            simp only [Nesting.opensRecipe, Bool.and_eq_true] at opens
            exact opens.1.1
          refine ⟨?_, by rw [tab]; rfl, ?_⟩
          · rcases h.line (saved.symm.trans none)
              (known.1 (Nesting.has_iff.1 begun)) with fresh | next
            · exact fresh
            · have newline := next g (by rw [hr]; rfl)
              rw [tab] at newline
              exact absurd newline (by decide)
          · show (m.stack.saved.length + 1) = 1
            rw [none]
            rfl

/-- The source up to a tab on a line that has just begun. -/
theorem OnLine.source_eq {source : List UInt8}
    (h : OnLine (ofBytes source) passed s) (fresh : FreshLine passed)
    (tab : s.rest.head? = some (.scalar '\t')) :
    ∃ before sigils after, source = before ++ sigils ++ 9 :: after
      ∧ StartsLine before ∧ (∀ b ∈ sigils, b = 36 ∨ b = 38)
      ∧ s.offset = (before ++ sigils).length := by
  obtain ⟨cut, offset⟩ := h.place.source_eq
  obtain ⟨before, sigils, bytes, starts, all⟩ := fresh.bytes
  obtain ⟨rest, hr⟩ := List.head?_eq_some_iff.1 tab
  rw [bytes] at cut offset
  rw [hr] at cut
  exact ⟨before, sigils, allBytes rest, cut, starts, all, offset⟩

/-- Each recipe starts at a tab, outside all constructs, and between the
start of its line and the tab there is nothing but sigils. -/
theorem recipe_after_sigils {file : File} {mode : Mode}
    {source : List UInt8} {s t : Scanner} {lexemes : List Lexeme}
    (started : Scanner.start file mode source = .ok s)
    (work : Session s lexemes t)
    (opened : t.scan.1.token = .literal .recipe) :
    ∃ before sigils after, source = before ++ sigils ++ 9 :: after
      ∧ StartsLine before ∧ (∀ b ∈ sigils, b = 36 ∨ b = 38)
      ∧ t.scan.1.handle = ⟨file.base + (before ++ sigils).length⟩
      ∧ t.scan.2.nesting.stack.depth = 1 := by
  have tracked : Tracked file (ofBytes source) t :=
    work.preserves (fun _ => Tracked.scan)
      (fun _ on hs => hs.setRecipes on) (tracked_start started)
  obtain ⟨u, token, hu, hp, call⟩ :=
    exists_lastStep (fun _ hs hp => Tracked.skip hs hp) tracked
  rw [call] at opened ⊢
  obtain rfl : token = .literal .recipe := opened
  obtain ⟨passed, line⟩ := hu.line
  obtain ⟨fresh, tab, depth⟩ := line.recipe hu.sound hp
  obtain ⟨before, sigils, after, cut, starts, all, offset⟩ :=
    line.source_eq fresh tab
  refine ⟨before, sigils, after, cut, starts, all, ?_, depth⟩
  show (u.perform u.plan).file.handle u.offset = _
  rw [(u.kin_perform u.plan).handle, hu.placed.handle hu.placed.offset_le,
    offset]

/-- Behind the sigil of `$` and a tab, with recipes switched on before
it. -/
def beforeSigilTab : Scanner :=
  ofGlyphs (File.alone "" 2) {} (ofBytes [36, 9])

def behindSigil : Scanner := (beforeSigilTab.setRecipes true).scan.2

theorem recipe_after_sigils_one :
    Scanner.start (File.alone "" 2) {} [36, 9] = .ok beforeSigilTab
      ∧ (∃ lexemes, Session beforeSigilTab lexemes behindSigil)
      ∧ behindSigil.scan.1.token = .literal .recipe
      ∧ ∃ before sigils after, [36, 9] = before ++ sigils ++ 9 :: after
        ∧ StartsLine before ∧ (∀ b ∈ sigils, b = 36 ∨ b = 38)
        ∧ behindSigil.scan.1.handle
          = ⟨(File.alone "" 2).base + (before ++ sigils).length⟩
        ∧ behindSigil.scan.2.nesting.stack.depth = 1 := by
  have started : Scanner.start (File.alone "" 2) {} [36, 9]
      = .ok beforeSigilTab := rfl
  have work : Session beforeSigilTab _ behindSigil :=
    .setRecipes true (.scan (.done _))
  have opened : behindSigil.scan.1.token = .literal .recipe := by
    decide +kernel
  exact ⟨started, ⟨_, work⟩, opened,
    recipe_after_sigils started work opened⟩

/-- The tab there is not at the start of the line. -/
theorem not_recipe_at_lineStart_all :
    ¬ ∀ (file : File) (mode : Mode) (source : List UInt8) (s t : Scanner)
        (lexemes : List Lexeme),
      Scanner.start file mode source = .ok s → Session s lexemes t →
      t.scan.1.token = .literal .recipe →
      ∃ before after, source = before ++ 9 :: after ∧ StartsLine before
        ∧ t.scan.1.handle = ⟨file.base + before.length⟩ := by
  intro h
  have opened : behindSigil.scan.1.token = .literal .recipe
      ∧ behindSigil.scan.1.handle = ⟨2⟩ := by
    decide +kernel
  obtain ⟨before, after, cut, starts, handle⟩ :=
    h (File.alone "" 2) {} [36, 9] beforeSigilTab behindSigil _ rfl
      (.setRecipes true (.scan (.done _))) opened.1
  rw [opened.2] at handle
  have one : before.length = 1 := by
    have index := congrArg Handle.index handle
    simp only [File.alone] at index
    omega
  obtain ⟨b, rfl⟩ := List.length_eq_one_iff.1 one
  obtain ⟨rfl, -⟩ := List.cons.inj cut
  rcases starts with none | mark | newline
  · cases none
  · cases mark
  · exact absurd newline (by decide)

end Scanner

end BuildLexer
