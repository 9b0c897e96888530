/-
Calls in brackets, and where a scanner sees them end.

`Scanner.alone` reads a sigil, an opening bracket, a well-nested text and
the closing bracket. Whether the call is open up to that last bracket
and closed by it is decided by the levels of the text alone
(`closes_iff_ends`): the constructs around a place inside the call are
the call and the groups in it (`levelKinds`), a bracket changes their
number as `levelAfter` says, and every other token leaves them alone.

The level is not the number of open brackets, so there are well-nested
texts that end the call too early, `({})` in parentheses for one.
-/
import BuildLexer.Proofs.Balance.Text
import BuildLexer.Proofs.Tiling.Run
import BuildLexer.Tokenize

namespace BuildLexer

open Plan

-- ============================================================ constructs

/-- The construct that a call in brackets is. -/
def Bracket.kind : Bracket → Flag
  | paren => .parenCall
  | brace => .braceCall

theorem Bracket.kind_mem (call : Bracket) :
    call.kind ∈ Context.kinds ∧ call.kind ∈ Context.call
      ∧ call.kind ≠ .recipeLine ∧ call.kind ≠ .quoted
      ∧ call.kind ≠ .nameCall := by
  cases call with
  | paren => decide
  | brace => decide

/-- The mark that closes it. -/
def Bracket.closer : Bracket → Token
  | paren => .punct .rightParen
  | brace => .punct .rightBrace

/-- The constructs around a place at some level of a call. -/
def levelKinds (call : Bracket) : Nat → List Flag
  | 0 => []
  | 1 => [call.kind]
  | level + 2 => .group :: levelKinds call (level + 1)

variable {call : Bracket} {level : Nat} {inherited : Context}
  {n : Nesting}

theorem length_levelKinds (call : Bracket) (level : Nat) :
    (levelKinds call level).length = level := by
  induction level with
  | zero => rfl
  | succ level ih =>
      cases level with
      | zero => rfl
      | succ level => exact congrArg (· + 1) ih

theorem levelKinds_succ (h : 0 < level) :
    levelKinds call (level + 1) = .group :: levelKinds call level := by
  cases level with
  | zero => exact absurd h (Nat.lt_irrefl 0)
  | succ level => rfl

/-- Inside the call the innermost construct is it or a group. -/
theorem levelKinds_eq_cons (call : Bracket) (h : 0 < level) :
    ∃ kind kinds, levelKinds call level = kind :: kinds
      ∧ (kind ∈ Context.call ↔ level = 1)
      ∧ kind ≠ .recipeLine ∧ kind ≠ .quoted := by
  cases level with
  | zero => exact absurd h (Nat.lt_irrefl 0)
  | succ level =>
      cases level with
      | zero =>
          obtain ⟨-, mem, hrecipe, hquoted, -⟩ := call.kind_mem
          exact ⟨call.kind, [], rfl, iff_of_true mem rfl, hrecipe, hquoted⟩
      | succ level =>
          refine ⟨.group, levelKinds call (level + 1), rfl, ?_, ?_⟩
          · refine iff_of_false (by decide) ?_
            exact fun he => Nat.succ_ne_zero level (Nat.succ.inj he)
          · decide

/-- A closing bracket takes the call or a group away. -/
theorem dropKind_levelKinds (call b : Bracket) (h : 0 < level) :
    dropKind {b.kind, .group} (levelKinds call level)
      = levelKinds call (call.lower b level) := by
  cases level with
  | zero => exact absurd h (Nat.lt_irrefl 0)
  | succ level =>
      cases level with
      | zero =>
          cases call with
          | paren =>
              cases b with
              | paren => rfl
              | brace => rfl
          | brace =>
              cases b with
              | paren => rfl
              | brace => rfl
      | succ level =>
          have lowered : call.lower b (level + 2) = level + 1 := by
            unfold Bracket.lower
            rw [if_pos (Or.inr (Nat.succ_lt_succ (Nat.succ_pos level)))]
            rfl
          rw [lowered]
          refine dropKind_of_mem ?_ _
          exact Context.mem_insert.2
            (Or.inr (Context.mem_singleton.2 rfl))

-- =========================================================== the brackets

section Brackets

variable (h : n.Calm inherited (levelKinds call level)) (hl : 0 < level)

include h hl

theorem calm_leftParen_level :
    (leftParen n).nesting.Calm inherited
      (levelKinds call (Bracket.paren.raise level)) := by
  have entered := h.enter opens_group nofun (by decide)
  unfold leftParen
  rw [h.opener, Bool.false_and, if_neg Bool.false_ne_true]
  show Nesting.Calm _ (levelKinds call (level + 1)) _
  rw [levelKinds_succ hl]
  exact entered

theorem calm_leftBrace_level :
    (leftBrace n).nesting.Calm inherited
      (levelKinds call (Bracket.brace.raise level)) := by
  obtain ⟨kind, kinds, hk, hcall, -⟩ := levelKinds_eq_cons call hl
  have entered := h.enter opens_group nofun (by decide)
  have layers := h.layers
  rw [hk] at layers
  have told : n.meets Context.call = true ↔ level = 1 :=
    (layers.construct_current.meets_iff (by decide)).trans hcall
  unfold leftBrace Bracket.raise
  rw [h.opener, Bool.false_and, if_neg Bool.false_ne_true]
  dsimp only
  by_cases first : level = 1
  · rw [if_pos first, if_pos (told.2 first)]
    rw [← levelKinds_succ hl, first] at entered
    exact entered
  · rw [if_neg first, if_neg fun hm => first (told.1 hm)]
    exact h

theorem calm_closing_level (b : Bracket) :
    (n.leave {b.kind, .group}).Calm inherited
      (levelKinds call (call.lower b level)) := by
  have flags : {b.kind, .group} ⊆ Context.kinds := by
    cases b with
    | paren => decide
    | brace => decide
  rw [← dropKind_levelKinds call b hl]
  exact h.leave _ flags

end Brackets

-- ============================================================== one call

/-- Only its own bracket ends a call. -/
theorem eq_of_lower_eq_zero {b : Bracket} (hl : 0 < level)
    (out : call.lower b level = 0) : b = call := by
  unfold Bracket.lower at out
  split at out
  next h =>
    rcases h with same | more
    · exact same
    · omega
  next => exact absurd hl (out ▸ Nat.lt_irrefl 0)

/-- Text at the front that is read without a bracket. -/
theorem exists_front (count : List Glyph → Nat) (none : count [] = 0)
    (step : ∀ (c : Char) (rest : List Glyph),
      count (.scalar c :: rest) = 0
        ∨ ¬ IsBracket c ∧ count (.scalar c :: rest) = count rest + 1)
    (text : List Char) :
    ∃ span left, text = span ++ left
      ∧ span.length = count (text.map .scalar)
      ∧ ∀ c ∈ span, ¬ IsBracket c := by
  induction text with
  | nil => exact ⟨[], [], rfl, none.symm, nofun⟩
  | cons c text ih =>
      obtain ⟨span, left, hcut, hlen, hother⟩ := ih
      rw [List.map_cons]
      rcases step c (text.map .scalar) with stops | ⟨hc, goes⟩
      · exact ⟨[], c :: text, rfl, stops.symm, nofun⟩
      · refine ⟨c :: span, left, ?_, ?_, ?_⟩
        · rw [hcut, List.cons_append]
        · rw [List.length_cons, hlen, goes]
        · intro d hd
          rcases List.mem_cons.1 hd with rfl | hd
          · exact hc
          · exact hother d hd

theorem not_isBracket_of_continues {c : Char} {rest : List Glyph}
    (h : Name.continues (.scalar c) rest = true) : ¬ IsBracket c := by
  intro hb
  rcases hb with rfl | rfl | rfl | rfl <;> cases h

theorem not_isBracket_of_isBlank {c : Char}
    (h : isBlank (.scalar c) = true) : ¬ IsBracket c := by
  intro hb
  rcases hb with rfl | rfl | rfl | rfl <;> cases h

/-- A name goes on over no bracket. -/
theorem tailLength_step (c : Char) (rest : List Glyph) :
    Name.tailLength (.scalar c :: rest) = 0
      ∨ ¬ IsBracket c
        ∧ Name.tailLength (.scalar c :: rest)
          = Name.tailLength rest + 1 := by
  rw [Name.tailLength]
  by_cases goes : Name.continues (.scalar c) rest = true
  · rw [if_pos goes]
    exact Or.inr ⟨not_isBracket_of_continues goes, rfl⟩
  · rw [if_neg goes]
    exact Or.inl rfl

/-- Nor does a run of blanks. -/
theorem blanks_step (c : Char) (rest : List Glyph) :
    ((Glyph.scalar c :: rest).takeWhile isBlank).length = 0
      ∨ ¬ IsBracket c
        ∧ ((Glyph.scalar c :: rest).takeWhile isBlank).length
          = (rest.takeWhile isBlank).length + 1 := by
  by_cases goes : isBlank (.scalar c) = true
  · rw [List.takeWhile_cons_of_pos goes]
    exact Or.inr ⟨not_isBracket_of_isBlank goes, rfl⟩
  · rw [List.takeWhile_cons_of_neg goes]
    exact Or.inl rfl

namespace Scanner

variable {s : Scanner}

/-- A call of one step. -/
theorem scan_of_plan {p : Plan} {token : Token} (hp : s.plan = p)
    (ht : p.token = some token) (skips : p.skipsLine = false) :
    s.scan.1.token = token
      ∧ s.scan.2.nesting = p.nesting.afterToken (token == .punct .lineEnd)
      ∧ s.scan.2.rest = s.rest.drop (p.more + 1) := by
  subst hp
  rw [scan_of_token ht]
  refine ⟨rfl, rfl, ?_⟩
  rw [← Plan.leaves_of_not_skipsLine skips]
  exact s.rest_perform s.plan

/-- Inside a call in brackets the next step is one in code. -/
theorem plan_of_level
    (h : s.nesting.Calm inherited (levelKinds call level))
    (hl : 0 < level) {g : Glyph} {rest : List Glyph}
    (hr : s.rest = g :: rest) :
    s.plan = inCode s.mode s.nesting g rest := by
  obtain ⟨kind, kinds, hk, -, hrecipe, hquoted⟩ :=
    levelKinds_eq_cons call hl
  have layers := h.layers
  rw [hk] at layers
  unfold plan
  rw [hr]
  exact next_of_code layers hrecipe hquoted
    (Nesting.settle_eq h.not_nameCall)

/-- A bracket changes the level. -/
theorem scan_bracket
    (h : s.nesting.Calm inherited (levelKinds call level))
    (hl : 0 < level) {c : Char} (hc : IsBracket c) {rest : List Glyph}
    (hr : s.rest = .scalar c :: rest) :
    s.scan.2.nesting.Calm inherited
        (levelKinds call (levelAfter call c level))
      ∧ s.scan.2.rest = rest
      ∧ (levelAfter call c level = 0 → s.scan.1.token = call.closer) := by
  have code := plan_of_level h hl hr
  have front : s.rest.drop 1 = rest := by
    rw [hr]
    rfl
  have opens (b : Bracket) {token : Token} :
      levelAfter call b.opening level = 0 → token = call.closer := by
    rw [levelAfter_opening]
    intro out
    exact absurd (raise_pos b hl) (out ▸ Nat.lt_irrefl 0)
  have closes (b : Bracket) :
      levelAfter call b.closing level = 0 → b.closer = call.closer := by
    rw [levelAfter_closing]
    intro out
    rw [eq_of_lower_eq_zero hl out]
  rcases hc with rfl | rfl | rfl | rfl
  · obtain ⟨ht, hn, hr⟩ :=
      scan_of_plan (p := leftParen s.nesting) code rfl rfl
    rw [hn, hr]
    exact ⟨(calm_leftParen_level h hl).afterToken _, front, opens .paren⟩
  · obtain ⟨ht, hn, hr⟩ :=
      scan_of_plan (p := rightParen s.nesting) code rfl rfl
    rw [ht, hn, hr]
    exact ⟨(calm_closing_level h hl .paren).afterToken _, front,
      closes .paren⟩
  · obtain ⟨ht, hn, hr⟩ :=
      scan_of_plan (p := leftBrace s.nesting) code rfl rfl
    rw [hn, hr]
    exact ⟨(calm_leftBrace_level h hl).afterToken _, front, opens .brace⟩
  · obtain ⟨ht, hn, hr⟩ :=
      scan_of_plan (p := rightBrace s.nesting) code rfl rfl
    rw [ht, hn, hr]
    exact ⟨(calm_closing_level h hl .brace).afterToken _, front,
      closes .brace⟩

theorem isLetter_of_isAlpha {c : Char} (h : c.isAlpha = true) :
    (Glyph.scalar c).isLetter = true := by
  have low : c.toNat < 0x80 := by
    rcases Bool.or_eq_true_iff.1 h with upper | lower
    · have bounds := of_decide_eq_true upper
      exact Nat.lt_of_le_of_lt (UInt32.le_iff_toNat_le.1 bounds.2)
        (by decide)
    · have bounds := Bool.and_eq_true_iff.1 lower
      have high := of_decide_eq_true bounds.2
      exact Nat.lt_of_le_of_lt (UInt32.le_iff_toNat_le.1 high) (by decide)
  show (if c.toNat < 0x80 then c.isAlpha || c == '_' else _) = true
  rw [if_pos low, h, Bool.true_or]

/-- A letter or a blank begins a run that changes nothing. -/
theorem plan_plain
    (h : s.nesting.Calm inherited (levelKinds call level))
    (hl : 0 < level) {c : Char} (hc : c = ' ' ∨ c.isAlpha = true)
    {rest : List Glyph} (hr : s.rest = .scalar c :: rest) :
    ∃ count : List Glyph → Nat, count [] = 0
      ∧ (∀ (c : Char) (rest : List Glyph),
        count (.scalar c :: rest) = 0
          ∨ ¬ IsBracket c ∧ count (.scalar c :: rest) = count rest + 1)
      ∧ s.plan.more = count rest ∧ s.plan.token.isSome = true
      ∧ s.plan.skipsLine = false ∧ s.plan.nesting = s.nesting := by
  rw [plan_of_level h hl hr]
  rcases hc with rfl | hc
  · exact ⟨fun gs => (gs.takeWhile isBlank).length, rfl, blanks_step, rfl,
      rfl, rfl, rfl⟩
  · unfold inCode
    rw [if_pos (isLetter_of_isAlpha hc)]
    exact ⟨Name.tailLength, rfl, tailLength_step, rfl, rfl, rfl,
      Nesting.leave_of_not_has h.not_nameCall⟩

theorem scan_plain
    (h : s.nesting.Calm inherited (levelKinds call level))
    (hl : 0 < level) {c : Char} (hc : c = ' ' ∨ c.isAlpha = true)
    {text : List Char} (hr : s.rest = (c :: text).map .scalar) :
    s.scan.2.nesting.Calm inherited (levelKinds call level)
      ∧ ∃ span left, c :: text = c :: span ++ left
        ∧ (∀ d ∈ c :: span, ¬ IsBracket d)
        ∧ s.scan.2.rest = left.map .scalar := by
  obtain ⟨count, none, step, more, made, skips, same⟩ :=
    plan_plain h hl hc hr
  obtain ⟨token, made⟩ := Option.isSome_iff_exists.1 made
  obtain ⟨-, hn, hd⟩ := scan_of_plan rfl made skips
  obtain ⟨span, left, rfl, hlen, hother⟩ := exists_front count none step text
  refine ⟨?_, span, left, rfl, ?_, ?_⟩
  · rw [hn, same]
    exact h.afterToken _
  · intro d hd
    rcases List.mem_cons.1 hd with rfl | hd
    · exact not_isBracket_of_plain hc
    · exact hother d hd
  · rw [hd, hr, more, ← hlen, List.map_cons, List.drop_succ_cons,
      List.map_append, ← List.length_map Glyph.scalar]
    exact List.drop_left

-- ============================================================= the run

/-- A run that is in a call up to its last token before the end of the
source, which closes the call. -/
def Closes (call : Bracket) (run : List (Lexeme × Scanner)) : Prop :=
  ∃ rows last done, run = rows ++ [last, done]
    ∧ (∀ row ∈ rows, 1 ≤ row.2.nesting.stack.depth)
    ∧ last.1.token = call.closer ∧ last.2.nesting.stack.depth = 0
    ∧ done.1.token = .endOfFile

theorem closes_cons_inside {row : Lexeme × Scanner}
    {run : List (Lexeme × Scanner)}
    (h : 1 ≤ row.2.nesting.stack.depth) :
    Closes call (row :: run) ↔ Closes call run := by
  constructor
  · intro hc
    obtain ⟨rows, last, done, hcut, inside, closes, out, ends⟩ := hc
    cases rows with
    | nil =>
        obtain ⟨rfl, -⟩ := List.cons.inj hcut
        omega
    | cons first rows =>
        obtain ⟨rfl, behind⟩ := List.cons.inj hcut
        exact ⟨rows, last, done, behind,
          fun r hr => inside r (List.mem_cons_of_mem _ hr), closes, out,
          ends⟩
  · intro hc
    obtain ⟨rows, last, done, rfl, inside, closes, out, ends⟩ := hc
    refine ⟨row :: rows, last, done, rfl, ?_, closes, out, ends⟩
    intro r hr
    rcases List.mem_cons.1 hr with rfl | hr
    · exact h
    · exact inside r hr

theorem closes_cons_out {row : Lexeme × Scanner}
    {run : List (Lexeme × Scanner)}
    (h : row.2.nesting.stack.depth = 0) :
    Closes call (row :: run)
      ↔ row.1.token = call.closer
        ∧ ∃ done, run = [done] ∧ done.1.token = .endOfFile := by
  constructor
  · intro hc
    obtain ⟨rows, last, done, hcut, inside, closes, out, ends⟩ := hc
    cases rows with
    | nil =>
        obtain ⟨rfl, behind⟩ := List.cons.inj hcut
        exact ⟨closes, done, behind, ends⟩
    | cons first rows =>
        obtain ⟨rfl, -⟩ := List.cons.inj hcut
        have deep := inside row List.mem_cons_self
        omega
  · intro hc
    obtain ⟨closes, done, rfl, ends⟩ := hc
    have none : ∀ r ∈ ([] : List (Lexeme × Scanner)),
        1 ≤ r.2.nesting.stack.depth := fun r hr =>
      absurd hr List.not_mem_nil
    exact ⟨[], row, done, rfl, none, closes, h, ends⟩

/-- In text without backslashes and hash signs nothing is skipped, so
only its end is read as the end. -/
theorem Sound.token_ne_endOfFile (h : s.Sound) {c : Char}
    {text : List Char} (hr : s.rest = (c :: text).map .scalar)
    (hb : c ≠ '\\') (hh : c ≠ '#') : s.scan.1.token ≠ .endOfFile := by
  intro ended
  obtain ⟨gap, span, left, hcut, call⟩ := h.reads hr
  rcases call.token with ⟨-, rfl, rfl⟩ | ⟨-, written⟩
  · rw [List.append_nil, List.append_nil] at hcut
    have skipped := call.skipped
    rw [← hcut] at skipped
    cases skipped with
    | join _ => exact hb rfl
    | comment _ _ _ _ => exact hh rfl
  · rw [ended] at written
    cases written

/-- The characters that a well-nested text is made of. -/
def InText (c : Char) : Prop :=
  IsBracket c ∨ c = ' ' ∨ c.isAlpha = true

theorem InText.ne {c : Char} (h : InText c) : c ≠ '\\' ∧ c ≠ '#' := by
  constructor
  · intro he
    subst he
    exact absurd h (by unfold InText IsBracket; decide)
  · intro he
    subst he
    exact absurd h (by unfold InText IsBracket; decide)

/-- What is behind a call is its end exactly when nothing is left. -/
theorem Sound.run_eq_end (h : s.Sound) {text : List Char}
    (hr : s.rest = text.map .scalar) (ht : ∀ c ∈ text, InText c) :
    (∃ done, s.run = [done] ∧ done.1.token = .endOfFile)
      ↔ text = [] := by
  cases text with
  | nil =>
      have ended := scan_of_nil hr
      exact iff_of_true ⟨s.scan, run_of_end ended, ended⟩ rfl
  | cons c text =>
      refine iff_of_false ?_ (List.cons_ne_nil c text)
      intro hd
      obtain ⟨done, hd, -⟩ := hd
      have inText := (ht c List.mem_cons_self).ne
      rw [run_of_more (h.token_ne_endOfFile hr inText.1 inText.2)] at hd
      exact run_ne_nil _ (List.cons.inj hd).2

/-- The run inside a call closes it where the levels say so. -/
theorem closes_iff_ends (h : s.Sound)
    (calm : s.nesting.Calm inherited (levelKinds call level))
    (hl : 0 < level) {text : List Char}
    (hr : s.rest = text.map .scalar) (ht : ∀ c ∈ text, InText c) :
    Closes call s.run ↔ Ends call level text := by
  induction hn : text.length using Nat.strongRecOn
    generalizing s level text with
  | ind count ih =>
      cases text with
      | nil =>
          rw [run_of_end (scan_of_nil hr)]
          refine iff_of_false ?_ nofun
          intro hc
          obtain ⟨rows, last, done, hcut, -⟩ := hc
          have lengths := congrArg List.length hcut
          rw [List.length_append, List.length_singleton] at lengths
          have two : [last, done].length = 2 := rfl
          omega
      | cons c text =>
          have inText := (ht c List.mem_cons_self).ne
          have others : ∀ d ∈ text, InText d := fun d hd =>
            ht d (List.mem_cons_of_mem c hd)
          rw [run_of_more (h.token_ne_endOfFile hr inText.1 inText.2)]
          rcases ht c List.mem_cons_self with hc | hc
          · obtain ⟨after, left, token⟩ := scan_bracket calm hl hc hr
            have depth := after.layers.depth_eq
            rw [length_levelKinds] at depth
            by_cases out : levelAfter call c level = 0
            · rw [closes_cons_out (depth.trans out), ends_of_out out,
                h.scan.run_eq_end left others]
              exact ⟨fun he => he.2, fun he => ⟨token out, he⟩⟩
            · have inside := Nat.pos_of_ne_zero out
              rw [closes_cons_inside (depth ▸ inside), ends_of_inside out]
              have shorter : text.length < count := by
                rw [← hn]
                exact Nat.lt_succ_self _
              exact ih _ shorter h.scan after inside left others rfl
          · obtain ⟨after, span, left, hcut, hother, behind⟩ :=
              scan_plain calm hl hc hr
            have depth := after.layers.depth_eq
            rw [length_levelKinds] at depth
            have shorter : left.length < count := by
              have lengths := congrArg List.length hcut
              rw [hn, List.length_append, List.length_cons] at lengths
              omega
            rw [closes_cons_inside (depth ▸ hl), hcut,
              ends_of_others hl hother]
            refine ih _ shorter h.scan after hl behind ?_ rfl
            intro d hd
            exact ht d (hcut ▸ List.mem_append_right _ hd)

-- ============================================================ the call

/-- Text outside everything is read by a scanner at its start. -/
theorem start_text (name : String) (mode : Mode) {text : List Char}
    (ht : text.head? ≠ some '\uFEFF') :
    (alone name mode (Utf8.encode text)).Sound
      ∧ (alone name mode (Utf8.encode text)).rest = text.map .scalar
      ∧ (alone name mode (Utf8.encode text)).nesting
        = { stack := { current := startContext mode } } := by
  unfold alone
  rw [Utf8.ofBytes_encode]
  have moved := moved_markLength (File.alone name (Utf8.encode text).length)
    mode text
  unfold markLength at moved
  rw [if_neg ht] at moved
  exact ⟨sound_ofGlyphs _ _ _, moved.rest, moved.nesting⟩

/-- A sigil before a bracket enters a call. -/
theorem scan_sigil (call : Bracket)
    (hl : Layers inherited [] s.nesting.stack) {rest : List Glyph}
    (hr : s.rest = .scalar '$' :: .scalar call.opening :: rest) :
    Layers inherited [call.kind] s.scan.2.nesting.stack
      ∧ s.scan.2.nesting.openerNext = true
      ∧ s.scan.2.rest = .scalar call.opening :: rest := by
  have outside {f : Flag} (hf : f ∈ Context.kinds) :
      ¬ s.nesting.has f = true := by
    rw [Nesting.has_iff_of_layers hl hf]
    exact nofun
  let n := s.nesting.atGlyph (.scalar '$')
  have step : s.plan
      = mark (.reference .delegate none) 0
          { n.enter {call.kind} with openerNext := true } := by
    unfold plan
    rw [hr]
    unfold next
    rw [Nesting.settle_eq (outside (by decide))]
    show Plan.atGlyph _ s.nesting _ _ = _
    rw [atGlyph_of_code (outside (by decide)) (outside (by decide))]
    cases call with
    | paren => rfl
    | brace => rfl
  have layers : Layers inherited [] n.stack := by
    unfold n Nesting.atGlyph
    split
    · exact Nesting.layers_remove hl (Or.inr rfl)
    · exact hl
  obtain ⟨-, hn, hd⟩ := scan_of_plan step rfl rfl
  rw [hn, hd, hr]
  refine ⟨Nesting.layers_afterToken ?_ _, ?_, rfl⟩
  · refine layers.push (opens_singleton call.kind_mem.1) ?_ nofun
    intro he
    rfl
  · rw [Nesting.opener_afterToken]
    rfl

/-- The bracket that opens the call is passed. -/
theorem scan_opener (h : s.Sound)
    (hl : Layers inherited [call.kind] s.nesting.stack)
    (ho : s.nesting.openerNext = true) {rest : List Glyph}
    (hr : s.rest = .scalar call.opening :: rest) :
    s.scan.2.nesting.Calm inherited (levelKinds call 1)
      ∧ s.scan.2.rest = rest := by
  obtain ⟨-, -, hrecipe, hquoted, hname⟩ := call.kind_mem
  have unnamed : ¬ s.nesting.has .nameCall = true := by
    rw [Nesting.has_iff_of_layers hl (by decide), List.head?_cons]
    exact fun he => hname (Option.some.inj he)
  have passed : s.plan.nesting = s.nesting.passOpener := by
    obtain ⟨_, hn, -⟩ := h
    unfold plan
    rw [hr] at hn ⊢
    exact next_of_opener hn ho
  have code : s.plan
      = inCode s.mode s.nesting (.scalar call.opening) rest := by
    unfold plan
    rw [hr]
    exact next_of_code hl hrecipe hquoted (Nesting.settle_eq unnamed)
  have mark : ∃ token, s.plan.token = some token
      ∧ s.plan.skipsLine = false ∧ s.plan.more = 0 := by
    rw [code]
    cases call with
    | paren => exact ⟨.punct .leftParen, rfl, rfl, rfl⟩
    | brace => exact ⟨.punct .leftBrace, rfl, rfl, rfl⟩
  obtain ⟨token, made, skips, more⟩ := mark
  obtain ⟨-, hn, hd⟩ := scan_of_plan rfl made skips
  rw [hn, hd, hr, passed, more]
  have calm : s.nesting.passOpener.Calm inherited (levelKinds call 1) := by
    refine ⟨hl, ?_, rfl⟩
    exact fun he => hname (Option.some.inj he)
  exact ⟨calm.afterToken _, rfl⟩

end Scanner

-- ============================================================= the source

/-- A call of a well-nested text. -/
def Nested.source (call : Bracket) (w : Nested) : List Char :=
  '$' :: call.opening :: (w.chars ++ [call.closing])

theorem isBracket_opening (b : Bracket) : IsBracket b.opening := by
  cases b with
  | paren => exact Or.inl rfl
  | brace => exact Or.inr (Or.inr (Or.inl rfl))

theorem isBracket_closing (b : Bracket) : IsBracket b.closing := by
  cases b with
  | paren => exact Or.inr (Or.inl rfl)
  | brace => exact Or.inr (Or.inr (Or.inr rfl))

theorem Nested.inText (w : Nested) :
    ∀ c ∈ w.chars, Scanner.InText c := by
  induction w with
  | nil => exact nofun
  | plain d ok rest ih =>
      intro c hc
      rcases List.mem_cons.1 hc with rfl | hc
      · exact Or.inr ok
      · exact ih c hc
  | pair b inner rest ihi ihr =>
      intro c hc
      rcases List.mem_cons.1 hc with rfl | hc
      · exact Or.inl (isBracket_opening b)
      rcases List.mem_append.1 hc with hc | hc
      · exact ihi c hc
      rcases List.mem_cons.1 hc with rfl | hc
      · exact Or.inl (isBracket_closing b)
      · exact ihr c hc

namespace Scanner

/-- A call of a text, closed by the levels or not. -/
theorem closes_source_iff (name : String) (mode : Mode) (call : Bracket)
    (w : Nested) :
    Closes call (alone name mode (Utf8.encode (w.source call))).run
      ↔ w.level call 1 = some 1 := by
  have unmarked : (w.source call).head? ≠ some '\uFEFF' := by
    show some '$' ≠ some '\uFEFF'
    decide
  obtain ⟨sound, hr, hn⟩ := start_text name mode unmarked
  generalize alone name mode (Utf8.encode (w.source call)) = s
    at sound hr hn ⊢
  have outside : Layers (startContext mode ∩ Context.inherited) []
      s.nesting.stack := by
    rw [hn]
    exact Layers.ground (startContext_plain mode) rfl
  -- the sigil and the opening bracket
  obtain ⟨entered, opener, hr1⟩ := scan_sigil call outside hr
  obtain ⟨calm, hr2⟩ := scan_opener sound.scan entered opener hr1
  have first : s.scan.1.token ≠ .endOfFile :=
    sound.token_ne_endOfFile hr (by decide) (by decide)
  have inText : InText call.opening := Or.inl (isBracket_opening call)
  have bracket := inText.ne
  have second : s.scan.2.scan.1.token ≠ .endOfFile :=
    sound.scan.token_ne_endOfFile hr1 bracket.1 bracket.2
  have depth1 := entered.depth_eq
  have depth2 := calm.layers.depth_eq
  rw [run_of_more first, closes_cons_inside (Nat.le_of_eq depth1.symm),
    run_of_more second, closes_cons_inside (Nat.le_of_eq depth2.symm)]
  have inTexts : ∀ c ∈ w.chars ++ [call.closing], InText c := by
    intro c hc
    rcases List.mem_append.1 hc with hc | hc
    · exact w.inText c hc
    · rw [List.mem_singleton.1 hc]
      exact Or.inl (isBracket_closing call)
  rw [closes_iff_ends sound.scan.scan calm Nat.one_pos hr2 inTexts]
  exact ends_iff_level w

/-- A call of a well-nested text is open up to its last bracket and
closed by it exactly when the level is 1 before that bracket, as it is
when all braces stand directly in the call. -/
theorem call_closes_iff (name : String) (mode : Mode) (call : Bracket)
    (w : Nested) :
    (Closes call (alone name mode (Utf8.encode (w.source call))).run
        ↔ w.level call 1 = some 1)
      ∧ (w.Direct →
        Closes call (alone name mode (Utf8.encode (w.source call))).run) := by
  have closed := closes_source_iff name mode call w
  exact ⟨closed, fun hw => closed.2 (Nested.level_of_direct hw)⟩

/-- As in `$(((a)){b})`. -/
theorem call_closes_direct :
    let a : Nested := .plain 'a' (Or.inr rfl) .nil
    let b : Nested := .plain 'b' (Or.inr rfl) .nil
    let w : Nested := .pair .paren (.pair .paren a .nil) (.pair .brace b .nil)
    w.Direct
      ∧ Closes .paren (alone "" {} (Utf8.encode (w.source .paren))).run := by
  intro a b w
  have direct : w.Direct := ⟨⟨rfl, trivial, trivial⟩, trivial, trivial⟩
  exact ⟨direct, (call_closes_iff "" {} .paren w).2 direct⟩

/-- In `$(({}))` the parenthesis inside closes the call. -/
theorem not_call_closes_all :
    ¬ ∀ w : Nested,
      Closes .paren (alone "" {} (Utf8.encode (w.source .paren))).run := by
  intro h
  let w : Nested := .pair .paren (.pair .brace .nil .nil) .nil
  have closed := (closes_source_iff "" {} .paren w).1 (h w)
  have lost : w.level .paren 1 = none := rfl
  rw [lost] at closed
  cases closed

end Scanner

end BuildLexer
