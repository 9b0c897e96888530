/-
Marks are told by the longest spelling.

The rules for operators and colons decide character by character. What
they decide is the longest of all spellings at the front of the text
(`LongestMark`), for texts of the characters that such marks are made of
(`markChars`). Sigils and brackets are left out: what they make depends
on what is open.

The argument is about the table of spellings. Every spelling of more than
one character goes on from a shorter one (`exists_shorter`), so a mark is
the longest as soon as the character behind it is none that a spelling
goes on with (`longestMark_of_stops`), and which characters these are is
listed once (`Token.goesOnWith`). What a rule has to see to is only that
it looks for these.
-/
import BuildLexer.Proofs.Literal.Digits
import BuildLexer.Proofs.Nesting.Sound
import Mathlib.Data.List.Infix

namespace BuildLexer

open Plan Glyph

-- ============================================================= the marks

/-- Whether the token is a bracket, alone or with colons. -/
def Token.isBracket : Token → Bool
  | punct .leftParen | punct .rightParen | punct .leftBracket
  | punct .rightBracket | punct .leftBrace | punct .rightBrace
  | rule .colonBracket | rule .colonBangBracket
  | rule .colonQuestionBracket | rule .bracketColon => true
  | _ => false

/-- The marks but sigils and brackets. -/
def Token.marks : List Token :=
  all.filter fun t =>
    t.isOperator && !t.isClosure && !t.isDelegate && !t.isBracket

/-- The characters of such marks. -/
def markChars : List Char :=
  ['@', '|', '!', '?', '=', '+', '-', '%', '/', '*', ',', '~', '.', ';',
    ':', '>']

/-- The characters of a spelling. -/
def Token.chars (t : Token) : List Char := t.spelling.toList

/-- A text that begins with a mark, and with no longer one. -/
structure LongestMark (t : Token) (text rest : List Char) : Prop where
  mark : t ∈ Token.marks
  front : text = t.chars ++ rest
  longest : ∀ u ∈ Token.marks, u.chars <+: text →
    u.chars.length ≤ t.chars.length

/-- A text that begins with no mark. -/
def NoMark (text : List Char) : Prop :=
  ∀ u ∈ Token.marks, ¬ u.chars <+: text

-- ========================================================= the spellings

/-- Different marks are spelled differently. -/
theorem chars_inj : ∀ t ∈ Token.marks, ∀ u ∈ Token.marks,
    t.chars = u.chars → t = u := by
  decide +kernel

theorem chars_ne_nil : ∀ t ∈ Token.marks, t.chars ≠ [] := by
  decide +kernel

/-- A text has one longest mark. -/
theorem LongestMark.unique {t u : Token} {text rest rest' : List Char}
    (ht : LongestMark t text rest) (hu : LongestMark u text rest') :
    t = u ∧ rest = rest' := by
  have ht' : t.chars <+: text := ⟨rest, ht.front.symm⟩
  have hu' : u.chars <+: text := ⟨rest', hu.front.symm⟩
  have same : t.chars = u.chars :=
    (List.prefix_of_prefix_length_le ht' hu' (hu.longest t ht.mark ht')
      ).eq_of_length_le (ht.longest u hu.mark hu')
  refine ⟨chars_inj t ht.mark u hu.mark same, ?_⟩
  have both := ht.front.symm.trans hu.front
  rw [same] at both
  exact List.append_cancel_left both

/-- A spelling of these characters that has more than one goes on from a
shorter spelling, and none has more than three. -/
theorem exists_shorter {u : Token} (mark : u ∈ Token.marks)
    (drawn : ∀ c ∈ u.chars, c ∈ markChars) :
    u.chars.length ≤ 3 ∧ (1 < u.chars.length →
      ∃ t ∈ Token.marks, t.chars = u.chars.dropLast) := by
  have checked : ∀ u ∈ Token.marks,
      u.chars.all (fun c => decide (c ∈ markChars)) = true →
        u.chars.length ≤ 3 ∧ (1 < u.chars.length →
          ∃ t ∈ Token.marks, t.chars = u.chars.dropLast) := by
    decide +kernel
  exact checked u mark
    (List.all_eq_true.2 fun c hc => decide_eq_true (drawn c hc))

/-- The characters that a longer spelling goes on with. -/
def Token.goesOnWith : Token → List Char
  | punct .minus => ['-', '>', '+', '=']
  | punct .minusPlus => ['=']
  | punct .plus => ['=']
  | punct .bang => ['=']
  | punct .question => ['=']
  | punct .tilde => ['>']
  | punct .dot => ['.']
  | assign .plain => ['>', '+']
  | assign .sub => ['+']
  | rule .colon => ['=', ':']
  | rule .doubleColon => ['=']
  | _ => []

theorem getLast?_mem_goesOnWith {t u : Token} (ht : t ∈ Token.marks)
    (hu : u ∈ Token.marks) (shorter : u.chars.dropLast = t.chars) {c : Char}
    (last : u.chars.getLast? = some c) : c ∈ t.goesOnWith := by
  have checked : ∀ t ∈ Token.marks, ∀ u ∈ Token.marks,
      u.chars.dropLast = t.chars →
        u.chars.getLast?.all (fun c => decide (c ∈ t.goesOnWith))
          = true := by
    decide +kernel
  have goes := checked t ht u hu shorter
  rw [last] at goes
  exact of_decide_eq_true goes

/-- A mark is the longest if no spelling goes on with the character
behind it. -/
theorem longestMark_of_stops {t : Token} {text rest : List Char}
    (drawn : ∀ c ∈ text, c ∈ markChars) (mark : t ∈ Token.marks)
    (front : text = t.chars ++ rest)
    (stops : ∀ c, rest.head? = some c → c ∉ t.goesOnWith) :
    LongestMark t text rest := by
  refine ⟨mark, front, fun u hu begins => ?_⟩
  -- a longer spelling leads down to one that is longer by one character
  induction size : u.chars.length generalizing u with
  | zero => exact Nat.zero_le _
  | succ length ih =>
      by_contra longer
      rw [Nat.not_le] at longer
      have some_char := List.length_pos_iff.2 (chars_ne_nil t mark)
      have made : ∀ c ∈ u.chars, c ∈ markChars := fun c hc =>
        drawn c (begins.subset hc)
      obtain ⟨v, hv, shorter⟩ := (exists_shorter hu made).2 (by omega)
      have vbegins : v.chars <+: text :=
        shorter ▸ (List.dropLast_prefix _).trans begins
      have vsize : v.chars.length = length := by
        rw [shorter, List.length_dropLast, size, Nat.add_sub_cancel]
      have bound := ih v hv vbegins vsize
      have same : v.chars = t.chars :=
        (List.prefix_of_prefix_length_le vbegins ⟨rest, front.symm⟩
          (vsize ▸ bound)).eq_of_length (by omega)
      obtain ⟨left, hleft⟩ := begins
      rw [← List.dropLast_append_getLast (chars_ne_nil u hu), ← shorter, same,
        front, List.append_assoc] at hleft
      have behind := List.append_cancel_left hleft
      refine stops _ (by rw [← behind]; rfl)
        (getLast?_mem_goesOnWith mark hu (shorter.symm.trans same) ?_)
      exact List.getLast?_eq_some_getLast (chars_ne_nil u hu)

/-- The first three characters tell it. -/
theorem LongestMark.of_take {t : Token} {text rest : List Char}
    (drawn : ∀ c ∈ text, c ∈ markChars)
    (h : LongestMark t (text.take 3) rest) :
    LongestMark t text (rest ++ text.drop 3) where
  mark := h.mark
  front := by
    rw [← List.append_assoc, ← h.front, List.take_append_drop]
  longest u hu begins := by
    have made : ∀ c ∈ u.chars, c ∈ markChars := fun c hc =>
      drawn c (begins.subset hc)
    refine h.longest u hu (List.prefix_take_iff.2 ⟨begins, ?_⟩)
    exact (exists_shorter hu made).1

/-- No mark begins with the head of an arrow. -/
theorem noMark_head (rest : List Char) : NoMark ('>' :: rest) := by
  have first : ∀ u ∈ Token.marks, u.chars.head? ≠ some '>' := by
    decide +kernel
  rintro u hu ⟨left, front⟩
  obtain ⟨c, more, spelled⟩ := List.exists_cons_of_ne_nil (chars_ne_nil u hu)
  refine first u hu ?_
  rw [spelled, List.cons_append] at front
  rw [spelled, (List.cons.inj front).1]
  rfl

-- ============================================================= the rules

/-- A mark of some length that is the longest at the front of a text. -/
def Token.Leads (t : Token) (length : Nat) (text : List Char) : Prop :=
  t.chars.length = length ∧ ∃ rest, LongestMark t text rest

/-- A rule finds the longest mark if it has looked at what the mark may go
on with. -/
theorem leads_of_tail {t : Token} {length : Nat} {text tail : List Char}
    (drawn : ∀ c ∈ text, c ∈ markChars) (mark : t ∈ Token.marks)
    (front : text = t.chars ++ tail) (size : t.chars.length = length)
    (looked : ∀ c more, tail = c :: more → c ∉ t.goesOnWith) :
    t.Leads length text := by
  refine ⟨size, tail, longestMark_of_stops drawn mark front fun c next => ?_⟩
  obtain ⟨more, ht⟩ := List.head?_eq_some_iff.1 next
  exact looked c more ht

section Rules

variable {mode : Mode} {n : Nesting} {c : Char} {token : Token}
  {more : Nat} {text next rest : List Char}

theorem leads_operator? (drawn : ∀ c ∈ text, c ∈ markChars)
    (h : operator? text = some (token, more)) :
    token.Leads (more + 1) text := by
  unfold operator? at h
  split at h
  all_goals cases h
  case h_28 => exact absurd (drawn _ List.mem_cons_self) (by decide)
  -- a shorter mark comes behind the longer ones that go on from it
  all_goals
    refine leads_of_tail drawn (by decide) rfl rfl ?_
    clear drawn
    rintro c more rfl
    simp_all [Token.goesOnWith]

/-- Only the head of an arrow is no operator. -/
theorem eq_head_of_operator? (first : c ∈ markChars) (other : c ≠ ':')
    (h : operator? (c :: next) = none) : c = '>' := by
  unfold operator? at h
  split at h
  case h_29 _ _ _ _ _ _ _ minus _ plus _ bang _ question _ tilde _ dot _ _
      assign atSign bar percent star slash comma semicolon _ =>
    simp only [markChars, List.mem_cons, List.not_mem_nil, or_false] at first
    rcases first with rfl | rfl | rfl | rfl | rfl | rfl | rfl | rfl | rfl
      | rfl | rfl | rfl | rfl | rfl | rfl | rfl
    exacts [(atSign _ rfl).elim, (bar _ rfl).elim, (bang _ rfl).elim,
      (question _ rfl).elim, (assign _ rfl).elim, (plus _ rfl).elim,
      (minus _ rfl).elim, (percent _ rfl).elim, (slash _ rfl).elim,
      (star _ rfl).elim, (comma _ rfl).elim, (tilde _ rfl).elim,
      (dot _ rfl).elim, (semicolon _ rfl).elim, absurd rfl other, rfl]
  all_goals cases h

theorem leads_ruleColon (drawn : ∀ c ∈ ':' :: next, c ∈ markChars) :
    ∃ token more n', ruleColon n next = mark token more n'
      ∧ (n' = n ∨ n' = n.afterRule)
      ∧ token.Leads (more + 1) (':' :: next) := by
  have noBracket : '[' ∉ ':' :: next := fun h =>
    absurd (drawn _ h) (by decide)
  unfold ruleColon
  split
  case h_4 => simp at noBracket
  case h_5 => simp at noBracket
  case h_6 => simp at noBracket
  all_goals
    refine ⟨_, _, _, rfl, by simp, leads_of_tail drawn (by decide) rfl rfl ?_⟩
    clear drawn noBracket
    rintro c more rfl
    simp_all [Token.goesOnWith]

/-- Outside all constructs a colon has only the rule for heads of
rules. -/
theorem colon_of_outside (outside : n.isInside = false) :
    colon n next = ruleColon n next := by
  unfold colon
  rw [if_neg (Nesting.not_has_of_outside outside (by decide)),
    if_neg (Nesting.not_has_of_outside outside (by decide))]

theorem map_char_written (text : List Char) :
    (written text).map Glyph.char = text := by
  unfold written
  rw [List.map_map]
  exact List.map_id text

/-- In code such a character is a colon or has the rule for operators. -/
theorem inCode_of_markChar (drawn : ∀ d ∈ c :: rest, d ∈ markChars) :
    inCode mode n (.scalar c) (written rest)
      = if c = ':' then colon n (rest.take 2)
        else operator n (.scalar c) (written rest) := by
  obtain ⟨first, behind⟩ := List.forall_mem_cons.1 drawn
  have plain : ∀ d ∈ markChars,
      (scalar d).isLetter = false ∧ (scalar d).isDigit = false :=
    forall_mem_of_all (by decide)
  have noDigit : ¬ (written rest).head?.any Glyph.isDigit = true := by
    cases rest with
    | nil => exact Bool.false_ne_true
    | cons d rest =>
        exact Bool.eq_false_iff.1 (plain d (behind d List.mem_cons_self)).2
  unfold inCode special
  rw [(plain c first).1, (plain c first).2, if_neg Bool.false_ne_true,
    if_neg Bool.false_ne_true]
  dsimp only [Glyph.char]
  split
  case h_1 | h_2 | h_3 | h_4 | h_5 | h_6 | h_7 | h_8 | h_9 | h_10 | h_12
      | h_13 | h_14 | h_15 | h_16 => exact absurd first (by decide)
  case h_11 => rw [if_pos rfl, List.map_take, map_char_written]
  case h_17 => rw [if_neg noDigit, if_neg (by decide)]
  case h_18 => rw [if_neg ‹_›]

/-- Outside all constructs a step in code takes the longest mark ahead,
and what begins with none is the head of an arrow. -/
theorem inCode_marks (mode : Mode) (drawn : ∀ d ∈ c :: rest, d ∈ markChars)
    (outside : n.isInside = false) :
    (∃ token more n',
        inCode mode n (.scalar c) (written rest) = mark token more n'
        ∧ (n' = n ∨ n' = n.afterRule)
        ∧ token.Leads (more + 1) (c :: rest))
      ∨ c = '>' ∧ inCode mode n (.scalar c) (written rest)
        = Plan.illegal n (.scalar '>') := by
  have front : c :: rest.take 2 = (c :: rest).take 3 := rfl
  have few : ∀ d ∈ (c :: rest).take 3, d ∈ markChars := fun d hd =>
    drawn d (List.mem_of_mem_take hd)
  rw [inCode_of_markChar drawn]
  by_cases isColon : c = ':'
  · subst isColon
    rw [if_pos rfl, colon_of_outside outside]
    obtain ⟨token, more, n', plan, around, size, left, longest⟩ :=
      leads_ruleColon (n := n) few
    exact .inl ⟨token, more, n', plan, around, size, _,
      longest.of_take drawn⟩
  · rw [if_neg isColon]
    have chars : (scalar c :: (written rest).take 2).map Glyph.char
        = c :: rest.take 2 := by
      rw [List.map_cons, List.map_take, map_char_written]
      rfl
    unfold operator
    rw [chars]
    split
    next token more found =>
      obtain ⟨size, left, longest⟩ := leads_operator? few found
      exact .inl ⟨token, more, n, rfl, .inl rfl, size, _,
        longest.of_take drawn⟩
    next none =>
      obtain rfl := eq_head_of_operator? (drawn c List.mem_cons_self) isColon
        none
      exact .inr ⟨rfl, rfl⟩

end Rules

end BuildLexer
