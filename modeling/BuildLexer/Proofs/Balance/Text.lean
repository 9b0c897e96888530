/-
Text with brackets in pairs, and the level at which a scanner reads it.

A call in brackets is entered at level 1. Inside, the scanner keeps one
number and no record of which brackets are open: a parenthesis goes a
level up, a brace does so at level 1 only, and a closing bracket goes a
level down, except that one of the other kind than the call's does not
leave the call (`levelAfter`). A call ends where the level becomes 0
(`Ends`).

So braces deeper than level 1 take away a level that they did not add,
and a text can be well nested and still end the call before its own
bracket does. `Nested.level` follows the pairs instead of the characters
and says which texts do (`ends_iff_level`); those whose braces all stand
directly in the call do not (`level_of_direct`).
-/

namespace BuildLexer

-- ================================================================ texts

/-- The brackets that a call can be in. -/
inductive Bracket where
  | paren
  | brace
  deriving DecidableEq

namespace Bracket

def opening : Bracket → Char
  | paren => '('
  | brace => '\x7b'

def closing : Bracket → Char
  | paren => ')'
  | brace => '\x7d'

end Bracket

/-- Whether a character is a bracket. -/
def IsBracket (c : Char) : Prop :=
  c = '(' ∨ c = ')' ∨ c = '\x7b' ∨ c = '\x7d'

/-- Letters, blanks and well-nested pairs of brackets. -/
inductive Nested where
  | nil
  | plain (c : Char) (ok : c = ' ' ∨ c.isAlpha = true) (rest : Nested)
  | pair (b : Bracket) (inner rest : Nested)

/-- The characters of such a text. -/
def Nested.chars : Nested → List Char
  | nil => []
  | plain c _ rest => c :: rest.chars
  | pair b inner rest =>
    b.opening :: (inner.chars ++ b.closing :: rest.chars)

-- =============================================================== levels

/-- The level behind an opening bracket. -/
def Bracket.raise (b : Bracket) (level : Nat) : Nat :=
  match b with
  | paren => level + 1
  | brace => if level = 1 then 2 else level

/-- The level behind a closing bracket in a call. -/
def Bracket.lower (call b : Bracket) (level : Nat) : Nat :=
  if b = call ∨ 1 < level then level - 1 else level

/-- The level behind a character in a call. -/
def levelAfter (call : Bracket) (c : Char) (level : Nat) : Nat :=
  if c = '(' then Bracket.paren.raise level
  else if c = '\x7b' then Bracket.brace.raise level
  else if c = ')' then call.lower .paren level
  else if c = '\x7d' then call.lower .brace level
  else level

/-- Text at a level whose last character, and no other, ends the call. -/
inductive Ends (call : Bracket) : Nat → List Char → Prop
  | last {level : Nat} {c : Char} (out : levelAfter call c level = 0) :
      Ends call level [c]
  | more {level : Nat} {c : Char} {text : List Char}
      (inside : levelAfter call c level ≠ 0)
      (ends : Ends call (levelAfter call c level) text) :
      Ends call level (c :: text)

/-- The level behind a text, if the call has not ended in it. -/
def Nested.level (call : Bracket) : Nested → Nat → Option Nat
  | nil, level => some level
  | plain _ _ rest, level => rest.level call level
  | pair b inner rest, level =>
    (inner.level call (b.raise level)).bind fun inside =>
      if call.lower b inside = 0 then none
      else rest.level call (call.lower b inside)

variable {call : Bracket} {level : Nat}

-- ============================================================ one by one

/-- Opening brackets raise the level, -/
theorem levelAfter_opening (call b : Bracket) (level : Nat) :
    levelAfter call b.opening level = b.raise level := by
  cases b with
  | paren => rfl
  | brace => rfl

/-- closing brackets lower it, -/
theorem levelAfter_closing (call b : Bracket) (level : Nat) :
    levelAfter call b.closing level = call.lower b level := by
  cases b with
  | paren => rfl
  | brace => rfl

/-- and other characters leave it. -/
theorem levelAfter_other (call : Bracket) {c : Char}
    (h : ¬ IsBracket c) (level : Nat) :
    levelAfter call c level = level := by
  unfold IsBracket at h
  rw [not_or, not_or, not_or] at h
  obtain ⟨h1, h2, h3, h4⟩ := h
  unfold levelAfter
  rw [if_neg h1, if_neg h3, if_neg h2, if_neg h4]

/-- Spaces and letters are no brackets. -/
theorem not_isBracket_of_plain {c : Char}
    (h : c = ' ' ∨ c.isAlpha = true) : ¬ IsBracket c := by
  intro hb
  unfold IsBracket at hb
  rcases hb with rfl | rfl | rfl | rfl
  · exact h.elim (by decide) (by decide)
  · exact h.elim (by decide) (by decide)
  · exact h.elim (by decide) (by decide)
  · exact h.elim (by decide) (by decide)

/-- Where a character leads out of the call, the text has to end with
it. -/
theorem ends_of_out {c : Char} {text : List Char}
    (h : levelAfter call c level = 0) :
    Ends call level (c :: text) ↔ text = [] := by
  constructor
  · intro he
    cases he with
    | last _ => rfl
    | more inside _ => exact absurd h inside
  · intro ht
    rw [ht]
    exact Ends.last h

/-- Where it does not, the text behind it has to end the call. -/
theorem ends_of_inside {c : Char} {text : List Char}
    (h : levelAfter call c level ≠ 0) :
    Ends call level (c :: text)
      ↔ Ends call (levelAfter call c level) text := by
  constructor
  · intro he
    cases he with
    | last out => exact absurd out h
    | more _ ends => exact ends
  · intro he
    exact Ends.more h he

/-- Other characters make no difference. -/
theorem ends_of_others {span text : List Char} (hl : 0 < level)
    (h : ∀ c ∈ span, ¬ IsBracket c) :
    Ends call level (span ++ text) ↔ Ends call level text := by
  induction span with
  | nil => exact Iff.rfl
  | cons c span ih =>
      have same := levelAfter_other call (h c List.mem_cons_self) level
      have inside : levelAfter call c level ≠ 0 := by
        rw [same]
        exact Nat.ne_of_gt hl
      rw [List.cons_append, ends_of_inside inside, same]
      exact ih fun d hd => h d (List.mem_cons_of_mem c hd)

-- ============================================================== by pairs

/-- Within a call an opening bracket stays within. -/
theorem raise_pos (b : Bracket) (h : 0 < level) : 0 < b.raise level := by
  cases b with
  | paren => exact Nat.succ_pos level
  | brace =>
      unfold Bracket.raise
      dsimp only
      split
      · exact Nat.two_pos
      · exact h

/-- In a call the level is positive. -/
theorem Nested.level_pos {w : Nested} (h : 0 < level) {behind : Nat}
    (hw : w.level call level = some behind) : 0 < behind := by
  induction w generalizing level behind with
  | nil =>
      obtain rfl := Option.some.inj hw
      exact h
  | plain c ok rest ih => exact ih h hw
  | pair b inner rest _ ih =>
      obtain ⟨inside, -, hr⟩ := Option.bind_eq_some_iff.1 hw
      split at hr
      next => cases hr
      next out => exact ih (Nat.pos_of_ne_zero out) hr

/-- Behind the inner text of a pair. -/
theorem ends_closing {b : Bracket} {rest : Nested} {tail : List Char}
    (ht : tail ≠ []) {inside : Nat}
    (ih : ∀ {level : Nat}, 0 < level →
      (Ends call level (rest.chars ++ tail)
        ↔ ∃ behind, rest.level call level = some behind
          ∧ Ends call behind tail)) :
    Ends call inside (b.closing :: (rest.chars ++ tail))
      ↔ ∃ behind,
        (if call.lower b inside = 0 then none
          else rest.level call (call.lower b inside)) = some behind
        ∧ Ends call behind tail := by
  have lowered := levelAfter_closing call b inside
  by_cases out : call.lower b inside = 0
  · rw [if_pos out, ends_of_out (lowered.trans out)]
    constructor
    · intro he
      exact absurd (List.append_eq_nil_iff.1 he).2 ht
    · intro he
      obtain ⟨behind, hb, -⟩ := he
      cases hb
  · rw [if_neg out, ends_of_inside (lowered ▸ out), lowered]
    exact ih (Nat.pos_of_ne_zero out)

/-- The levels of a text are those of its pairs. -/
theorem ends_append {w : Nested} (h : 0 < level) {tail : List Char}
    (ht : tail ≠ []) :
    Ends call level (w.chars ++ tail)
      ↔ ∃ behind, w.level call level = some behind
        ∧ Ends call behind tail := by
  induction w generalizing level tail with
  | nil =>
      constructor
      · intro he
        exact ⟨level, rfl, he⟩
      · intro he
        obtain ⟨behind, hb, he⟩ := he
        obtain rfl := Option.some.inj hb
        exact he
  | plain c ok rest ih =>
      have span : ∀ d ∈ [c], ¬ IsBracket d := by
        intro d hd
        rw [List.mem_singleton.1 hd]
        exact not_isBracket_of_plain ok
      have skipped : Ends call level (c :: rest.chars ++ tail)
          ↔ Ends call level (rest.chars ++ tail) :=
        ends_of_others h span
      exact skipped.trans (ih h ht)
  | pair b inner rest ihi ihr =>
      have raised := raise_pos b h
      have opened := levelAfter_opening call b level
      have inside : levelAfter call b.opening level ≠ 0 := by
        rw [opened]
        exact Nat.ne_of_gt raised
      show Ends call level
        (b.opening :: (inner.chars ++ b.closing :: rest.chars ++ tail)) ↔ _
      rw [ends_of_inside inside, opened, List.append_assoc,
        List.cons_append, ihi raised (List.cons_ne_nil _ _)]
      constructor
      · intro he
        obtain ⟨within, hw, he⟩ := he
        obtain ⟨behind, hb, he⟩ :=
          (ends_closing ht fun hl => ihr hl ht).1 he
        exact ⟨behind, Option.bind_eq_some_iff.2 ⟨within, hw, hb⟩, he⟩
      · intro he
        obtain ⟨behind, hb, he⟩ := he
        obtain ⟨within, hw, hb⟩ := Option.bind_eq_some_iff.1 hb
        exact ⟨within, hw,
          (ends_closing ht fun hl => ihr hl ht).2 ⟨behind, hb, he⟩⟩

/-- A call ends with its own bracket when that is read at level 1. -/
theorem ends_iff_level (w : Nested) :
    Ends call 1 (w.chars ++ [call.closing])
      ↔ w.level call 1 = some 1 := by
  rw [ends_append Nat.one_pos (List.cons_ne_nil _ _)]
  have closes {behind : Nat} (hp : 0 < behind) :
      Ends call behind [call.closing] ↔ behind = 1 := by
    have lowered := levelAfter_closing call call behind
    unfold Bracket.lower at lowered
    rw [if_pos (Or.inl rfl)] at lowered
    constructor
    · intro he
      cases he with
      | last out => omega
      | more _ ends => cases ends
    · intro hb
      subst hb
      exact Ends.last lowered
  constructor
  · intro he
    obtain ⟨behind, hw, he⟩ := he
    rw [hw, (closes (w.level_pos Nat.one_pos hw)).1 he]
  · intro hw
    exact ⟨1, hw, (closes Nat.one_pos).2 rfl⟩

-- ======================================================= braces in a call

/-- No braces at all. -/
def Nested.Braceless : Nested → Prop
  | nil => True
  | plain _ _ rest => rest.Braceless
  | pair b inner rest => b = .paren ∧ inner.Braceless ∧ rest.Braceless

/-- No braces inside other brackets. -/
def Nested.Direct : Nested → Prop
  | nil => True
  | plain _ _ rest => rest.Direct
  | pair _ inner rest => inner.Braceless ∧ rest.Direct

/-- Parentheses leave each level as it was. -/
theorem Nested.level_of_braceless {w : Nested} (hw : w.Braceless)
    (h : 0 < level) : w.level call level = some level := by
  induction w generalizing level with
  | nil => rfl
  | plain c ok rest ih => exact ih hw h
  | pair b inner rest ihi ihr =>
      obtain ⟨rfl, hi, hr⟩ := hw
      have back : call.lower .paren (level + 1) = level := by
        unfold Bracket.lower
        rw [if_pos (Or.inr (Nat.succ_lt_succ h)), Nat.add_sub_cancel]
      show ((inner.level call (level + 1)).bind _) = _
      rw [ihi hi (Nat.succ_pos level), Option.bind_some, back,
        if_neg (Nat.ne_of_gt h)]
      exact ihr hr h

/-- Directly in the call braces do too. -/
theorem Nested.level_of_direct {w : Nested} (hw : w.Direct) :
    w.level call 1 = some 1 := by
  induction w with
  | nil => rfl
  | plain c ok rest ih => exact ih hw
  | pair b inner rest _ ihr =>
      obtain ⟨hi, hr⟩ := hw
      have raised : b.raise 1 = 2 := by
        cases b with
        | paren => rfl
        | brace => rfl
      have back : call.lower b 2 = 1 := by
        unfold Bracket.lower
        rw [if_pos (Or.inr (Nat.lt_succ_self 1))]
      unfold level
      rw [raised, level_of_braceless hi Nat.two_pos, Option.bind_some, back,
        if_neg Nat.one_ne_zero]
      exact ihr hr

end BuildLexer
