/-
A step looks no further than a line end or a hash sign behind it.

What a step is going to do depends on the glyphs it reads and on a few
behind them. When it stops before some line end, or before some hash
sign, those few are before it or are that stop itself. So in two texts
that are the same up to the stop the plan is the same, whatever stands
behind it in either (`next_upTo`). The step that reads a line end itself
gives the same plan too, since it looks at nothing else
(`next_newline`).

One lemma for each kind of step, in the order of `Plan.next`. Where a
step runs to a mark, how far it runs is known to be inside; where it
looks ahead, the stop ends what it looks at. The one rule that looks
past a hash sign and reads no more than that is the one that makes a
token of a comment, up to the end of the line.
-/
import BuildLexer.Proofs.Lookahead.Literals
import BuildLexer.Proofs.Nesting.LineEnd

namespace BuildLexer

open Glyph

namespace Plan

variable {mode : Mode} {n : Nesting} {g stop : Glyph} {count : Nat}
  {a b : List Glyph}

-- ============================================================== pieces

/-- A token that ends before the texts part is spelled the same. -/
theorem spanning_upTo {token : Token} (h : UpTo stop count a b)
    {more : Nat} (inside : more ≤ count) :
    spanning token (g :: b) more n = spanning token (g :: a) more n := by
  unfold spanning
  rw [(UpTo.cons g h).take_eq (by omega)]

/-- A run that ends before the texts part is as long in both. -/
theorem runLength_upTo {stops : List Char} (h : UpTo stop count a b)
    (inside : runLength stops a ≤ count) :
    runLength stops b = runLength stops a := by
  unfold runLength at inside ⊢
  rw [h.takeWhile_eq inside]

/-- Plain text that ends before the texts part. -/
theorem raw_upTo {stops : List Char} (h : UpTo stop count a b)
    (inside : runLength stops a ≤ count) :
    spanning (.literal .raw) (g :: b) (runLength stops b) n
      = spanning (.literal .raw) (g :: a) (runLength stops a) n := by
  rw [runLength_upTo h inside, spanning_upTo h inside]

/-- What looks at two characters, and at one where that is the stop,
sees the same. -/
theorem marks_upTo {α : Type} (look : List Char → α)
    (stops : ∀ c, look [stop.char, c] = look [stop.char])
    (h : UpTo stop count a b) :
    look ((b.take 2).map Glyph.char) = look ((a.take 2).map Glyph.char) := by
  have alone (behind : List Glyph) :
      look (((stop :: behind).take 2).map Glyph.char)
        = look [stop.char] := by
    cases behind with
    | nil => rfl
    | cons g behind => exact stops g.char
  cases h with
  | here a b => rw [alone, alone]
  | cons g later =>
      obtain ⟨second, a, b, rfl, rfl⟩ := later.exists_cons
      rfl

-- ========================================================== references

/-- A reference looks at the next glyph alone. -/
theorem reference_upTo (sigil : Sigil) (h : UpTo stop count a b) :
    reference sigil n b = reference sigil n a := by
  unfold reference
  rw [h.head?_eq]

theorem referenceInText_upTo (sigil : Sigil) (h : UpTo stop count a b) :
    referenceInText sigil n b = referenceInText sigil n a := by
  unfold referenceInText
  rw [h.head?_eq, reference_upTo sigil h]

-- ======================================================= recipe lines

/-- A recipe line that ends before the texts part is the same. -/
theorem recipe_upTo (h : UpTo stop count a b)
    (inside : (recipe n a).more ≤ count) : recipe n b = recipe n a := by
  have inside : runLength recipeStops a ≤ count := inside
  unfold recipe
  rw [runLength_upTo h inside]
  dsimp only
  rw [h.take_eq (Nat.le_succ_of_le inside)]

/-- So is a step in a recipe line. -/
theorem inRecipe_upTo (h : UpTo stop count a b)
    (inside : (inRecipe n g a).more ≤ count) :
    inRecipe n g b = inRecipe n g a := by
  revert inside
  unfold inRecipe
  split
  next => exact fun _ => rfl
  split
  next =>
    obtain ⟨g, a, b, rfl, rfl⟩ := h.exists_cons
    exact fun _ => rfl
  split
  next => exact fun _ => referenceInText_upTo _ h
  split
  next => exact fun _ => referenceInText_upTo _ h
  next => exact fun inside => raw_upTo h inside

-- ============================================================ strings

/-- No quote is a stop. -/
theorem twoQuotes_upTo (hs : Stop stop) (h : UpTo stop count a b) :
    twoQuotes b = twoQuotes a := by
  have none (behind : List Glyph) : twoQuotes (stop :: behind) = false := by
    cases behind with
    | nil => cases hs <;> rfl
    | cons => cases hs <;> rfl
  cases h with
  | here a b => rw [none, none]
  | cons g later =>
      obtain ⟨second, a, b, rfl, rfl⟩ := later.exists_cons
      rfl

/-- An escape in a string looks as far as it reads. -/
theorem stringEscape_upTo (hs : Stop stop) (h : UpTo stop count a b)
    (inside : (stringEscape n a).more ≤ count) :
    stringEscape n b = stringEscape n a := by
  unfold stringEscape at inside ⊢
  rw [Escape.read_upTo hs h]
  split
  next length he =>
    rw [he] at inside
    dsimp only at inside ⊢
    rw [h.take_eq (Nat.le_succ_of_le inside)]
  next => rfl
  next length finding he =>
    rw [he] at inside
    dsimp only at inside ⊢
    rw [h.take_eq (Nat.le_succ_of_le inside)]

/-- A step in a string that stops before the texts part is the same. -/
theorem inString_upTo (hs : Stop stop) (h : UpTo stop count a b)
    (inside : (inString n g a).more ≤ count) :
    inString n g b = inString n g a := by
  revert inside
  unfold inString
  dsimp only
  rw [twoQuotes_upTo hs h]
  split
  next =>
    split
    next => exact fun _ => rfl
    split
    next => exact fun _ => rfl
    next => exact fun inside => raw_upTo h inside
  split
  next => exact fun _ => rfl
  split
  next => exact fun inside => stringEscape_upTo hs h inside
  split
  next => exact fun _ => referenceInText_upTo _ h
  split
  next => exact fun _ => referenceInText_upTo _ h
  next => exact fun inside => raw_upTo h inside

-- ============================================================ literals

/-- A name stops at any stop. -/
theorem name_upTo (hs : Stop stop) (h : UpTo stop count a b) :
    name n (g :: b) = name n (g :: a) := by
  obtain ⟨tail, inside⟩ := Name.tailLength_upTo hs h
  unfold name
  simp only [List.drop_one, List.tail_cons]
  rw [tail, (UpTo.cons g h).take_eq (by omega), spanning_upTo h inside]

/-- A number is the same, whatever follows the stop. -/
theorem number_upTo (hs : Stop stop) (h : UpTo stop count a b)
    {start : Nat} (hstart : start ≤ 1)
    (inside : (number n start (g :: a)).more ≤ count) :
    number n start (g :: b) = number n start (g :: a) := by
  have near : start ≤ count + 1 := by omega
  have ahead := (UpTo.cons g h).drop near
  have inside : (Number.read start ((g :: a).drop start)).length - 1
      ≤ count := inside
  unfold number
  dsimp only
  rw [Number.read_upTo hs start ahead, spanning_upTo h inside]

/-- So are a date and a time. -/
theorem digits_upTo (hs : Stop stop) (h : UpTo stop count a b)
    (inside : (digits n (g :: a)).more ≤ count) :
    digits n (g :: b) = digits n (g :: a) := by
  revert inside
  unfold digits
  rw [Temporal.read?_upTo hs (UpTo.cons g h)]
  split
  next temporal _ =>
    intro inside
    have inside : temporal.length - 1 ≤ count := inside
    rw [spanning_upTo h inside]
  next => exact fun inside => number_upTo hs h (Nat.zero_le 1) inside

/-- A raw string that is closed before the texts part is the same. -/
theorem rawString_upTo (hs : Stop stop) (h : UpTo stop count a b)
    (inside : (rawString n (g :: a)).more ≤ count) :
    rawString n (g :: b) = rawString n (g :: a) := by
  have inside : (RawString.read a).length ≤ count := inside
  unfold rawString
  simp only [List.drop_one, List.tail_cons]
  rw [RawString.read_upTo hs h inside, spanning_upTo h inside]

/-- An opening quote looks at two more glyphs. -/
theorem openString_upTo (hs : Stop stop) (h : UpTo stop count a b)
    (inside : (openString n (g :: a)).more ≤ count) :
    openString n (g :: b) = openString n (g :: a) := by
  revert inside
  unfold openString
  simp only [List.drop_one, List.tail_cons]
  rw [twoQuotes_upTo hs h]
  split
  next => exact fun inside => spanning_upTo h inside
  next => exact fun inside => spanning_upTo h inside

-- ================================================== blanks and the rest

/-- A run of blanks that ends before the texts part is the same. -/
theorem blanks_upTo (h : UpTo stop count a b)
    (inside : (blanks n (g :: a)).more ≤ count) :
    blanks n (g :: b) = blanks n (g :: a) := by
  have inside : (a.takeWhile isBlank).length ≤ count := inside
  unfold blanks
  simp only [List.drop_one, List.tail_cons]
  rw [h.takeWhile_eq inside, spanning_upTo h inside]

/-- A comment that is a token reads up to the end of its line. -/
theorem hash_upTo (h : UpTo stop count a b)
    (line : mode.commentTokens = true → stop = newline) :
    hash mode n (g :: b) = hash mode n (g :: a) := by
  unfold hash
  split
  next => rfl
  split
  next tokens =>
    have stops : (stop != newline) = false := by
      rw [line tokens]
      rfl
    have whole := UpTo.cons g h
    rw [whole.takeWhile_eq (whole.length_takeWhile_le stops)]
  next => rfl

theorem backslash_upTo (h : UpTo stop count a b) :
    backslash n b = backslash n a := by
  unfold backslash
  rw [h.head?_eq]

/-- The characters that operators start with. -/
def operatorMarks : List Char :=
  ['-', '+', '!', '?', '~', '.', '=', '@', '|', '%', '*', '/', ',', ';', '[']

/-- What is an operator starts with the mark of one. -/
theorem mem_operatorMarks {c : Char} {next : List Char}
    {found : Token × Nat} (h : operator? (c :: next) = some found) :
    c ∈ operatorMarks := by
  unfold operator? at h
  split at h <;> cases h
  all_goals
    rename_i same
    cases same
    decide

/-- No operator has a stop in it. -/
theorem operator?_stop (hs : Stop stop) (c d : Char) :
    operator? [c, stop.char, d] = operator? [c, stop.char] := by
  by_cases hc : c ∈ operatorMarks
  · simp only [operatorMarks, List.mem_cons, List.not_mem_nil, or_false] at hc
    cases hs <;> rcases hc with rfl | rfl | rfl | rfl | rfl | rfl | rfl | rfl
      | rfl | rfl | rfl | rfl | rfl | rfl | rfl <;> rfl
  · have none (next : List Char) : operator? (c :: next) = none :=
      Option.eq_none_iff_forall_ne_some.2
        fun _ h => hc (mem_operatorMarks h)
    rw [none, none]

/-- An operator looks at two more glyphs, and no stop is in one. -/
theorem operator_upTo (hs : Stop stop) (h : UpTo stop count a b) :
    operator n g b = operator n g a := by
  unfold operator
  rw [List.map_cons, List.map_cons,
    marks_upTo (fun next => operator? (g.char :: next))
      (operator?_stop hs g.char) h]

/-- A colon looks at two more characters. -/
theorem colon_upTo (hs : Stop stop) (h : UpTo stop count a b) :
    colon n ((b.take 2).map Glyph.char)
      = colon n ((a.take 2).map Glyph.char) :=
  marks_upTo (colon n) (fun _ => by cases hs <;> rfl) h

theorem rightBracket_upTo (h : UpTo stop count a b) :
    rightBracket n ((b.take 2).map Glyph.char)
      = rightBracket n ((a.take 2).map Glyph.char) :=
  marks_upTo (rightBracket n) (fun _ => rfl) h

/-- A step at a mark looks no further than it reads, but for a few glyphs
that the stop ends. -/
theorem special_upTo (hs : Stop stop) (h : UpTo stop count a b)
    (line : mode.commentTokens = true → stop = newline)
    (inside : (special mode n g a).more ≤ count) :
    special mode n g b = special mode n g a := by
  revert inside
  unfold special
  dsimp only
  rw [colon_upTo hs h, rightBracket_upTo h, backslash_upTo h,
    reference_upTo _ h, reference_upTo _ h, h.head?_eq,
    operator_upTo hs h, hash_upTo h line]
  split
  next =>
    split
    next => exact fun inside => recipe_upTo h inside
    next => exact fun inside => blanks_upTo h inside
  next => exact fun inside => blanks_upTo h inside
  next => exact fun inside => blanks_upTo h inside
  next => exact fun _ => rfl
  next => exact fun _ => rfl
  next => exact fun _ => rfl
  next => exact fun inside => rawString_upTo hs h inside
  next => exact fun inside => openString_upTo hs h inside
  next => exact fun _ => rfl
  next => exact fun _ => rfl
  next => exact fun _ => rfl
  next => exact fun _ => rfl
  next => exact fun _ => rfl
  next => exact fun _ => rfl
  next => exact fun _ => rfl
  next => exact fun _ => rfl
  next =>
    split
    next => exact fun inside => number_upTo hs h (Nat.le_refl 1) inside
    next => exact fun _ => rfl
  next => exact fun _ => rfl

/-- So it is with any step in code. -/
theorem inCode_upTo (hs : Stop stop) (h : UpTo stop count a b)
    (line : mode.commentTokens = true → stop = newline)
    (inside : (inCode mode n g a).more ≤ count) :
    inCode mode n g b = inCode mode n g a := by
  revert inside
  unfold inCode
  split
  next => exact fun _ => name_upTo hs h
  split
  next => exact fun inside => digits_upTo hs h inside
  next => exact fun inside => special_upTo hs h line inside

-- =============================================================== steps

/-- A step that stops before the texts part is the same in both. -/
theorem next_upTo (hs : Stop stop) (h : UpTo stop count a b)
    (line : mode.commentTokens = true → stop = newline)
    (inside : (next mode n a).more < count) :
    next mode n b = next mode n a := by
  cases h with
  | here a b => cases inside
  | @cons g _ a b later =>
      have settled : n.settle (g :: b) = n.settle (g :: a) := rfl
      have inside := Nat.le_of_lt_succ inside
      revert inside
      show (atGlyph mode (n.settle (g :: a)) g a).more ≤ _
        → atGlyph mode (n.settle (g :: b)) g b
          = atGlyph mode (n.settle (g :: a)) g a
      rw [settled]
      unfold atGlyph
      split
      next => exact fun inside => inRecipe_upTo later inside
      split
      next => exact fun inside => inString_upTo hs later inside
      next => exact fun inside => inCode_upTo hs later line inside

/-- The plans that make a line end, in a recipe line or in code, in a
string that is not closed, and in a call by colons that is not. -/
inductive MakesLineEnd : Plan → Prop
  | plain (n : Nesting) : MakesLineEnd (mark (.punct .lineEnd) 0 n)
  | openString (n : Nesting) :
      MakesLineEnd { mark (.punct .lineEnd) 0 n with
        early := [⟨0, .openString⟩] }
  | openCall (n : Nesting) :
      MakesLineEnd { mark (.punct .lineEnd) 0 n with
        late := [⟨0, .openColonCall⟩] }

/-- At a line end the step is one that makes a line end. -/
theorem makesLineEnd_lineEnd (n : Nesting) : MakesLineEnd (lineEnd n) := by
  unfold lineEnd
  split
  next => exact .openCall _
  next => exact .plain _

/-- A step that makes a line end looks at nothing behind it. -/
theorem next_newline {rest : List Glyph}
    (h : (next mode n (newline :: rest)).token = some (.punct .lineEnd)) :
    ∃ p, MakesLineEnd p ∧ ∀ more, next mode n (newline :: more) = p := by
  have settled (more : List Glyph) :
      next mode n (newline :: more)
        = atGlyph mode (n.settle [newline]) newline more := rfl
  simp only [settled] at h ⊢
  generalize n.settle [newline] = m at h ⊢
  unfold atGlyph at h ⊢
  by_cases hr : m.has .recipeLine = true
  · exact ⟨_, .plain _, fun more => if_pos hr⟩
  simp only [if_neg hr] at h ⊢
  by_cases hq : m.has .quoted = true
  · simp only [if_pos hq] at h ⊢
    have single : ¬ m.has .tripleQuoted = true := by
      intro ht
      rw [inString_newline ht] at h
      cases h
    refine ⟨_, .openString (m.leave {.quoted}), fun more => ?_⟩
    unfold inString
    dsimp only
    rw [if_neg (by decide), if_pos (by simp [single])]
  · simp only [if_neg hq]
    exact ⟨_, makesLineEnd_lineEnd m, fun more => inCode_newline⟩

end Plan

end BuildLexer
