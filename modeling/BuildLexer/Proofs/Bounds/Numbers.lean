/-
The numbers of escapes, handles and positions, with every result checked.

The number of an escape is worked out digit by digit, and each product
and each sum has to be a number of 32 bits (`Escape.value?`). Eight
hexadecimal digits are the most there are, and they just fit.

A handle is a number of 32 bits too, the base of its file with an offset
added. A sum is only too large if the file reaches beyond the last handle
there is (`File.handle?_eq`, `File.contains?_eq`).

The line of an offset is searched for among the line starts. The search
gives a place in the table, which has to be there, and the column is a
difference that must be no less than 0 (`File.position?`). Both depend
on the order of the table (`File.Ordered`): the start of the line is the
last that is not behind the offset (`File.Ordered.lineStarts_eq`).
-/
import BuildLexer.Literal.Escape
import BuildLexer.Proofs.Bounds.Cursor
import BuildLexer.Source.FileSet
import Mathlib.Data.List.Basic

namespace BuildLexer

-- ============================================================== escapes

namespace Escape

/-- The number that some digits write, in 32 bits. -/
def value? (base : Nat) (ds : List Nat) : Option Nat :=
  ds.foldlM (fun n d => do
    let shifted ← Checked.fits? 32 (n * base)
    Checked.fits? 32 (shifted + d)) 0

/-- An escape by `count` hexadecimal digits after a letter. -/
def hexadecimal? (count greatest : Nat) (src : List Glyph) :
    Option Escape := do
  let ds := digits 16 count src
  let n ← value? 16 ds
  if ds.length < count then
    let fault :=
      if (src.drop ds.length).isEmpty then Fault.openEscape
      else .brokenEscape
    some (invalid (ds.length + 1) ⟨ds.length + 1, fault⟩)
  else some (ofNumber (count + 1) greatest n)

/-- The escape behind a backslash. -/
def read? (src : List Glyph) : Option Escape :=
  match src with
  | [] => some (invalid 0 ⟨0, .openEscape⟩)
  | g :: rest =>
    if single.any (g == .scalar ·) then some (valid 1)
    else if g = .newline then some lineJoin
    else if g = .scalar 'x' then hexadecimal? 2 255 rest
    else if g = .scalar 'u' then hexadecimal? 4 0x10FFFF rest
    else if g = .scalar 'U' then hexadecimal? 8 0x10FFFF rest
    else
      match digits 8 3 src with
      | [] => some (invalid 0 ⟨0, .unknownEscape⟩)
      | ds => do
        let n ← value? 8 ds
        some (ofNumber ds.length 255 n)

variable {base count : Nat} {ds : List Nat} {src : List Glyph}

theorem length_digits_le (base count : Nat) (src : List Glyph) :
    (digits base count src).length ≤ count := by
  fun_induction digits base count src with
  | case1 count g rest d hd ih => exact Nat.succ_le_succ ih
  | case2 => exact Nat.zero_le _
  | case3 => exact Nat.zero_le _

theorem lt_of_mem_digits {d : Nat} (h : d ∈ digits base count src) :
    d < base := by
  fun_induction digits base count src with
  | case1 count g rest digit hd ih =>
      rcases List.mem_cons.1 h with rfl | later
      · exact of_decide_eq_true (Option.filter_eq_some_iff.1 hd).2
      · exact ih later
  | case2 => cases h
  | case3 => cases h

/-- From a number on, as long as there is room for the digits. -/
theorem foldlM_eq {n : Nat} (small : ∀ d ∈ ds, d < base)
    (room : (n + 1) * base ^ ds.length ≤ 2 ^ 32) :
    ds.foldlM (fun n d => do
        let shifted ← Checked.fits? 32 (n * base)
        Checked.fits? 32 (shifted + d)) n
      = some (ds.foldl (fun n d => n * base + d) n) := by
  induction ds generalizing n with
  | nil => rfl
  | cons d ds ih =>
      have less : d < base := small d List.mem_cons_self
      have next : (n * base + d + 1) * base ^ ds.length ≤ 2 ^ 32 :=
        calc (n * base + d + 1) * base ^ ds.length
            ≤ (n + 1) * base * base ^ ds.length := by
              apply Nat.mul_le_mul_right
              rw [Nat.succ_mul]
              omega
          _ = (n + 1) * base ^ (d :: ds).length := by
              rw [List.length_cons, Nat.pow_succ, Nat.mul_assoc,
                Nat.mul_comm base]
          _ ≤ 2 ^ 32 := room
      have fits : n * base + d < 2 ^ 32 :=
        calc n * base + d < n * base + d + 1 := Nat.lt_succ_self _
          _ ≤ (n * base + d + 1) * base ^ ds.length :=
              Nat.le_mul_of_pos_right _ (Nat.pow_pos (by omega))
          _ ≤ 2 ^ 32 := next
      rw [List.foldlM_cons, Checked.fits?_of_lt (by omega)]
      dsimp only [Option.bind_eq_bind, Option.bind_some]
      rw [Checked.fits?_of_lt fits, Option.bind_some, List.foldl_cons]
      exact ih (fun d hd => small d (List.mem_cons_of_mem _ hd)) next

/-- Digits that are few enough write a number of 32 bits. -/
theorem value?_digits {most : Nat} (few : base ^ most ≤ 2 ^ 32)
    (positive : 0 < base) (src : List Glyph) :
    value? base (digits base most src)
      = some (value base (digits base most src)) := by
  refine foldlM_eq (fun d hd => lt_of_mem_digits hd) ?_
  rw [Nat.zero_add, Nat.one_mul]
  exact Nat.le_trans
    (Nat.pow_le_pow_right positive (length_digits_le base most src)) few

theorem hexadecimal?_eq (few : count ≤ 8) (greatest : Nat)
    (src : List Glyph) :
    hexadecimal? count greatest src
      = some (hexadecimal count greatest src) := by
  have small : 16 ^ count ≤ 2 ^ 32 :=
    Nat.le_trans (Nat.pow_le_pow_right (by decide) few) (by decide)
  unfold hexadecimal? hexadecimal
  dsimp only
  rw [value?_digits small (by decide)]
  dsimp only [Option.bind_eq_bind, Option.bind_some]
  split <;> rfl

/-- No number of an escape is too large on the way. -/
theorem read?_eq (src : List Glyph) : read? src = some (read src) := by
  cases src with
  | nil => rfl
  | cons g rest =>
      have octal : (match digits 8 3 (g :: rest) with
            | [] => some (invalid 0 ⟨0, .unknownEscape⟩)
            | ds => do
              let n ← value? 8 ds
              some (ofNumber ds.length 255 n))
          = some (match digits 8 3 (g :: rest) with
            | [] => invalid 0 ⟨0, .unknownEscape⟩
            | ds => ofNumber ds.length 255 (value 8 ds)) := by
        have read : value? 8 (digits 8 3 (g :: rest))
            = some (value 8 (digits 8 3 (g :: rest))) :=
          value?_digits (by decide) (by decide) (g :: rest)
        split
        next => rfl
        next =>
          rw [read]
          rfl
      unfold read? read
      dsimp only
      rw [hexadecimal?_eq (by decide), hexadecimal?_eq (by decide),
        hexadecimal?_eq (by decide), octal]
      split
      next => rfl
      split
      next => rfl
      split
      next => rfl
      split
      next => rfl
      split
      next => rfl
      next => rfl

end Escape

-- ============================================================== handles

namespace File

/-- The handle of an offset, in 32 bits. -/
def handle? (f : File) (offset : Nat) : Option Handle := do
  let index ← Checked.fits? 32 (f.base + min offset f.size)
  some ⟨index⟩

/-- Whether a handle is one of the file's, where the last of them is
worked out in 32 bits. -/
def contains? (f : File) (h : Handle) : Option Bool :=
  if f.base ≤ h.index then do
    let last ← Checked.fits? 32 (f.base + f.size)
    some (h.index ≤ last)
  else some false

/-- No handle is too large where the last one is not. -/
theorem handle?_eq {f : File} (room : f.base + f.size ≤ FileSet.lastHandle)
    (offset : Nat) : f.handle? offset = some (f.handle offset) := by
  have inside := Nat.min_le_right offset f.size
  have fits : f.base + min offset f.size < 2 ^ 32 := by
    unfold FileSet.lastHandle at room
    omega
  unfold handle?
  rw [Checked.fits?_of_lt fits]
  rfl

theorem contains?_eq {f : File} (room : f.base + f.size ≤ FileSet.lastHandle)
    (h : Handle) : f.contains? h = some (f.contains h) := by
  have fits : f.base + f.size < 2 ^ 32 := by
    unfold FileSet.lastHandle at room
    omega
  unfold contains? contains
  by_cases behind : f.base ≤ h.index
  · rw [if_pos behind, Checked.fits?_of_lt fits, decide_eq_true behind]
    rfl
  · rw [if_neg behind, decide_eq_false behind]
    rfl

end File

-- ============================================================ positions

namespace Checked

/-- Where a number is in an ascending list, or else where it would have
to be put. -/
def search (items : List Nat) (n : Nat) : Except Nat Nat :=
  if n ∈ items then .ok (items.idxOf n)
  else .error (items.countP (· < n))

/-- A search finds the last item that is not above the number, or the
place behind it. -/
theorem search_of_split {before after : List Nat} {last n : Nat}
    (earlier : ∀ item ∈ before, item < last) (inside : last ≤ n)
    (behind : ∀ item ∈ after, n < item) :
    search (before ++ last :: after) n
      = if n = last then .ok before.length
        else .error (before.length + 1) := by
  unfold search
  by_cases found : n = last
  · have first : n ∉ before := fun hb =>
      Nat.lt_irrefl _ (Nat.lt_of_lt_of_le (earlier n hb) inside)
    rw [if_pos found, ← found,
      if_pos (List.mem_append_right _ List.mem_cons_self),
      List.idxOf_append_of_notMem first, List.idxOf_cons_self]
    rfl
  · have missing : n ∉ before ++ last :: after := by
      rw [List.mem_append, List.mem_cons]
      rintro (hb | here | ha)
      · have := earlier n hb
        omega
      · exact found here
      · exact Nat.lt_irrefl _ (behind n ha)
    have all : before.countP (· < n) = before.length := by
      rw [List.countP_eq_length]
      intro item hi
      have := earlier item hi
      exact decide_eq_true (by omega)
    have none : after.countP (· < n) = 0 := by
      rw [List.countP_eq_zero]
      intro item hi
      have := behind item hi
      simp
      omega
    have here : (last :: after).countP (· < n)
        = after.countP (· < n) + 1 :=
      List.countP_cons_of_pos (decide_eq_true (by omega))
    rw [if_neg found, if_neg missing, List.countP_append, all, here, none]

end Checked

namespace File

/-- A file whose lines are in order. -/
def Ordered (f : File) : Prop := f.lineStarts.Pairwise (· < ·)

/-- The number of the line of an offset, found by a search. -/
def searchLine (f : File) (offset : Nat) : Nat :=
  match Checked.search f.lineStarts offset with
  | .ok i => i + 1
  | .error i => i - 1 + 1

/-- The position of a handle, by the lines known so far. -/
def position? (f : File) (h : Handle) : Option Position :=
  if h.isValid && f.contains h then do
    let offset := f.offset h
    let line := f.searchLine offset
    let start ← f.lineStarts[line - 1]?
    let behind ← Checked.sub? offset start
    some {
      filename := f.name
      offset := offset
      line := line
      column := behind + 1 }
  else some Position.unknown

variable {f : File}

/-- The first line and some later ones, of which the latest is named. -/
theorem exists_before (starts : List Nat) :
    ∃ before, 0 :: starts.reverse = before ++ [starts.headD 0]
      ∧ before.length = starts.length := by
  cases starts with
  | nil => exact ⟨[], rfl, rfl⟩
  | cons latest starts =>
      refine ⟨0 :: starts.reverse, ?_, ?_⟩
      · rw [List.reverse_cons]
        rfl
      · rw [List.length_cons, List.length_cons, List.length_reverse]

/-- The table around the line of an offset: the lines before it, the line
itself, and those that start behind the offset. -/
theorem lineStarts_eq (f : File) (offset : Nat) :
    ∃ before after,
      f.lineStarts = before ++ f.lineStart offset :: after
        ∧ before.length + 1 = f.lineOf offset
        ∧ f.lineStart offset ≤ offset
        ∧ ∀ start ∈ after, offset < start := by
  obtain ⟨before, table, count⟩ := exists_before (f.startsUpTo offset)
  refine ⟨before, (f.laterStarts.takeWhile (offset < ·)).reverse, ?_,
    congrArg (· + 1) count, ?_, ?_⟩
  · have parts : f.laterStarts
        = f.laterStarts.takeWhile (offset < ·) ++ f.startsUpTo offset :=
      List.takeWhile_append_dropWhile.symm
    calc f.lineStarts
        = 0 :: (f.laterStarts.takeWhile (offset < ·)
            ++ f.startsUpTo offset).reverse :=
          congrArg (fun starts : List Nat => 0 :: starts.reverse) parts
      _ = before ++ f.lineStart offset
            :: (f.laterStarts.takeWhile (offset < ·)).reverse := by
          rw [List.reverse_append, ← List.cons_append, table,
            List.append_assoc, List.singleton_append]
          rfl
  · unfold lineStart
    cases hs : f.startsUpTo offset with
    | nil => exact Nat.zero_le _
    | cons start later =>
        have stops := List.head?_dropWhile_not (offset < ·) f.laterStarts
        unfold startsUpTo at hs
        rw [hs] at stops
        simpa using stops
  · intro start hs
    have passed := List.all_eq_true.1 List.all_takeWhile _
      (List.mem_reverse.1 hs)
    exact of_decide_eq_true passed

/-- The start of a line stands in the table at the number of the line. -/
theorem getElem?_lineOf (f : File) (offset : Nat) :
    f.lineStarts[f.lineOf offset - 1]? = some (f.lineStart offset) := by
  obtain ⟨before, after, table, count, -, -⟩ := f.lineStarts_eq offset
  rw [table, ← count, Nat.add_sub_cancel,
    List.getElem?_append_right (Nat.le_refl _), Nat.sub_self]
  rfl

theorem lineStart_le (f : File) (offset : Nat) :
    f.lineStart offset ≤ offset := by
  obtain ⟨-, -, -, -, inside, -⟩ := f.lineStarts_eq offset
  exact inside

/-- A file that knows no lines yet. -/
theorem ordered_of_new (new : f.laterStarts = []) : f.Ordered := by
  unfold Ordered lineStarts
  rw [new]
  exact List.pairwise_singleton _ _

namespace Ordered

theorem addLine (h : f.Ordered) (start : Nat) :
    (f.addLine start).Ordered := by
  by_cases new : f.lastStart < start ∧ start < f.size
  · have table : (f.addLine start).lineStarts = f.lineStarts ++ [start] := by
      rw [addLine_of_new new.1 new.2]
      exact congrArg (0 :: ·) List.reverse_cons
    unfold Ordered at h ⊢
    obtain ⟨before, last, -⟩ := exists_before f.laterStarts
    have last : f.lineStarts = before ++ [f.lastStart] := last
    rw [table, List.pairwise_append]
    refine ⟨h, List.pairwise_singleton _ _, fun other ho later hl => ?_⟩
    obtain rfl := List.mem_singleton.1 hl
    rw [last] at h ho
    rcases List.mem_append.1 ho with ho | ho
    · exact Nat.lt_trans
        ((List.pairwise_append.1 h).2.2 other ho _ List.mem_cons_self) new.1
    · exact List.mem_singleton.1 ho ▸ new.1
  · rw [addLine_eq_self_iff.2 new]
    exact h

/-- The search finds the line. -/
theorem searchLine_eq (h : f.Ordered) (offset : Nat) :
    f.searchLine offset = f.lineOf offset := by
  obtain ⟨before, after, table, count, inside, behind⟩ :=
    f.lineStarts_eq offset
  unfold Ordered at h
  rw [table, List.pairwise_append] at h
  have earlier : ∀ start ∈ before, start < f.lineStart offset :=
    fun start hs => h.2.2 start hs _ List.mem_cons_self
  unfold searchLine
  rw [table, Checked.search_of_split earlier inside behind, ← count]
  by_cases found : offset = f.lineStart offset
  · rw [if_pos found]
  · rw [if_neg found]
    rfl

/-- A position is found without leaving the table. -/
theorem position?_eq (ordered : f.Ordered) (h : Handle) :
    f.position? h = some (f.position h) := by
  unfold position? position
  split
  next =>
    dsimp only
    rw [ordered.searchLine_eq, f.getElem?_lineOf]
    dsimp only [Option.bind_eq_bind, Option.bind_some]
    rw [Checked.sub?_of_le (f.lineStart_le _)]
    rfl
  next => rfl

end Ordered

end File

end BuildLexer
