/-
Where a raw string ends.

The end of a raw string is told from the bytes behind its first quote
(`RawString.Ends`). Each of the two loops goes over characters up to the
first place where the string is over (`RawString.Reaches`). Among the
bytes that a loop passes with a character, none but the first can be a
quote, a backslash or a newline (`Glyph.eq_of_ascii_within`), so the
first place among the characters is the first among the bytes.

A raw string that is left open is told of at its first quote, and
nowhere else (`Scanner.raw_strings_end`).
-/
import BuildLexer.Proofs.Bounds.Places
import BuildLexer.Proofs.Join.Lines
import BuildLexer.Proofs.Lookahead.Literals
import BuildLexer.Proofs.Scanner.Told
import Mathlib.Order.Bounds.Basic

namespace BuildLexer

open Glyph

-- ============================================================ the places

namespace RawString

/-- A quote stands at a place. -/
def QuoteAt (source : List UInt8) (i : Nat) : Prop :=
  source[i]? = some (ascii '\x27')

def BackslashAt (source : List UInt8) (i : Nat) : Prop :=
  source[i]? = some (ascii '\\')

def NewlineAt (source : List UInt8) (i : Nat) : Prop :=
  source[i]? = some (ascii '\n')

def ThreeQuotesAt (source : List UInt8) (i : Nat) : Prop :=
  QuoteAt source i ∧ QuoteAt source (i + 1) ∧ QuoteAt source (i + 2)

instance (source : List UInt8) (i : Nat) :
    Decidable (QuoteAt source i) :=
  inferInstanceAs (Decidable (source[i]? = some (ascii '\x27')))

instance (source : List UInt8) (i : Nat) :
    Decidable (BackslashAt source i) :=
  inferInstanceAs (Decidable (source[i]? = some (ascii '\\')))

instance (source : List UInt8) (i : Nat) :
    Decidable (NewlineAt source i) :=
  inferInstanceAs (Decidable (source[i]? = some (ascii '\n')))

instance (source : List UInt8) (i : Nat) :
    Decidable (ThreeQuotesAt source i) :=
  inferInstanceAs (Decidable (_ ∧ _))

/-- A quote beyond the first one that no backslash directly precedes, on
the same line. -/
structure Closing (source : List UInt8) (start e : Nat) : Prop where
  beyond : start < e
  quote : QuoteAt source e
  bare : ¬ BackslashAt source (e - 1)
  line : ∀ i, start < i → i < e → ¬ NewlineAt source i

/-- Where the raw string ends whose first quote stands at a place, and
whether it is closed there. -/
inductive Ends (source : List UInt8) (start : Nat) : Nat → Bool → Prop
  | empty :
      QuoteAt source (start + 1) → ¬ QuoteAt source (start + 2) →
      Ends source start (start + 2) true
  | triple {e : Nat} :
      ThreeQuotesAt source start →
      IsLeast {e | start + 3 ≤ e ∧ ThreeQuotesAt source e} e →
      Ends source start (e + 3) true
  | openTriple :
      ThreeQuotesAt source start →
      (∀ e, start + 3 ≤ e → ¬ ThreeQuotesAt source e) →
      Ends source start source.length false
  | single {e : Nat} :
      ¬ QuoteAt source (start + 1) →
      IsLeast {e | Closing source start e} e →
      Ends source start (e + 1) true
  | openSingle {stop : Nat} :
      ¬ QuoteAt source (start + 1) →
      (∀ e, ¬ Closing source start e) →
      IsLeast {i | start < i ∧ (NewlineAt source i ∨ i = source.length)}
        stop →
      Ends source start stop false

variable {source : List UInt8} {start stop stop' i : Nat}
  {closed closed' : Bool}

/-- A string has one end. -/
theorem Ends.unique (h : Ends source start stop closed)
    (h' : Ends source start stop' closed') :
    stop = stop' ∧ closed = closed' := by
  cases h with
  | empty second third =>
      cases h' with
      | empty => exact ⟨rfl, rfl⟩
      | triple three => exact absurd three.2.2 third
      | openTriple three => exact absurd three.2.2 third
      | single other => exact absurd second other
      | openSingle other => exact absurd second other
  | triple three first =>
      cases h' with
      | empty _ third => exact absurd three.2.2 third
      | triple _ first' => exact ⟨by rw [first.unique first'], rfl⟩
      | openTriple _ none =>
          exact absurd first.1.2 (none _ first.1.1)
      | single other => exact absurd three.2.1 other
      | openSingle other => exact absurd three.2.1 other
  | openTriple three none =>
      cases h' with
      | empty _ third => exact absurd three.2.2 third
      | triple _ first => exact absurd first.1.2 (none _ first.1.1)
      | openTriple => exact ⟨rfl, rfl⟩
      | single other => exact absurd three.2.1 other
      | openSingle other => exact absurd three.2.1 other
  | single other first =>
      cases h' with
      | empty second => exact absurd second other
      | triple three => exact absurd three.2.1 other
      | openTriple three => exact absurd three.2.1 other
      | single _ first' => exact ⟨by rw [first.unique first'], rfl⟩
      | openSingle _ none => exact absurd first.1 (none _)
  | openSingle other none first =>
      cases h' with
      | empty second => exact absurd second other
      | triple three => exact absurd three.2.1 other
      | openTriple three => exact absurd three.2.1 other
      | single _ first' => exact absurd first'.1 (none _)
      | openSingle _ _ first' => exact ⟨first.unique first', rfl⟩

end RawString

-- ================================================= bytes of a character

namespace Glyph

variable {source : List UInt8} {i j : Nat} {g : Glyph} {rest : List Glyph}

/-- What follows a glyph is ahead of the place behind it. -/
theorem ahead_behind (h : ahead source i = g :: rest) :
    i + g.width ≤ source.length ∧ ahead source (i + g.width) = rest := by
  have bytes := allBytes_ofBytes (source.drop i)
  have size := totalWidth_ofBytes (source.drop i)
  have cut : ofBytes (source.drop i) = [g] ++ rest := h
  have behind := ofBytes_drop cut
  unfold ahead at h ⊢
  rw [h, totalWidth_cons, List.length_drop] at size
  have := g.width_pos
  refine ⟨by omega, ?_⟩
  rwa [List.drop_drop] at behind

/-- An ASCII character within a glyph is the glyph. -/
theorem eq_of_ascii_within {c : Char} (hc : c.toNat < 0x80)
    (h : ahead source i = g :: rest) (begins : i ≤ j)
    (within : j < i + g.width) (here : source[j]? = some (ascii c)) :
    g = scalar c ∧ j = i := by
  have member : ascii c ∈ g.bytes := by
    have bytes : source.drop i = g.bytes ++ allBytes rest := by
      have whole := allBytes_ofBytes (source.drop i)
      unfold ahead at h
      rw [h] at whole
      exact whole.symm
    have place : (source.drop i)[j - i]? = some (ascii c) := by
      rw [List.getElem?_drop, Nat.add_sub_cancel' begins, here]
    rw [bytes, List.getElem?_append_left
      (by rw [length_bytes]; omega)] at place
    exact List.mem_of_getElem? place
  have one : g.width = 1 := by
    rw [← length_bytes]
    cases g with
    | scalar d =>
        refine Utf8.length_encode_of_ascii member ?_
        rwa [toNat_ascii hc]
    | broken b => rfl
  obtain rfl : j = i := by omega
  have first := (head?_ahead_iff hc).2 here
  rw [h] at first
  exact ⟨Option.some.inj first, rfl⟩

end Glyph

-- ============================================================ the loops

namespace RawString

variable {source : List UInt8} {stops closes : Nat → Prop}
  {quotes i e : Nat} {src : List Glyph} {r : RawString}

/-- A string that is read from a place on, up to the first place where it
is over, and through the quotes there if they close it. -/
structure Reaches (stops closes : Nat → Prop) (quotes i : Nat)
    (src : List Glyph) (r : RawString) (e : Nat) : Prop where
  first : IsLeast {e | i ≤ e ∧ stops e} e
  length : i + totalWidth (src.take r.length)
    = if r.closed then e + quotes else e
  closed : r.closed = true ↔ closes e

theorem isLeast_here (h : stops i) : IsLeast {e | i ≤ e ∧ stops e} i :=
  ⟨⟨Nat.le_refl i, h⟩, fun _ he => he.1⟩

/-- The string goes on behind a character at which it is not over. -/
theorem Reaches.behind {g : Glyph}
    (on : ∀ j, i ≤ j → j < i + g.width → ¬ stops j)
    (h : Reaches stops closes quotes (i + g.width) src r e) :
    Reaches stops closes quotes i (g :: src) (r.extend 1) e where
  first := by
    obtain ⟨⟨beyond, here⟩, least⟩ := h.first
    refine ⟨⟨by omega, here⟩, fun j ⟨begins, hj⟩ => ?_⟩
    by_cases within : j < i + g.width
    · exact absurd hj (on j begins within)
    · exact least ⟨by omega, hj⟩
  length := by
    show i + totalWidth (g :: src.take r.length) = _
    rw [totalWidth_cons, ← Nat.add_assoc]
    exact h.length
  closed := h.closed

/-- Where a string on one line is over. -/
def LineOver (source : List UInt8) (e : Nat) : Prop :=
  QuoteAt source e ∧ ¬ BackslashAt source (e - 1)
    ∨ NewlineAt source e ∨ e = source.length

/-- Where a string in three quotes is over. -/
def TripleOver (source : List UInt8) (e : Nat) : Prop :=
  ThreeQuotesAt source e ∨ e = source.length

theorem eq_length_of_ahead (inside : i ≤ source.length)
    (h : ahead source i = []) : i = source.length := by
  rcases ahead_cases source i with ⟨none, -⟩ | ⟨_, -, -, front⟩
    | ⟨_, _, _, -, -, front, -⟩
  · have := List.getElem?_eq_none_iff.1 none
    omega
  · rw [h] at front
    cases front
  · rw [h] at front
    cases front

/-- What stands at the end of a string. -/
theorem not_quoteAt_length : ¬ QuoteAt source source.length := by
  unfold QuoteAt
  rw [List.getElem?_eq_none (Nat.le_refl _)]
  nofun

/-- An ASCII character at the front stands at the place, and what follows
is ahead of the next one. -/
theorem at_of_ahead {c : Char} (hc : c.toNat < 0x80)
    (h : ahead source i = scalar c :: src) :
    source[i]? = some (ascii c) ∧ ahead source (i + 1) = src
      ∧ i + 1 ≤ source.length := by
  have behind := ahead_behind h
  rw [width_ascii hc] at behind
  refine ⟨(head?_ahead_iff hc).1 ?_, behind.2, behind.1⟩
  rw [h]
  rfl

/-- Within a glyph a string on one line is over at the glyph only. -/
theorem lineOver_within {g : Glyph} {j : Nat}
    (h : ahead source i = g :: src) (begins : i ≤ j)
    (within : j < i + g.width) (stops : LineOver source j) :
    g = scalar '\x27' ∧ ¬ BackslashAt source (i - 1) ∨ g = scalar '\n' := by
  rcases stops with ⟨quote, bare⟩ | newline | rfl
  · obtain ⟨rfl, rfl⟩ := eq_of_ascii_within (by decide) h begins within quote
    exact .inl ⟨rfl, bare⟩
  · exact .inr (eq_of_ascii_within (by decide) h begins within newline).1
  · exact absurd (ahead_behind h).1 (by omega)

/-- A quote in a string on one line is passed with the backslash before
it. -/
theorem Reaches.behind_escape {closes : Nat → Prop}
    (h : ahead source i = scalar '\\' :: scalar '\x27' :: src)
    (later : Reaches (LineOver source) closes quotes (i + 1 + 1) src r e) :
    Reaches (LineOver source) closes quotes i
      (scalar '\\' :: scalar '\x27' :: src) ((r.extend 1).extend 1) e := by
  obtain ⟨backslash, second, -⟩ := at_of_ahead (by decide) h
  have one : (scalar '\\').width = 1 := width_ascii (by decide)
  have two : (scalar '\x27').width = 1 := width_ascii (by decide)
  refine Reaches.behind ?_ (Reaches.behind ?_ ?_)
  · intro j begins within stops
    rcases lineOver_within h begins within stops with ⟨other, -⟩ | other
    · exact absurd other (by decide)
    · exact absurd other (by decide)
  · rw [one]
    intro j begins within stops
    rcases lineOver_within second begins within stops with ⟨-, bare⟩
      | other
    · exact bare backslash
    · exact absurd other (by decide)
  · rwa [one, two]

/-- So a quote behind any other glyph has no backslash before it. -/
theorem bare_behind {g : Glyph} (h : ahead source i = g :: src)
    (noEscape : ∀ rest, g = scalar '\\' → src ≠ scalar '\x27' :: rest) :
    QuoteAt source (i + g.width) →
      ¬ BackslashAt source (i + g.width - 1) := by
  intro quote backslash
  have := g.width_pos
  obtain ⟨rfl, -⟩ := eq_of_ascii_within (by decide) h (by omega) (by omega)
    backslash
  have front := (head?_ahead_iff (by decide)).2 quote
  rw [(ahead_behind h).2] at front
  obtain ⟨rest, cut⟩ := List.head?_eq_some_iff.1 front
  exact noEscape rest rfl cut

/-- A string on one line. -/
theorem single_reaches (inside : i ≤ source.length)
    (fresh : QuoteAt source i → ¬ BackslashAt source (i - 1))
    (h : ahead source i = src) :
    ∃ e, Reaches (LineOver source) (QuoteAt source) 1 i src (single src)
      e := by
  fun_induction single src generalizing i with
  | case1 =>
      obtain rfl := eq_length_of_ahead inside h
      exact ⟨_, isLeast_here (.inr (.inr rfl)), rfl,
        iff_of_false Bool.false_ne_true not_quoteAt_length⟩
  | case2 rest =>
      obtain ⟨newline, -, -⟩ := at_of_ahead (by decide) h
      refine ⟨_, isLeast_here (.inr (.inl newline)), rfl,
        iff_of_false Bool.false_ne_true ?_⟩
      rw [QuoteAt, newline]
      decide
  | case3 rest =>
      obtain ⟨quote, -, -⟩ := at_of_ahead (by decide) h
      refine ⟨_, isLeast_here (.inl ⟨quote, fresh quote⟩), ?_,
        iff_of_true rfl quote⟩
      show i + totalWidth [scalar '\x27'] = i + 1
      rw [totalWidth_cons, width_ascii (by decide)]
      rfl
  | case4 rest ih =>
      obtain ⟨-, second, -⟩ := at_of_ahead (by decide) h
      obtain ⟨quote, third, inside⟩ := at_of_ahead (by decide) second
      have fresh : ¬ BackslashAt source (i + 1) := by
        rw [BackslashAt, quote]
        decide
      obtain ⟨e, reaches⟩ := ih inside (fun _ => fresh) third
      exact ⟨e, reaches.behind_escape h⟩
  | case5 g rest notNewline notQuote notEscape ih =>
      obtain ⟨inside, later⟩ := ahead_behind h
      have fresh := bare_behind h notEscape
      obtain ⟨e, reaches⟩ := ih inside fresh later
      refine ⟨e, reaches.behind fun j begins within stops => ?_⟩
      rcases lineOver_within h begins within stops with ⟨quote, -⟩ | newline
      · exact notQuote quote
      · exact notNewline newline

/-- Three quotes ahead stand at the place. -/
theorem threeQuotesAt_iff :
    ThreeQuotesAt source i ↔ ∃ rest, ahead source i
      = scalar '\x27' :: scalar '\x27' :: scalar '\x27' :: rest := by
  constructor
  · rintro ⟨first, second, third⟩
    have quote {i : Nat} (h : QuoteAt source i) :
        ahead source i = scalar '\x27' :: ahead source (i + 1) :=
      ahead_of_ascii (by decide) h
    exact ⟨_, by rw [quote first, quote second, quote third]⟩
  · rintro ⟨rest, h⟩
    obtain ⟨first, h, -⟩ := at_of_ahead (by decide) h
    obtain ⟨second, h, -⟩ := at_of_ahead (by decide) h
    exact ⟨first, second, (at_of_ahead (by decide) h).1⟩

theorem not_threeQuotesAt_length :
    ¬ ThreeQuotesAt source source.length :=
  fun three => not_quoteAt_length three.1

/-- A string in three quotes. -/
theorem triple_reaches (inside : i ≤ source.length)
    (h : ahead source i = src) :
    ∃ e, Reaches (TripleOver source) (ThreeQuotesAt source) 3 i src
      (triple src) e := by
  fun_induction triple src generalizing i with
  | case1 =>
      obtain rfl := eq_length_of_ahead inside h
      exact ⟨_, isLeast_here (.inr rfl), rfl,
        iff_of_false Bool.false_ne_true not_threeQuotesAt_length⟩
  | case2 rest =>
      have three := threeQuotesAt_iff.2 ⟨rest, h⟩
      exact ⟨_, isLeast_here (.inl three), rfl, iff_of_true rfl three⟩
  | case3 g rest other ih =>
      obtain ⟨inside, later⟩ := ahead_behind h
      obtain ⟨e, reaches⟩ := ih inside later
      refine ⟨e, reaches.behind fun j begins within stops => ?_⟩
      rcases stops with three | rfl
      · obtain ⟨rfl, rfl⟩ := eq_of_ascii_within (by decide) h begins within
          three.1
        obtain ⟨more, front⟩ := threeQuotesAt_iff.1 three
        rw [h] at front
        exact other more rfl (List.cons.inj front).2
      · omega

-- =============================================================== the end

theorem QuoteAt.inside (h : QuoteAt source i) : i < source.length :=
  (List.getElem?_eq_some_iff.1 h).1

/-- A string in three quotes ends where it is over. -/
theorem ends_of_triple {start : Nat} (three : ThreeQuotesAt source start)
    (reaches : Reaches (TripleOver source) (ThreeQuotesAt source) 3
      (start + 3) src r e) :
    Ends source start (start + 3 + totalWidth (src.take r.length))
      r.closed := by
  rw [reaches.length]
  obtain ⟨⟨beyond, stops⟩, least⟩ := reaches.first
  cases hr : r.closed with
  | true =>
      exact .triple three ⟨⟨beyond, reaches.closed.1 hr⟩,
        fun j ⟨begins, hj⟩ => least ⟨begins, .inl hj⟩⟩
  | false =>
      have unclosed : ¬ ThreeQuotesAt source e := fun closes => by
        rw [reaches.closed.2 closes] at hr
        cases hr
      obtain rfl := stops.resolve_left unclosed
      refine .openTriple three fun j begins hj => ?_
      exact absurd (least ⟨begins, .inl hj⟩)
        (Nat.not_le_of_lt hj.1.inside)

/-- The first place where a string on one line is over closes it if it is
a quote. -/
theorem isLeast_closing {start : Nat}
    (first : IsLeast {e | start + 1 ≤ e ∧ LineOver source e} e)
    (quote : QuoteAt source e) (bare : ¬ BackslashAt source (e - 1)) :
    IsLeast {e | Closing source start e} e := by
  obtain ⟨⟨beyond, -⟩, least⟩ := first
  refine ⟨⟨beyond, quote, bare, fun i begins before newline => ?_⟩,
    fun j hj => least ⟨hj.beyond, .inl ⟨hj.quote, hj.bare⟩⟩⟩
  exact absurd (least ⟨begins, .inr (.inl newline)⟩)
    (Nat.not_le_of_lt before)

/-- Otherwise nothing closes it. -/
theorem not_closing {start j : Nat}
    (first : IsLeast {e | start + 1 ≤ e ∧ LineOver source e} e)
    (stops : NewlineAt source e ∨ e = source.length) :
    ¬ Closing source start j := by
  intro closing
  obtain ⟨⟨beyond, -⟩, least⟩ := first
  have behind := least ⟨closing.beyond, .inl ⟨closing.quote, closing.bare⟩⟩
  rcases stops with newline | rfl
  · rcases Nat.eq_or_lt_of_le behind with rfl | behind
    · have quote : source[e]? = _ := closing.quote
      rw [NewlineAt, quote] at newline
      revert newline
      decide
    · exact closing.line _ beyond behind newline
  · exact absurd behind (Nat.not_le_of_lt closing.quote.inside)

/-- A string on one line ends where it is over. -/
theorem ends_of_single {start : Nat} (single : ¬ QuoteAt source (start + 1))
    (reaches : Reaches (LineOver source) (QuoteAt source) 1 (start + 1)
      src r e) :
    Ends source start (start + 1 + totalWidth (src.take r.length))
      r.closed := by
  rw [reaches.length]
  obtain ⟨⟨beyond, stops⟩, least⟩ := reaches.first
  cases hr : r.closed with
  | true =>
      have quote := reaches.closed.1 hr
      have other : ¬ (NewlineAt source e ∨ e = source.length) := by
        rintro (newline | rfl)
        · rw [QuoteAt, newline] at quote
          revert quote
          decide
        · exact not_quoteAt_length quote
      exact .single single
        (isLeast_closing reaches.first quote (stops.resolve_right other).2)
  | false =>
      have unclosed : ¬ QuoteAt source e := fun closes => by
        rw [reaches.closed.2 closes] at hr
        cases hr
      have ends := stops.resolve_left fun closes => unclosed closes.1
      exact .openSingle single (fun _ => not_closing reaches.first ends)
        ⟨⟨beyond, ends⟩, fun j ⟨begins, hj⟩ => least ⟨begins, .inr hj⟩⟩

/-- The end of a string, by what is read behind its first quote. -/
theorem ends_read {start : Nat}
    (h : ahead source start = scalar '\x27' :: src) :
    Ends source start
      (start + totalWidth ((scalar '\x27' :: src).take
        ((read src).length + 1)))
      (read src).closed := by
  obtain ⟨first, behind, inside⟩ := at_of_ahead (by decide) h
  have one : (scalar '\x27').width = 1 := width_ascii (by decide)
  rw [List.take_succ_cons, totalWidth_cons, one, ← Nat.add_assoc]
  unfold read
  split
  next rest =>
    obtain ⟨second, behind, -⟩ := at_of_ahead (by decide) behind
    obtain ⟨third, behind, inside⟩ := at_of_ahead (by decide) behind
    obtain ⟨e, reaches⟩ := triple_reaches inside behind
    have ends := ends_of_triple ⟨first, second, third⟩ reaches
    show Ends source start (start + 1 + totalWidth
      (scalar '\x27' :: scalar '\x27' :: rest.take (triple rest).length))
      (triple rest).closed
    rw [totalWidth_cons, totalWidth_cons, one, ← Nat.add_assoc,
      ← Nat.add_assoc]
    exact ends
  next rest other =>
    obtain ⟨second, behind, -⟩ := at_of_ahead (by decide) behind
    show Ends source start (start + 1 + totalWidth [scalar '\x27']) true
    rw [totalWidth_cons, one]
    refine .empty second fun third => ?_
    have front := (head?_ahead_iff (by decide)).2 third
    rw [show start + 2 = start + 1 + 1 from rfl, behind] at front
    obtain ⟨more, rfl⟩ := List.head?_eq_some_iff.1 front
    exact other more rfl
  next notThree notTwo =>
    have other : ¬ QuoteAt source (start + 1) := fun second => by
      have front := (head?_ahead_iff (by decide)).2 second
      rw [behind] at front
      obtain ⟨more, rfl⟩ := List.head?_eq_some_iff.1 front
      exact notTwo more rfl
    obtain ⟨e, reaches⟩ := single_reaches inside
      (fun second => absurd second other) behind
    exact ends_of_single other reaches

end RawString

-- ======================================================== what is found

namespace Plan

/-- A plan that does not find a raw string left open. -/
def Closes (p : Plan) : Prop :=
  ∀ f ∈ p.early ++ p.late, f.fault ≠ .openRawString

/-- Only in code, and only at a quote, a raw string is found open. -/
theorem closes_next {mode : Mode} {n : Nesting} {src : List Glyph}
    (h : ¬ (next mode n src).Closes) :
    (n.settle src).has .recipeLine = false
      ∧ (n.settle src).has .quoted = false
      ∧ src.head? = some (.scalar '\x27') := by
  unfold Closes at h
  push Not at h
  obtain ⟨f, hf, found⟩ := h
  obtain ⟨noRecipe, noString, front⟩ :=
    (finds_next mode n src f hf).starts_of_raw found
  refine ⟨noRecipe, noString, ?_⟩
  obtain ⟨g, head, quote⟩ := Option.map_eq_some_iff.1 front
  rw [head, eq_scalar_of_char quote (by decide)]

end Plan

-- ============================================================== in a call

namespace Scanner

open RawString

variable {file : File} {mode : Mode} {source : List UInt8}
  {begun s : Scanner} {rest : List Glyph}

/-- What is told about a raw string that is left open. -/
def rawStringWords : List String := ["raw string literal not terminated"]

/-- What is told about any string that is left open. -/
def openStringWords : List String :=
  ["string literal not terminated", "raw string literal not terminated"]

theorem means_rawStringWords : Means rawStringWords [.openRawString] := by
  decide

theorem means_openStringWords :
    Means openStringWords [.openString, .openRawString] := by decide

theorem head?_rest_iff (reading : s.Reading source) {c : Char}
    (hc : c.toNat < 0x80) :
    s.rest.head? = some (scalar c) ↔ source[s.offset]? = some (ascii c) := by
  have stands : s.rest = ahead source s.offset := reading.stands
  rw [stands]
  exact head?_ahead_iff hc

/-- At a quote in code there is a raw string. -/
theorem InCode.plan_of_quote (h : s.InCode)
    (front : s.rest = scalar '\x27' :: rest) :
    s.plan = Plan.rawString (s.around (scalar '\x27')) s.rest := by
  rw [h.plan front, front]
  have letter : (scalar '\x27').isLetter = false := by decide
  unfold Plan.inCode
  rw [letter]
  rfl

/-- What a call does at such a quote. -/
theorem scan_of_quote (reading : s.Reading source) (code : s.InCode)
    (front : s.rest = scalar '\x27' :: rest) :
    s.scan.1.handle = s.file.handle s.offset
      ∧ s.scan.1.token = .literal .string
      ∧ s.scan.2.offset = s.offset
        + totalWidth (s.rest.take ((RawString.read rest).length + 1))
      ∧ told openStringWords s s.scan.2
        = if (RawString.read rest).closed then [] else [s.offset] := by
  have plan := code.plan_of_quote front
  have token : s.plan.token = some (.literal .string) := by rw [plan]; rfl
  have behind : s.rest.drop 1 = rest := by rw [front]; rfl
  have inside : s.offset ≤ s.file.size :=
    Nat.le_trans (Nat.le_add_right _ _) reading.ahead
  refine ⟨?_, ?_, ?_, ?_⟩
  · rw [lexeme_of_token token]
  · rw [lexeme_of_token token]
  · rw [offset_of_token token, plan]
    unfold Plan.rawString
    rw [Plan.reads_of_not_skipsLine rfl, behind]
    rfl
  · rw [told_scan token means_openStringWords (by decide) reading.ahead,
      plan]
    unfold Plan.rawString
    dsimp only
    rw [behind]
    split
    next => rfl
    next =>
      show [min (s.offset + 0) s.file.size] = [s.offset]
      rw [Nat.add_zero, Nat.min_eq_left inside]

/-- A raw string that is left open is told of only where one begins in
code; and there a call takes it up to its end, and tells of it exactly if
it is not closed there. -/
theorem raw_strings_end (file : File) (mode : Mode) (source : List UInt8)
    (begun : Scanner)
    (started : Scanner.start file mode source = .ok begun) :
    (∀ s, StepsAt begun s →
        told rawStringWords s (s.perform s.plan) ≠ [] →
        s.InCode ∧ QuoteAt source s.offset)
      ∧ ∀ s, StepsAt begun s → s.InCode → QuoteAt source s.offset →
        (∃ stop closed, RawString.Ends source s.offset stop closed)
        ∧ ∀ stop closed, RawString.Ends source s.offset stop closed →
          s.scan.1.handle = s.file.handle s.offset
            ∧ s.scan.1.token = .literal .string
            ∧ s.scan.2.offset = stop
            ∧ told openStringWords s s.scan.2
              = if closed then [] else [s.offset] := by
  constructor
  · intro s place tells
    have reading := place.reading started
    have finds : ¬ s.plan.Closes := by
      intro closes
      refine tells ?_
      rw [told_perform means_rawStringWords (by decide) reading.ahead]
      refine offsetsOf_eq_nil fun f hf raw => ?_
      obtain ⟨found, member, rfl⟩ := List.mem_map.1 hf
      exact closes found member (List.mem_singleton.1 raw)
    obtain ⟨noRecipe, noString, quote⟩ := Plan.closes_next finds
    exact ⟨⟨noRecipe, noString⟩,
      (head?_rest_iff reading (by decide)).1 quote⟩
  · intro s place code quote
    have reading := place.reading started
    obtain ⟨rest, front⟩ := List.head?_eq_some_iff.1
      ((head?_rest_iff reading (by decide)).2 quote)
    have stands : ahead source s.offset = s.rest := reading.stands.symm
    have ends := ends_read (stands.trans front)
    obtain ⟨handle, token, offset, tells⟩ := scan_of_quote reading code front
    rw [front] at offset
    refine ⟨⟨_, _, ends⟩, fun stop closed h => ?_⟩
    obtain ⟨rfl, rfl⟩ := ends.unique h
    exact ⟨handle, token, offset, tells⟩

/-- Before a quote that is kept from ending the string, in `'\''`. -/
def beforeKeptQuote : Scanner :=
  ofGlyphs (File.alone "" 4) {} (ofBytes [39, 92, 39, 39])

/-- Before three quotes and two more. -/
def beforeFiveQuotes : Scanner :=
  ofGlyphs (File.alone "" 5) {} (ofBytes [39, 39, 39, 39, 39])

/-- The first string is closed by its third quote, the second is left
open. -/
theorem raw_strings_end_kept_quote_five_quotes :
    Scanner.start (File.alone "" 4) {} [39, 92, 39, 39]
        = .ok beforeKeptQuote
      ∧ beforeKeptQuote.scan.2.offset = 4
      ∧ told openStringWords beforeKeptQuote beforeKeptQuote.scan.2 = []
      ∧ Scanner.start (File.alone "" 5) {} [39, 39, 39, 39, 39]
        = .ok beforeFiveQuotes
      ∧ beforeFiveQuotes.scan.2.offset = 5
      ∧ told openStringWords beforeFiveQuotes beforeFiveQuotes.scan.2
        = [0] := by
  have first : Scanner.start (File.alone "" 4) {} [39, 92, 39, 39]
      = .ok beforeKeptQuote := rfl
  have second : Scanner.start (File.alone "" 5) {} [39, 39, 39, 39, 39]
      = .ok beforeFiveQuotes := rfl
  have closes : RawString.Ends [39, 92, 39, 39] 0 4 true := by
    refine .single (by decide) ⟨⟨by decide, by decide, by decide, ?_⟩, ?_⟩
    · have plain : ∀ i < 3, ¬ NewlineAt [39, 92, 39, 39] i := by decide
      exact fun i _ => plain i
    · intro e closing
      have kept : ∀ e < 3, 0 < e → QuoteAt [39, 92, 39, 39] e →
          BackslashAt [39, 92, 39, 39] (e - 1) := by decide
      by_contra before
      exact closing.bare
        (kept e (Nat.lt_of_not_le before) closing.beyond closing.quote)
  have opens : RawString.Ends [39, 39, 39, 39, 39] 0 5 false := by
    refine .openTriple (by decide) fun e begins three => ?_
    exact absurd three.2.2.inside
      (Nat.not_lt_of_le (Nat.add_le_add_right begins 2))
  have zero : beforeKeptQuote.offset = 0 ∧ beforeFiveQuotes.offset = 0 := by
    decide +kernel
  rw [← zero.1] at closes
  rw [← zero.2] at opens
  obtain ⟨-, -, stop, told⟩ := ((raw_strings_end _ _ _ _ first).2 _
    (.call (.done _)) ⟨by decide +kernel, by decide +kernel⟩
    (by decide +kernel)).2 _ _ closes
  obtain ⟨-, -, stop', told'⟩ := ((raw_strings_end _ _ _ _ second).2 _
    (.call (.done _)) ⟨by decide +kernel, by decide +kernel⟩
    (by decide +kernel)).2 _ _ opens
  rw [zero.2] at told'
  exact ⟨first, stop, told, second, stop', told'⟩

end Scanner

end BuildLexer
