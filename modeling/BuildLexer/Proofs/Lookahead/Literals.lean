/-
Literals do not look past a line end or a hash sign.

Two texts may be the same up to some line end and different behind it,
or the same up to some hash sign (`UpTo`). No name, number, date, time
or escape has a glyph of either sort in it, and none looks past one, so
each is the same in both texts. Raw strings do run over hash signs, and
those in three quotes over line ends; they are the same when they are
closed before the place where the texts part.

Every reader is taken apart in the order in which it reads. Readers that
return what follows (`Temporal.pair?` and those built on it) return two
texts that are still the same up to the stop; the steps of such readers
are joined by `rel_bind`.
-/
import BuildLexer.Literal.Name
import BuildLexer.Literal.RawString
import BuildLexer.Proofs.Literal.OneLine

namespace BuildLexer

open Glyph

-- ================================================================ stops

namespace Glyph

/-- The glyphs that no literal on one line goes past. -/
inductive Stop : Glyph → Prop
  | newline : Stop newline
  | hash : Stop (.scalar '#')

/-- Two texts that are the same up to a stop with `count` glyphs before
it, and the stop itself, whatever stands behind it in either. -/
inductive UpTo (stop : Glyph) : Nat → List Glyph → List Glyph → Prop
  | here (a b : List Glyph) : UpTo stop 0 (stop :: a) (stop :: b)
  | cons (g : Glyph) {count : Nat} {a b : List Glyph} :
      UpTo stop count a b → UpTo stop (count + 1) (g :: a) (g :: b)

namespace UpTo

variable {stop : Glyph} {count : Nat} {a b : List Glyph}

/-- Which of the texts is named first does not matter. -/
theorem symm (h : UpTo stop count a b) : UpTo stop count b a := by
  induction h with
  | here a b => exact .here b a
  | cons g _ ih => exact .cons g ih

/-- Neither text is empty, and both begin alike. -/
theorem exists_cons (h : UpTo stop count a b) :
    ∃ g a' b', a = g :: a' ∧ b = g :: b' := by
  cases h with
  | here a b => exact ⟨_, a, b, rfl, rfl⟩
  | cons g => exact ⟨g, _, _, rfl, rfl⟩

theorem head?_eq (h : UpTo stop count a b) : b.head? = a.head? := by
  obtain ⟨g, a', b', rfl, rfl⟩ := h.exists_cons
  rfl

/-- A first glyph that is no stop is first in both. -/
theorem front {g : Glyph} (h : UpTo stop count (g :: a) b)
    (other : g ≠ stop) :
    ∃ before b', count = before + 1 ∧ b = g :: b'
      ∧ UpTo stop before a b' := by
  cases h with
  | here a b => exact absurd rfl other
  | cons g h => exact ⟨_, _, rfl, rfl, h⟩

/-- Behind it the texts are still the same up to the stop. -/
theorem behind {g : Glyph} (h : UpTo stop count (g :: a) (g :: b))
    (other : g ≠ stop) :
    ∃ before, count = before + 1 ∧ UpTo stop before a b := by
  obtain ⟨before, b', hc, he, later⟩ := h.front other
  injection he with _ he
  exact ⟨before, hc, he ▸ later⟩

/-- Up to the stop, the stop included, the texts are the same. -/
theorem take_eq (h : UpTo stop count a b) {length : Nat}
    (inside : length ≤ count + 1) : b.take length = a.take length := by
  induction h generalizing length with
  | here a b =>
      rcases Nat.le_one_iff_eq_zero_or_eq_one.1 inside with rfl | rfl
      · rfl
      · rfl
  | cons g _ ih =>
      cases length with
      | zero => rfl
      | succ length =>
          rw [List.take_succ_cons, List.take_succ_cons,
            ih (Nat.le_of_succ_le_succ inside)]

/-- What is behind some glyphs before the stop. -/
theorem drop (h : UpTo stop count a b) {length : Nat}
    (inside : length ≤ count) :
    UpTo stop (count - length) (a.drop length) (b.drop length) := by
  induction h generalizing length with
  | here a b =>
      obtain rfl := Nat.le_zero.1 inside
      exact .here a b
  | cons g later ih =>
      cases length with
      | zero => exact .cons g later
      | succ length =>
          rw [Nat.add_sub_add_right]
          exact ih (Nat.le_of_succ_le_succ inside)

/-- A run that is over before the stop is the same. -/
theorem takeWhile_eq (h : UpTo stop count a b) {p : Glyph → Bool}
    (inside : (a.takeWhile p).length ≤ count) :
    b.takeWhile p = a.takeWhile p := by
  induction h with
  | here a b =>
      cases hp : p stop with
      | false =>
          rw [List.takeWhile_cons_of_neg (by simp [hp]),
            List.takeWhile_cons_of_neg (by simp [hp])]
      | true =>
          rw [List.takeWhile_cons_of_pos hp] at inside
          cases inside
  | cons g _ ih =>
      cases hp : p g with
      | false =>
          rw [List.takeWhile_cons_of_neg (by simp [hp]),
            List.takeWhile_cons_of_neg (by simp [hp])]
      | true =>
          rw [List.takeWhile_cons_of_pos hp, List.length_cons] at inside
          rw [List.takeWhile_cons_of_pos hp, List.takeWhile_cons_of_pos hp,
            ih (Nat.le_of_succ_le_succ inside)]

/-- A run that the stop is none of is over before it. -/
theorem length_takeWhile_le (h : UpTo stop count a b) {p : Glyph → Bool}
    (stops : p stop = false) : (a.takeWhile p).length ≤ count := by
  induction h with
  | here a b =>
      rw [List.takeWhile_cons_of_neg (by simp [stops])]
      exact Nat.le_refl 0
  | @cons g count a b _ ih =>
      cases hp : p g with
      | false =>
          rw [List.takeWhile_cons_of_neg (by simp [hp])]
          exact Nat.zero_le _
      | true =>
          rw [List.takeWhile_cons_of_pos hp]
          exact Nat.succ_le_succ ih

end UpTo

/-- Two texts that are the same up to some stop of a sort. -/
def Alike (stop : Glyph) (a b : List Glyph) : Prop :=
  ∃ count, UpTo stop count a b

namespace Alike

variable {stop : Glyph} {a b : List Glyph}

/-- Texts that are alike begin with the same glyph. -/
theorem exists_cons (h : Alike stop a b) :
    ∃ g a' b', a = g :: a' ∧ b = g :: b' := by
  obtain ⟨count, h⟩ := h
  exact h.exists_cons

/-- They are alike behind it, unless it is the stop. -/
theorem behind {g : Glyph} (h : Alike stop (g :: a) (g :: b))
    (other : g ≠ stop) : Alike stop a b := by
  obtain ⟨count, h⟩ := h
  obtain ⟨before, -, later⟩ := h.behind other
  exact ⟨before, later⟩

end Alike

end Glyph

variable {stop : Glyph} {count : Nat} {a b : List Glyph}

-- ============================================================== names

/-- A name is as long in both texts, and ends before the stop. -/
theorem Name.tailLength_upTo (hs : Stop stop) (h : UpTo stop count a b) :
    tailLength b = tailLength a ∧ tailLength a ≤ count := by
  induction h with
  | here a b => cases hs <;> exact ⟨rfl, Nat.le_refl 0⟩
  | @cons g count a b later ih =>
      have next : continues g b = continues g a := by
        unfold continues
        rw [later.head?_eq]
      rw [tailLength, tailLength, next, ih.1]
      refine ⟨rfl, ?_⟩
      split
      · exact Nat.succ_le_succ ih.2
      · exact Nat.zero_le _

-- ============================================================ numbers

namespace Number

theorem isDigit_stop (hs : Stop stop) : Glyph.isDigit stop = false := by
  cases hs <;> rfl

theorem isHexDigit_stop (hs : Stop stop) : isHexDigit stop = false := by
  cases hs <;> rfl

/-- No separator is a stop. -/
theorem stops_run (hs : Stop stop) {isDigit : Glyph → Bool}
    (stops : isDigit stop = false) :
    (stop == separator || isDigit stop) = false := by
  rw [stops]
  cases hs <;> rfl

/-- A run of digits ends before the stop. -/
theorem runOf_upTo (hs : Stop stop) {isDigit : Glyph → Bool}
    (stops : isDigit stop = false) (h : UpTo stop count a b) :
    runOf isDigit b = runOf isDigit a
      ∧ (runOf isDigit a).length ≤ count :=
  have inside := h.length_takeWhile_le (stops_run hs stops)
  ⟨h.takeWhile_eq inside, inside⟩

/-- A fraction is the same, with its point before the stop. -/
theorem fraction?_upTo (hs : Stop stop) (h : UpTo stop count a b) :
    fraction? b = fraction? a
      ∧ ∀ digits, fraction? a = some digits → digits.length + 1 ≤ count := by
  cases h with
  | here a b => cases hs <;> exact ⟨rfl, nofun⟩
  | cons g later =>
      by_cases hg : g = .scalar '.'
      · subst hg
        obtain ⟨same, inside⟩ := runOf_upTo hs (isDigit_stop hs) later
        obtain ⟨d, a', b', rfl, rfl⟩ := later.exists_cons
        rw [fraction?, fraction?, same]
        refine ⟨rfl, fun digits hd => ?_⟩
        split at hd
        · obtain rfl := Option.some.inj hd
          exact Nat.succ_le_succ inside
        · cases hd
      · have none (rest : List Glyph) : fraction? (g :: rest) = none := by
          unfold fraction?
          split
          next he =>
            injection he with hd
            exact absurd hd hg
          next => rfl
        rw [none, none]
        exact ⟨rfl, nofun⟩

/-- So is an exponent. -/
theorem exponent?_upTo (hs : Stop stop) (h : UpTo stop count a b) :
    exponent? b = exponent? a := by
  have first : isExponentMark stop = false := by cases hs <;> rfl
  have second : isSign stop = false := by cases hs <;> rfl
  have none {g : Glyph} (hg : isExponentMark g = false)
      (rest : List Glyph) : exponent? (g :: rest) = none := by
    unfold exponent?
    split
    next he =>
      injection he with hd
      rw [← hd, hg]
      rfl
    next => rfl
  cases h with
  | here a b => rw [none first, none first]
  | cons e later =>
      obtain ⟨s, a', b', rfl, rfl⟩ := later.exists_cons
      rw [exponent?, exponent?, (runOf_upTo hs (isDigit_stop hs) later).1]
      cases hs' : isSign s with
      | false => rfl
      | true =>
          have other : s ≠ stop := by
            rintro rfl
            rw [second] at hs'
            cases hs'
          obtain ⟨_, -, behind⟩ := later.behind other
          rw [behind.head?_eq, (runOf_upTo hs (isDigit_stop hs) behind).1]

/-- The runs of a float are the same. -/
theorem floatRuns_upTo (hs : Stop stop) (start : Nat)
    (h : UpTo stop count a b) : floatRuns start b = floatRuns start a := by
  obtain ⟨fraction, inside⟩ := fraction?_upTo hs h
  have run : fractionRun start b = fractionRun start a := by
    unfold fractionRun
    rw [fraction]
  have behind : stopOf start (fractionRun start a) - start ≤ count := by
    unfold fractionRun
    cases hf : fraction? a with
    | none =>
        show start - start ≤ count
        omega
    | some digits =>
        have := inside digits hf
        show start + 1 + digits.length - start ≤ count
        omega
  unfold floatRuns exponentRun
  dsimp only
  rw [run, exponent?_upTo hs (h.drop behind)]

/-- A number of the binary system is the same. -/
theorem binary_upTo (hs : Stop stop) (start : Nat)
    (h : UpTo stop count a b) : binary start b = binary start a := by
  unfold binary
  rw [(runOf_upTo hs (isDigit_stop hs) h).1]

theorem hexadecimal_upTo (hs : Stop stop) (start : Nat)
    (h : UpTo stop count a b) :
    hexadecimal start b = hexadecimal start a := by
  unfold hexadecimal
  rw [(runOf_upTo hs (isHexDigit_stop hs) h).1]

theorem decimal_upTo (hs : Stop stop) (start : Nat)
    (h : UpTo stop count a b) : decimal start b = decimal start a := by
  obtain ⟨mantissa, inside⟩ := runOf_upTo hs (isDigit_stop hs) h
  have behind := h.drop inside
  have kind (mantissa : Run) :
      zeroKind mantissa (b.drop (runOf Glyph.isDigit a).length)
        = zeroKind mantissa (a.drop (runOf Glyph.isDigit a).length) := by
    unfold zeroKind
    rw [behind.head?_eq]
  unfold decimal
  dsimp only
  rw [mantissa, floatRuns_upTo hs _ behind, kind, h.head?_eq]

/-- A number that does not begin as one in another base is decimal. -/
theorem read_of_ne {g : Glyph} (hg : g ≠ .scalar '0') (start : Nat)
    (rest : List Glyph) :
    read start (g :: rest) = decimal start (g :: rest) := by
  unfold read
  split
  next he =>
    injection he with hd
    exact absurd hd hg
  next => rfl

/-- The number is the same, whatever follows the stop. -/
theorem read_upTo (hs : Stop stop) (start : Nat)
    (h : UpTo stop count a b) : read start b = read start a := by
  have whole := decimal_upTo hs start h
  have zero : stop ≠ .scalar '0' := by cases hs <;> decide
  cases h with
  | here a b => rw [read_of_ne zero, read_of_ne zero, whole]
  | cons g later =>
      by_cases hg : g = .scalar '0'
      · subst hg
        obtain ⟨mark, a', b', rfl, rfl⟩ := later.exists_cons
        rw [read, read]
        split
        next hm =>
          have other : mark ≠ stop := by
            rcases hm with rfl | rfl <;> cases hs <;> decide
          obtain ⟨_, -, behind⟩ := later.behind other
          exact binary_upTo hs _ behind
        split
        next hm =>
          have other : mark ≠ stop := by
            rcases hm with rfl | rfl <;> cases hs <;> decide
          obtain ⟨_, -, behind⟩ := later.behind other
          exact hexadecimal_upTo hs _ behind
        next => exact whole
      · rw [read_of_ne hg, read_of_ne hg, whole]

end Number

-- ==================================================== dates and times

/-- Two readings, one after the other, that fit step by step fit. -/
theorem rel_bind {α β : Type} {r : α → α → Prop} {q : β → β → Prop}
    {x y : Option α} {f g : α → Option β} (first : Option.Rel r x y)
    (next : ∀ a b, r a b → Option.Rel q (f a) (g b)) :
    Option.Rel q (x >>= f) (y >>= g) := by
  cases first with
  | some h => exact next _ _ h
  | none => exact .none

/-- Readings that fit, or what stands in for them where there is none. -/
theorem rel_getD {α : Type} {r : α → α → Prop} {x y : Option α} {a b : α}
    (h : Option.Rel r x y) (default : r a b) : r (x.getD a) (y.getD b) := by
  cases h with
  | some h => exact h
  | none => exact default

namespace Temporal

/-- The same number, with alike texts behind it. -/
inductive SamePair (stop : Glyph) :
    Nat × List Glyph → Nat × List Glyph → Prop
  | mk {n : Nat} {a b : List Glyph} :
      Alike stop a b → SamePair stop (n, a) (n, b)

theorem digitValue?_stop (hs : Stop stop) (base : Nat) :
    stop.digitValue? base = none := by
  cases hs <;> rfl

/-- A digit is no stop. -/
theorem digit_ne_stop (hs : Stop stop) {base d : Nat} {g : Glyph}
    (h : g.digitValue? base = some d) : g ≠ stop := by
  rintro rfl
  rw [digitValue?_stop hs] at h
  cases h

/-- A pair of digits is followed by texts that are alike. -/
theorem rel_pair? (hs : Stop stop) (h : Alike stop a b) :
    Option.Rel (SamePair stop) (pair? a) (pair? b) := by
  have none {g : Glyph} (hg : g.digitValue? 10 = none)
      (rest : List Glyph) : pair? (g :: rest) = none := by
    cases rest with
    | nil => rfl
    | cons second rest =>
        show (g.digitValue? 10 >>= fun _ => _) = none
        rw [hg]
        rfl
  obtain ⟨g, a, b, rfl, rfl⟩ := h.exists_cons
  cases ht : g.digitValue? 10 with
  | none =>
      rw [none ht, none ht]
      exact .none
  | some tens =>
      have later := h.behind (digit_ne_stop hs ht)
      obtain ⟨g', a, b, rfl, rfl⟩ := later.exists_cons
      show Option.Rel _ (_ >>= _) (_ >>= _)
      rw [ht]
      show Option.Rel _ (_ >>= _) (_ >>= _)
      cases ho : g'.digitValue? 10 with
      | none => exact .none
      | some ones => exact .some ⟨later.behind (digit_ne_stop hs ho)⟩

/-- A mark that is no stop is followed by texts that are alike. -/
theorem rel_after? {c : Char} (hc : Glyph.scalar c ≠ stop)
    (h : Alike stop a b) :
    Option.Rel (Alike stop) (after? c a) (after? c b) := by
  obtain ⟨g, a, b, rfl, rfl⟩ := h.exists_cons
  rw [after?, after?]
  split
  next hg => exact .some (h.behind (hg ▸ hc))
  next => exact .none

/-- The same piece, with alike texts behind it. -/
structure SamePiece (stop : Glyph) (p q : Piece) : Prop where
  length : q.length = p.length
  faults : q.faults = p.faults
  rest : Alike stop p.rest q.rest

/-- A fraction of a second is as long in both texts. -/
theorem fractionLength_upTo (hs : Stop stop) (h : UpTo stop count a b) :
    fractionLength b = fractionLength a ∧ fractionLength a ≤ count := by
  have point : stop ≠ .scalar '.' := by cases hs <;> decide
  have none {g : Glyph} (hg : g ≠ .scalar '.') (rest : List Glyph) :
      fractionLength (g :: rest) = 0 := by
    unfold fractionLength
    split
    next he =>
      injection he with hd
      exact absurd hd hg
    next => rfl
  cases h with
  | here a b =>
      rw [none point, none point]
      exact ⟨rfl, Nat.le_refl 0⟩
  | cons g later =>
      by_cases hg : g = .scalar '.'
      · subst hg
        have inside := later.length_takeWhile_le (Number.isDigit_stop hs)
        rw [fractionLength, fractionLength, later.takeWhile_eq inside]
        refine ⟨rfl, ?_⟩
        split
        · exact Nat.zero_le _
        · omega
      · rw [none hg, none hg]
        exact ⟨rfl, Nat.zero_le _⟩

/-- A time is the same piece, if there is one. -/
theorem rel_time? (hs : Stop stop) (start : Nat) (h : Alike stop a b) :
    Option.Rel (SamePiece stop) (time? start a) (time? start b) := by
  have colon : Glyph.scalar ':' ≠ stop := by cases hs <;> decide
  refine rel_bind (rel_pair? hs h) ?_
  rintro _ _ ⟨h⟩
  refine rel_bind (rel_after? colon h) fun a b h => ?_
  refine rel_bind (rel_pair? hs h) ?_
  rintro _ _ ⟨h⟩
  refine rel_bind (rel_after? colon h) fun a b h => ?_
  refine rel_bind (rel_pair? hs h) ?_
  rintro _ _ ⟨count, h⟩
  obtain ⟨fraction, inside⟩ := fractionLength_upTo hs h
  dsimp only
  rw [fraction]
  exact .some ⟨rfl, rfl, _, h.drop inside⟩

/-- So is a date. -/
theorem rel_date? (hs : Stop stop) (h : Alike stop a b) :
    Option.Rel (SamePiece stop) (date? a) (date? b) := by
  have hyphen : Glyph.scalar '-' ≠ stop := by cases hs <;> decide
  refine rel_bind (rel_pair? hs h) ?_
  rintro _ _ ⟨h⟩
  refine rel_bind (rel_pair? hs h) ?_
  rintro _ _ ⟨h⟩
  refine rel_bind (rel_after? hyphen h) fun a b h => ?_
  refine rel_bind (rel_pair? hs h) ?_
  rintro _ _ ⟨h⟩
  refine rel_bind (rel_after? hyphen h) fun a b h => ?_
  refine rel_bind (rel_pair? hs h) ?_
  rintro _ _ ⟨h⟩
  exact .some ⟨rfl, rfl, h⟩

/-- So is the shift of a zone. -/
theorem rel_shift? (hs : Stop stop) (start : Nat) (h : Alike stop a b) :
    Option.Rel (SamePiece stop) (shift? start a) (shift? start b) := by
  obtain ⟨g, a, b, rfl, rfl⟩ := h.exists_cons
  have sign : Option.Rel (fun _ _ => g ≠ stop)
      (guard (g = .scalar '+' ∨ g = .scalar '-') : Option Unit)
      (guard (g = .scalar '+' ∨ g = .scalar '-')) := by
    unfold guard
    split
    next hg =>
      exact .some (by rcases hg with rfl | rfl <;> cases hs <;> decide)
    next => exact .none
  refine rel_bind sign fun _ _ other => ?_
  refine rel_bind (rel_pair? hs (h.behind other)) ?_
  rintro _ _ ⟨h⟩
  refine rel_bind (rel_after? (by cases hs <;> decide) h) fun a b h => ?_
  refine rel_bind (rel_pair? hs h) ?_
  rintro _ _ ⟨h⟩
  exact .some ⟨rfl, rfl, h⟩

/-- Zones in alike texts are the same. -/
theorem same_zone (hs : Stop stop) (start : Nat) (h : Alike stop a b) :
    SamePiece stop (zone start a) (zone start b) := by
  have shifted := rel_shift? hs start h
  obtain ⟨g, a, b, rfl, rfl⟩ := h.exists_cons
  by_cases capital : g = .scalar 'Z'
  · subst capital
    exact ⟨rfl, rfl, h.behind (by cases hs <;> decide)⟩
  by_cases small : g = .scalar 'z'
  · subst small
    exact ⟨rfl, rfl, h.behind (by cases hs <;> decide)⟩
  have plain (rest : List Glyph) : zone start (g :: rest)
      = (shift? start (g :: rest)).getD ⟨0, [], g :: rest⟩ := by
    apply zone_of_ne
    · exact mt Option.some.inj capital
    · exact mt Option.some.inj small
  rw [plain, plain]
  exact rel_getD shifted ⟨rfl, rfl, h⟩

/-- Whether a date or time may end there is told by the next glyph. -/
theorem endsBefore_alike (h : Alike stop a b) :
    endsBefore b = endsBefore a := by
  obtain ⟨g, a, b, rfl, rfl⟩ := h.exists_cons
  rfl

/-- The same literal, with alike texts behind it. -/
inductive SameLiteral (stop : Glyph) :
    Temporal × List Glyph → Temporal × List Glyph → Prop
  | mk {temporal : Temporal} {a b : List Glyph} :
      Alike stop a b → SameLiteral stop (temporal, a) (temporal, b)

theorem same_ofPiece (kind : Literal) {p q : Piece}
    (h : SamePiece stop p q) :
    SameLiteral stop (ofPiece kind p) (ofPiece kind q) := by
  unfold ofPiece
  rw [h.length, h.faults]
  exact ⟨h.rest⟩

/-- A date-time is the same literal, if there is one. -/
theorem rel_dateTime (hs : Stop stop) {p q : Piece}
    (h : SamePiece stop p q) (ht : Alike stop a b) :
    Option.Rel (SameLiteral stop)
      (do
        let time ← time? 11 a
        let zone := zone (11 + time.length) time.rest
        some (⟨.dateTime, 11 + time.length + zone.length,
          p.faults ++ time.faults ++ zone.faults⟩, zone.rest))
      (do
        let time ← time? 11 b
        let zone := zone (11 + time.length) time.rest
        some (⟨.dateTime, 11 + time.length + zone.length,
          q.faults ++ time.faults ++ zone.faults⟩, zone.rest)) := by
  refine rel_bind (rel_time? hs 11 ht) fun time time' same => ?_
  have zone := same_zone hs (11 + time.length) same.rest
  dsimp only
  rw [same.length, zone.length, h.faults, same.faults, zone.faults]
  exact .some ⟨zone.rest⟩

/-- So is what a date goes on to. -/
theorem rel_afterDate? (hs : Stop stop) {p q : Piece}
    (h : SamePiece stop p q) :
    Option.Rel (SameLiteral stop) (afterDate? p) (afterDate? q) := by
  have rest := h.rest
  obtain ⟨g, a, b, hp, hq⟩ := rest.exists_cons
  rw [hp, hq] at rest
  by_cases capital : g = .scalar 'T'
  · subst capital
    unfold afterDate?
    rw [hp, hq]
    exact rel_dateTime hs h (rest.behind (by cases hs <;> decide))
  by_cases small : g = .scalar 't'
  · subst small
    unfold afterDate?
    rw [hp, hq]
    exact rel_dateTime hs h (rest.behind (by cases hs <;> decide))
  have plain {r : Piece} {rest : List Glyph} (hr : r.rest = g :: rest) :
      afterDate? r = some (ofPiece .date r) := by
    apply afterDate?_of_ne <;> rw [hr]
    · exact mt Option.some.inj capital
    · exact mt Option.some.inj small
  rw [plain hp, plain hq]
  exact .some (same_ofPiece .date h)

/-- So is whatever has the shape of a date or a time. -/
theorem rel_shape? (hs : Stop stop) (h : Alike stop a b) :
    Option.Rel (SameLiteral stop) (shape? a) (shape? b) := by
  have date : Option.Rel (SameLiteral stop)
      ((date? a).bind afterDate?) ((date? b).bind afterDate?) :=
    rel_bind (rel_date? hs h) fun _ _ => rel_afterDate? hs
  have time := rel_time? hs 0 h
  unfold shape?
  generalize time? 0 a = x at time ⊢
  generalize time? 0 b = y at time ⊢
  cases time with
  | some same => exact .some (same_ofPiece .time same)
  | none => exact date

/-- A date or a time is the same in both texts. -/
theorem read?_upTo (hs : Stop stop) (h : UpTo stop count a b) :
    read? b = read? a := by
  have shape := rel_shape? hs ⟨count, h⟩
  unfold read?
  generalize shape? a = x at shape ⊢
  generalize shape? b = y at shape ⊢
  cases shape with
  | none => rfl
  | some same =>
      obtain ⟨behind⟩ := same
      dsimp only [Option.bind_eq_bind, Option.bind_some]
      rw [endsBefore_alike behind]

end Temporal

-- ============================================================ escapes

namespace Escape

/-- The digits of an escape are the same, and end before the stop. -/
theorem digits_upTo (hs : Stop stop) (base most : Nat)
    (h : UpTo stop count a b) :
    digits base most b = digits base most a
      ∧ (digits base most a).length ≤ count := by
  induction most generalizing count a b with
  | zero => exact ⟨rfl, Nat.zero_le _⟩
  | succ most ih =>
      obtain ⟨g, a, b, rfl, rfl⟩ := h.exists_cons
      rw [digits, digits]
      split
      next d hd =>
        obtain ⟨_, rfl, later⟩ := h.behind (Temporal.digit_ne_stop hs hd)
        obtain ⟨same, inside⟩ := ih later
        rw [same]
        exact ⟨rfl, Nat.succ_le_succ inside⟩
      next => exact ⟨rfl, Nat.zero_le _⟩

theorem hexadecimal_upTo (hs : Stop stop) (most greatest : Nat)
    (h : UpTo stop count a b) :
    hexadecimal most greatest b = hexadecimal most greatest a := by
  obtain ⟨same, inside⟩ := digits_upTo hs 16 most h
  obtain ⟨g, a', b', ha, hb⟩ := (h.drop inside).exists_cons
  unfold hexadecimal
  dsimp only
  rw [same, ha, hb]
  rfl

/-- An escape is the same in both texts. -/
theorem read_upTo (hs : Stop stop) (h : UpTo stop count a b) :
    read b = read a := by
  have octal := (digits_upTo hs 8 3 h).1
  obtain ⟨g, a, b, rfl, rfl⟩ := h.exists_cons
  rw [read, read, octal]
  split
  next => rfl
  split
  next => rfl
  split
  next hg =>
    obtain ⟨_, -, later⟩ := h.behind (by rw [hg]; cases hs <;> decide)
    exact hexadecimal_upTo hs 2 _ later
  split
  next hg =>
    obtain ⟨_, -, later⟩ := h.behind (by rw [hg]; cases hs <;> decide)
    exact hexadecimal_upTo hs 4 _ later
  split
  next hg =>
    obtain ⟨_, -, later⟩ := h.behind (by rw [hg]; cases hs <;> decide)
    exact hexadecimal_upTo hs 8 _ later
  next => rfl

end Escape

-- ======================================================== raw strings

namespace RawString

theorem quote_ne_stop (hs : Stop stop) : Glyph.scalar '\x27' ≠ stop := by
  cases hs <;> decide

/-- A string on one line that ends before the texts part is the same. -/
theorem single_upTo (hs : Stop stop) (h : UpTo stop count a b)
    (inside : (single a).length ≤ count) : single b = single a := by
  fun_induction single a generalizing count b with
  | case1 => cases h
  | case2 rest =>
      obtain ⟨_, _, b, he, rfl⟩ := h.exists_cons
      cases he
      rfl
  | case3 rest =>
      obtain ⟨_, b, -, rfl, -⟩ := h.front (quote_ne_stop hs)
      rfl
  | case4 rest ih =>
      obtain ⟨_, _, rfl, rfl, second⟩ := h.front (by cases hs <;> decide)
      obtain ⟨_, b, rfl, rfl, later⟩ := second.front (quote_ne_stop hs)
      have inside : (single rest).length ≤ _ :=
        Nat.le_of_add_le_add_right inside
      rw [single, ih later inside]
  | case5 g rest notEnd notQuote notEscape ih =>
      cases h with
      | here => cases inside
      | cons g later =>
          have inside : (single rest).length ≤ _ :=
            Nat.le_of_add_le_add_right inside
          rw [single, ih later inside]
          · exact notEnd
          · exact notQuote
          · rintro behind hg rfl
            obtain ⟨_, a, -, rfl, -⟩ := later.symm.front (quote_ne_stop hs)
            exact notEscape a hg rfl

/-- So is one in three quotes. -/
theorem triple_upTo (hs : Stop stop) (h : UpTo stop count a b)
    (inside : (triple a).length ≤ count) : triple b = triple a := by
  have quote := quote_ne_stop hs
  fun_induction triple a generalizing count b with
  | case1 => cases h
  | case2 rest =>
      obtain ⟨_, _, -, rfl, second⟩ := h.front quote
      obtain ⟨_, _, -, rfl, third⟩ := second.front quote
      obtain ⟨_, b, -, rfl, -⟩ := third.front quote
      rfl
  | case3 g rest other ih =>
      cases h with
      | here => cases inside
      | cons g later =>
          have inside : (triple rest).length ≤ _ :=
            Nat.le_of_add_le_add_right inside
          rw [triple, ih later inside]
          rintro behind hg rfl
          obtain ⟨_, _, -, rfl, third⟩ := later.symm.front quote
          obtain ⟨_, a, -, rfl, -⟩ := third.front quote
          exact other a hg rfl

/-- A raw string that is closed before the texts part is the same. -/
theorem read_upTo (hs : Stop stop) (h : UpTo stop count a b)
    (inside : (read a).length ≤ count) : read b = read a := by
  have quote := quote_ne_stop hs
  fun_cases read a with
  | case1 rest =>
      obtain ⟨_, _, rfl, rfl, second⟩ := h.front quote
      obtain ⟨_, b, rfl, rfl, later⟩ := second.front quote
      have inside : (triple rest).length ≤ _ :=
        Nat.le_of_add_le_add_right inside
      rw [read, triple_upTo hs later inside]
  | case2 rest other =>
      obtain ⟨_, b, -, rfl, later⟩ := h.front quote
      rw [read]
      rintro behind rfl
      obtain ⟨_, a, -, rfl, -⟩ := later.symm.front quote
      exact other a rfl
  | case3 _ notTriple notQuote =>
      have whole : read a = single a := by
        rw [read]
        · exact notTriple
        · exact notQuote
      rw [whole] at inside
      rw [← single_upTo hs h inside]
      obtain ⟨g, a, b, rfl, rfl⟩ := h.exists_cons
      rw [read]
      · intro behind he
        injection he with hg
        exact notQuote a (by rw [hg])
      · intro behind he
        injection he with hg
        exact notQuote a (by rw [hg])

end RawString

end BuildLexer
