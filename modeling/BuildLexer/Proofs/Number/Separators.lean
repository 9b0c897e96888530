/-
Where separators are reported.

A separator of a number is out of place when it directly follows another
one and when it ends its run of digits (`Run.IsMisplaced`). The reports
of separators are at these places and nowhere else, for any number of
separators in the mantissa, the fraction and the exponent.

Each of the two rules reports a place once. A separator that both follows
another one and ends its run is reported by both, so the places are
distinct exactly when no run ends with two separators
(`separators_reported`). Runs of one number do not share places, so only
the places within a run have to be told apart (`Run.nodup_misplaced`).
-/
import BuildLexer.Proofs.Number.Recognition
import BuildLexer.Proofs.Scanner.Told
import Mathlib.Data.List.Nodup

namespace BuildLexer

open Glyph Number

-- =============================================================== places

namespace Number.Run

variable {r : Run} {start offset : Nat} {gs : List Glyph}

/-- An offset at which a separator follows one or ends the run. -/
def IsMisplaced (r : Run) (offset : Nat) : Prop :=
  ∃ i, offset = r.start + i ∧ r.glyphs[i]? = some separator
    ∧ (i + 1 = r.glyphs.length
      ∨ ∃ j, j + 1 = i ∧ r.glyphs[j]? = some separator)

/-- A run of which the last two glyphs are separators. -/
def EndsDoubled (r : Run) : Prop := [separator, separator] <:+ r.glyphs

/-- Where separators of a run are noted, in order. -/
def misplaced (r : Run) : List Nat :=
  (r.doubled ++ r.dangling).map (·.offset)

theorem mem_doubledFrom_iff :
    offset ∈ doubledFrom start gs
      ↔ ∃ j, offset = start + (j + 1) ∧ gs[j]? = some separator
        ∧ gs[j + 1]? = some separator := by
  fun_induction doubledFrom start gs with
  | case1 start a b rest both ih =>
      rw [List.mem_cons, ih]
      constructor
      · rintro (rfl | ⟨j, rfl, first, second⟩)
        · exact ⟨0, rfl, congrArg some both.1, congrArg some both.2⟩
        · exact ⟨j + 1, by omega, first, second⟩
      · rintro ⟨j, rfl, first, second⟩
        cases j with
        | zero => exact .inl rfl
        | succ j => exact .inr ⟨j, by omega, first, second⟩
  | case2 start a b rest apart ih =>
      rw [ih]
      constructor
      · rintro ⟨j, rfl, first, second⟩
        exact ⟨j + 1, by omega, first, second⟩
      · rintro ⟨j, rfl, first, second⟩
        cases j with
        | zero =>
            exact absurd ⟨Option.some.inj first, Option.some.inj second⟩ apart
        | succ j => exact ⟨j, by omega, first, second⟩
  | case3 gs start short =>
      refine iff_of_false List.not_mem_nil ?_
      rintro ⟨j, -, -, second⟩
      obtain ⟨inside, -⟩ := List.getElem?_eq_some_iff.1 second
      cases gs with
      | nil => cases inside
      | cons a more =>
          cases more with
          | nil => exact absurd inside (by simp)
          | cons b rest => exact short a b rest rfl

/-- They are noted from left to right. -/
theorem ascends_doubledFrom (start : Nat) (gs : List Glyph) :
    (doubledFrom start gs).Pairwise (· < ·) := by
  have behind {start offset : Nat} {gs : List Glyph}
      (h : offset ∈ doubledFrom start gs) : start < offset := by
    obtain ⟨j, rfl, -, -⟩ := mem_doubledFrom_iff.1 h
    omega
  fun_induction doubledFrom start gs with
  | case1 start a b rest _ ih =>
      exact List.pairwise_cons.2 ⟨fun _ => behind, ih⟩
  | case2 start a b rest _ ih => exact ih
  | case3 => exact .nil

theorem misplaced_eq (r : Run) :
    r.misplaced = doubledFrom r.start r.glyphs
      ++ if r.glyphs.getLast? = some separator then [r.stop - 1] else [] := by
  unfold misplaced doubled dangling
  rw [List.map_append, List.map_map]
  congr 1
  · exact List.map_id _
  · split <;> rfl

/-- The last glyph of a run, by its place. -/
theorem getLast?_eq_iff :
    gs.getLast? = some separator
      ↔ ∃ i, i + 1 = gs.length ∧ gs[i]? = some separator := by
  rw [List.getLast?_eq_getElem?]
  constructor
  · intro last
    obtain ⟨inside, -⟩ := List.getElem?_eq_some_iff.1 last
    exact ⟨gs.length - 1, by omega, last⟩
  · rintro ⟨i, count, here⟩
    rwa [← count, Nat.add_sub_cancel]

/-- Separators are noted where they are out of place. -/
theorem mem_misplaced_iff : offset ∈ r.misplaced ↔ r.IsMisplaced offset := by
  rw [misplaced_eq, List.mem_append, mem_doubledFrom_iff]
  constructor
  · rintro (⟨j, rfl, first, second⟩ | last)
    · exact ⟨j + 1, rfl, second, .inr ⟨j, rfl, first⟩⟩
    · split at last
      next ends =>
        obtain ⟨i, count, here⟩ := getLast?_eq_iff.1 ends
        refine ⟨i, ?_, here, .inl count⟩
        rw [List.mem_singleton.1 last, stop, ← count]
        rfl
      next => cases last
  · rintro ⟨i, rfl, here, count | ⟨j, rfl, first⟩⟩
    · right
      rw [if_pos (getLast?_eq_iff.2 ⟨i, count, here⟩), List.mem_singleton,
        stop, ← count]
      rfl
    · exact .inl ⟨j, rfl, first, here⟩

/-- They are in the run. -/
theorem inside_of_mem_misplaced (h : offset ∈ r.misplaced) :
    r.start ≤ offset ∧ offset < r.stop := by
  obtain ⟨i, rfl, here, -⟩ := mem_misplaced_iff.1 h
  obtain ⟨inside, -⟩ := List.getElem?_eq_some_iff.1 here
  exact ⟨Nat.le_add_right _ _, Nat.add_lt_add_left inside _⟩

theorem endsDoubled_iff :
    r.EndsDoubled ↔ ∃ j, j + 2 = r.glyphs.length
      ∧ r.glyphs[j]? = some separator
      ∧ r.glyphs[j + 1]? = some separator := by
  unfold EndsDoubled
  constructor
  · rintro ⟨front, split⟩
    rw [← split]
    exact ⟨front.length, by simp, by simp, by simp⟩
  · rintro ⟨j, count, first, second⟩
    refine ⟨r.glyphs.take j, ?_⟩
    obtain ⟨inside, last⟩ := List.getElem?_eq_some_iff.1 second
    obtain ⟨_, former⟩ := List.getElem?_eq_some_iff.1 first
    have none : r.glyphs.drop (j + 2) = [] :=
      List.drop_eq_nil_of_le (Nat.le_of_eq count.symm)
    have rest : r.glyphs.drop j = [separator, separator] := by
      rw [List.drop_eq_getElem_cons (by omega), former,
        List.drop_eq_getElem_cons inside, last, none]
    rw [← rest, List.take_append_drop]

/-- Within a run only the last separator can be noted twice. -/
theorem nodup_misplaced : r.misplaced.Nodup ↔ ¬ r.EndsDoubled := by
  have distinct : (doubledFrom r.start r.glyphs).Nodup :=
    (ascends_doubledFrom _ _).imp Nat.ne_of_lt
  rw [misplaced_eq, endsDoubled_iff]
  by_cases ends : r.glyphs.getLast? = some separator
  · obtain ⟨i, count, last⟩ := getLast?_eq_iff.1 ends
    have place : r.stop - 1 = r.start + i := by
      rw [stop, ← count]
      rfl
    rw [if_pos ends, ← List.concat_eq_append, List.nodup_concat, place,
      mem_doubledFrom_iff, and_iff_left distinct]
    refine not_congr ⟨?_, ?_⟩
    · rintro ⟨j, same, first, second⟩
      exact ⟨j, by omega, first, second⟩
    · rintro ⟨j, length, first, second⟩
      exact ⟨j, by omega, first, second⟩
  · rw [if_neg ends, List.append_nil]
    refine iff_of_true distinct ?_
    rintro ⟨j, length, -, second⟩
    exact ends (getLast?_eq_iff.2 ⟨j + 1, length, second⟩)

/-- A run by its place in a text that stands at an offset. -/
def shift (start : Nat) (r : Run) : Run := ⟨start + r.start, r.glyphs⟩

theorem doubledFrom_shift (start offset : Nat) (gs : List Glyph) :
    doubledFrom (start + offset) gs
      = (doubledFrom offset gs).map (start + ·) := by
  fun_induction doubledFrom offset gs with
  | case1 offset a b rest both ih =>
      rw [doubledFrom, if_pos both, Nat.add_assoc, ih]
      rfl
  | case2 offset a b rest apart ih =>
      rw [doubledFrom, if_neg apart, Nat.add_assoc, ih]
  | case3 gs offset short =>
      unfold doubledFrom
      split
      next a b rest => exact absurd rfl (short a b rest)
      next => rfl

theorem misplaced_shift (start : Nat) (r : Run) :
    (r.shift start).misplaced = r.misplaced.map (start + ·) := by
  rw [misplaced_eq, misplaced_eq, List.map_append, shift,
    doubledFrom_shift]
  congr 1
  split
  next ends =>
    obtain ⟨i, count, -⟩ := getLast?_eq_iff.1 ends
    show [start + r.start + r.glyphs.length - 1]
      = [start + (r.start + r.glyphs.length - 1)]
    rw [← count, Nat.add_assoc]
    rfl
  next => rfl

end Number.Run

-- ================================================================= runs

/-- The runs of digits and separators in a numeral that starts at an
offset. -/
def Numeral.runs (start : Nat) : Numeral → List Run
  | binary _ digits | hexadecimal _ digits => [⟨start + 2, written digits⟩]
  | decimal mantissa fraction exponent =>
    ⟨start, written mantissa⟩
      :: (fractionRuns (start + mantissa.length) fraction
        ++ exponentRuns (start + mantissa.length
          + (fractionText fraction).length) exponent)

theorem Numeral.runs_shift (start offset : Nat) (n : Numeral) :
    n.runs (start + offset) = (n.runs offset).map (Run.shift start) := by
  cases n with
  | binary => rfl
  | hexadecimal => rfl
  | decimal mantissa fraction exponent =>
      cases fraction <;> cases exponent <;>
        simp [runs, fractionRuns, exponentRuns, fractionText, Run.shift,
          Nat.add_assoc]

/-- Each run ends before the next one begins. -/
theorem Numeral.runs_apart (start : Nat) (n : Numeral) :
    (n.runs start).Pairwise (·.stop ≤ ·.start) := by
  cases n with
  | binary => exact List.pairwise_singleton _ _
  | hexadecimal => exact List.pairwise_singleton _ _
  | decimal mantissa fraction exponent =>
      cases fraction <;> cases exponent <;>
        simp +arith [runs, fractionRuns, exponentRuns, fractionText,
          Run.stop]

/-- The places at which separators of some runs are noted are distinct
when no run ends with two of them. -/
theorem nodup_misplaced_runs {runs : List Run}
    (apart : runs.Pairwise (·.stop ≤ ·.start)) :
    (runs.flatMap Run.misplaced).Nodup ↔ ∀ r ∈ runs, ¬ r.EndsDoubled := by
  rw [List.nodup_flatMap]
  have disjoint : runs.Pairwise
      (Function.onFun List.Disjoint Run.misplaced) := by
    refine apart.imp fun {a b} before offset first second => ?_
    have := (Run.inside_of_mem_misplaced first).2
    have := (Run.inside_of_mem_misplaced second).1
    omega
  rw [and_iff_left disjoint]
  exact forall₂_congr fun r _ => Run.nodup_misplaced

-- ================================================================ notes

/-- What is noted about separators, by offset. -/
abbrev separatorsOf (fs : List Finding) : List Nat :=
  Scanner.offsetsOf [.misplacedSeparator] fs

open Scanner (offsetsOf_append offsetsOf_eq_nil)

/-- What is noted of a run is about separators only. -/
theorem separatorsOf_run (r : Run) :
    separatorsOf (r.doubled ++ r.dangling) = r.misplaced := by
  unfold separatorsOf Scanner.offsetsOf Run.misplaced
  congr 1
  refine List.filter_eq_self.2 fun f hf => ?_
  have fault : f.fault = .misplacedSeparator := by
    rcases List.mem_append.1 hf with hf | hf
    · obtain ⟨offset, -, rfl⟩ := List.mem_map.1 hf
      rfl
    · unfold Run.dangling at hf
      split at hf
      next => rw [List.mem_singleton.1 hf]
      next => cases hf
  rw [fault]
  rfl

theorem separatorsOf_one (r : Run) {whole : List Finding}
    (other : ∀ f ∈ whole, f.fault ≠ .misplacedSeparator) :
    separatorsOf (r.doubled ++ (r.dangling ++ whole))
      = [r].flatMap Run.misplaced := by
  have none : separatorsOf whole = [] :=
    offsetsOf_eq_nil fun f hf same =>
      other f hf (List.mem_singleton.1 same)
  rw [← List.append_assoc, separatorsOf, offsetsOf_append]
  show separatorsOf _ ++ separatorsOf whole = _
  rw [none, separatorsOf_run, List.flatMap_singleton, List.append_nil]

/-- Early or late, each run of a float is noted once. -/
theorem earlyOf_append_lateOf (runs : List Run) :
    earlyOf runs ++ lateOf runs
      = runs.flatMap fun r => r.doubled ++ r.dangling := by
  fun_induction earlyOf runs with
  | case1 => rfl
  | case2 last => exact (List.append_nil _).symm
  | case3 r rest some ih =>
      have later : rest ≠ [] := by
        rintro rfl
        exact some rfl
      rw [lateOf_cons r later, List.append_assoc, ih, List.flatMap_cons]

theorem separatorsOf_runs (runs : List Run) :
    separatorsOf (earlyOf runs ++ lateOf runs)
      = runs.flatMap Run.misplaced := by
  rw [earlyOf_append_lateOf]
  induction runs with
  | nil => rfl
  | cons r runs ih =>
      rw [List.flatMap_cons, separatorsOf, offsetsOf_append,
        List.flatMap_cons, ← ih, ← separatorsOf_run]

theorem separatorsOf_zeroKind (mantissa : Run) (rest : List Glyph) :
    ∀ f ∈ (zeroKind mantissa rest).2, f.fault ≠ .misplacedSeparator := by
  unfold zeroKind
  split
  next => exact nofun
  split
  next => exact List.forall_mem_singleton.2 nofun
  next => exact nofun

/-- What is noted about the separators of a numeral. -/
theorem separatorsOf_read {n : Numeral} {src rest : List Glyph}
    (spans : n.Spans src rest) (start : Nat) :
    separatorsOf ((Number.read start src).early
        ++ (Number.read start src).late)
      = (n.runs start).flatMap Run.misplaced := by
  obtain ⟨rfl, proper, stops⟩ := spans
  cases n with
  | binary capital digits =>
      rw [read_binary capital proper stops]
      refine separatorsOf_one _ ?_
      split
      · exact List.forall_mem_singleton.2 nofun
      · rintro f hf
        obtain ⟨_, -, rfl⟩ := List.mem_map.1 hf
        nofun
  | hexadecimal capital digits =>
      rw [read_hexadecimal capital proper stops]
      refine separatorsOf_one _ ?_
      split
      · exact List.forall_mem_singleton.2 nofun
      · exact nofun
  | decimal mantissa fraction exponent =>
      have begins := stop_written start mantissa
      by_cases float : fraction = none ∧ exponent = none
      · obtain ⟨rfl, rfl⟩ := float
        rw [read_whole proper stops]
        refine separatorsOf_one _ ?_
        split
        · exact separatorsOf_zeroKind _ _
        · exact nofun
      · obtain ⟨runs, further⟩ : ∃ runs, runs
            = fractionRuns (start + mantissa.length) fraction
              ++ exponentRuns (start + mantissa.length
                + (fractionText fraction).length) exponent := ⟨_, rfl⟩
        have nonempty : runs ≠ [] := by
          rw [further]
          cases fraction <;> cases exponent <;>
            simp_all [fractionRuns, exponentRuns]
        rw [read_float proper stops rfl (by rw [begins]; exact further)
          nonempty]
        dsimp only
        rw [← lateOf_cons ⟨start, written mantissa⟩ nonempty,
          separatorsOf_runs, further]
        rfl

-- ============================================================== in a call

namespace Scanner

variable {file : File} {mode : Mode} {source : List UInt8}
  {begun s : Scanner} {sign : List Char} {src rest : List Glyph}

/-- What is told about separators. -/
def separatorWords : List String :=
  ["'_' must separate successive digits"]

theorem means_separatorWords :
    Means separatorWords [.misplacedSeparator] := by decide

/-- A call that takes a number tells where separators are noted. -/
theorem told_number (reading : s.Reading source)
    (before : s.BeforeNumber sign src) {n : Numeral}
    (spans : n.Spans src rest) :
    told separatorWords s s.scan.2
      = (n.runs (s.offset + sign.length)).flatMap Run.misplaced := by
  rw [(takes_read reading before spans).told means_separatorWords
    (List.forall_mem_singleton.2 nofun)]
  show (separatorsOf _).map _ = _
  rw [separatorsOf_read spans, Numeral.runs_shift, List.map_flatMap,
    List.flatMap_map]
  exact congrArg (List.flatMap · _) (funext fun r =>
    (r.misplaced_shift s.offset).symm)

/-- Before a number: what it spans is taken, each place where a separator
is misplaced is told, no other is, and no place is told twice exactly when
no run of digits ends with two separators. -/
theorem separators_reported (file : File) (mode : Mode)
    (source : List UInt8) (begun s : Scanner) (sign : List Char)
    (src : List Glyph)
    (started : Scanner.start file mode source = .ok begun)
    (place : StepsAt begun s) (before : s.BeforeNumber sign src) :
    (∃ (n : Numeral) (rest : List Glyph), n.Spans src rest)
      ∧ ∀ (n : Numeral) (rest : List Glyph), n.Spans src rest →
        (∀ offset, offset ∈ told separatorWords s s.scan.2
          ↔ ∃ r ∈ n.runs (s.offset + sign.length), r.IsMisplaced offset)
        ∧ ((told separatorWords s s.scan.2).Nodup
          ↔ ∀ r ∈ n.runs (s.offset + sign.length), ¬ r.EndsDoubled) := by
  refine ⟨exists_spans before.digit, fun n rest spans => ?_⟩
  rw [told_number (place.reading started) before spans]
  refine ⟨fun offset => ?_, nodup_misplaced_runs (n.runs_apart _)⟩
  rw [List.mem_flatMap]
  exact exists_congr fun r => and_congr_right fun _ =>
    Run.mem_misplaced_iff

/-- Before `1_.5__`. -/
def beforeSeparators : Scanner :=
  ofGlyphs (File.alone "" 6) {} (ofBytes [49, 95, 46, 53, 95, 95])

/-- The mantissa ends with a separator, the fraction with two. -/
theorem separators_reported_in_two_runs :
    Scanner.start (File.alone "" 6) {} [49, 95, 46, 53, 95, 95]
        = .ok beforeSeparators
      ∧ 1 ∈ told separatorWords beforeSeparators beforeSeparators.scan.2
      ∧ ¬ (told separatorWords beforeSeparators
        beforeSeparators.scan.2).Nodup := by
  have started : Scanner.start (File.alone "" 6) {} [49, 95, 46, 53, 95, 95]
      = .ok beforeSeparators := rfl
  have before : beforeSeparators.BeforeNumber []
      (written ['1', '_', '.', '5', '_', '_']) :=
    ⟨⟨by decide +kernel, by decide +kernel⟩, by decide +kernel, rfl,
      .inl ⟨rfl, by decide +kernel⟩⟩
  have spans : (Numeral.decimal ['1', '_'] (some ['5', '_', '_']) none).Spans
      (written ['1', '_', '.', '5', '_', '_']) [] := by
    refine ⟨rfl, ⟨⟨rfl, forall_mem_of_all (by decide)⟩, ?_, nofun⟩,
      stops_nil _⟩
    rintro digits ⟨⟩
    exact ⟨rfl, forall_mem_of_all (by decide)⟩
  have runs : (Numeral.decimal ['1', '_'] (some ['5', '_', '_']) none).runs
      (beforeSeparators.offset + ([] : List Char).length)
      = [⟨0, written ['1', '_']⟩, ⟨3, written ['5', '_', '_']⟩] := by
    have zero : beforeSeparators.offset = 0 := by decide +kernel
    rw [zero]
    rfl
  obtain ⟨places, distinct⟩ := (separators_reported _ _ _ _ _ _ _
    started (.call (.done _)) before).2 _ _ spans
  rw [runs] at places distinct
  refine ⟨started, (places 1).2 ?_, fun nodup => ?_⟩
  · exact ⟨_, .head _, 1, rfl, rfl, .inl rfl⟩
  · exact distinct.1 nodup _ (.tail _ (.head _)) ⟨[scalar '5'], rfl⟩

/-- Before `1__`. -/
def beforeDoubled : Scanner :=
  ofGlyphs (File.alone "" 3) {} (ofBytes [49, 95, 95])

/-- In `1__` the second separator is reported twice. -/
theorem not_separators_distinct_all :
    ¬ ∀ (file : File) (mode : Mode) (source : List UInt8)
        (begun s : Scanner) (sign : List Char) (src : List Glyph),
        Scanner.start file mode source = .ok begun → StepsAt begun s →
        s.BeforeNumber sign src →
        (told separatorWords s s.scan.2).Nodup := by
  intro distinct
  have before : beforeDoubled.BeforeNumber [] (written ['1', '_', '_']) :=
    ⟨⟨by decide +kernel, by decide +kernel⟩, by decide +kernel, rfl,
      .inl ⟨rfl, by decide +kernel⟩⟩
  have twice : told separatorWords beforeDoubled beforeDoubled.scan.2
      = [2, 2] := by decide +kernel
  have nodup := distinct (File.alone "" 3) {} [49, 95, 95] beforeDoubled _
    _ _ rfl (.call (.done _)) before
  rw [twice] at nodup
  exact absurd nodup (by decide)

end Scanner

end BuildLexer
