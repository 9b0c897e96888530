/-
What a scanner tells in some words, and from where.

A scanner makes a step where a call begins, and again within the call
behind text that is skipped (`Scanner.StepsAt`). What is known of every
state of a session and kept by a step is known of all these places.

Between a scanner and a later one the reports were added that the later
has and the earlier has not. Those in some words, by their offsets, are
what was told in these words (`told`). If the words are those of certain
faults, and none of them is about the encoding, a step tells of what its
plan finds and nothing else (`told_perform`): what is wrong with a glyph
wherever it stands is reported in other words.
-/
import BuildLexer.Proofs.Nesting.Sound
import BuildLexer.Proofs.Scanner.Code

namespace BuildLexer

open Glyph

namespace Scanner

variable {file : File} {mode : Mode} {source : List UInt8}
  {begun s t : Scanner} {words : List String} {faults : List Fault}

-- ============================================================ the places

/-- The places where a scanner makes its steps when tokens are read from
it and recipes are switched: where a call begins, and where the call goes
on behind a step that made no token. What the call gives is what it would
give if it began there (`scan_of_skip`). -/
inductive StepsAt (begun : Scanner) : Scanner → Prop
  | call {lexemes : List Lexeme} {s : Scanner} :
      Session begun lexemes s → StepsAt begun s
  | skipped {s : Scanner} :
      StepsAt begun s → s.plan.token = none →
      StepsAt begun (s.perform s.plan)

namespace StepsAt

/-- What each step keeps holds at all places. -/
theorem preserves {P : Scanner → Prop}
    (step : ∀ s, P s → P (s.perform s.plan))
    (line : ∀ s ends, P s →
      P { s with nesting := s.nesting.afterToken ends })
    (recipes : ∀ s on, P s → P (s.setRecipes on))
    (place : StepsAt begun s) (h : P begun) : P s := by
  induction place with
  | call work =>
      exact work.preserves (fun _ => scan_preserves step line) recipes h
  | skipped _ _ ih => exact step _ ih

/-- Such a place is sound, -/
theorem sound (place : StepsAt begun s)
    (started : Scanner.start file mode source = .ok begun) : s.Sound :=
  place.preserves (fun _ h => h.perform) (fun _ ends h => h.afterToken ends)
    (fun _ on h => h.setRecipes on) (Reachable.start started).sound

/-- it is in its file, -/
theorem placed (place : StepsAt begun s)
    (started : Scanner.start file mode source = .ok begun) :
    Placed file s :=
  place.preserves (fun _ h => h.perform _)
    (fun _ _ h => ⟨h.base, h.size, h.cursor⟩)
    (fun _ on h => h.setRecipes on) (placed_start started)

/-- and what is ahead there is the rest of the source. -/
theorem reading (place : StepsAt begun s)
    (started : Scanner.start file mode source = .ok begun) :
    s.Reading source := by
  refine ⟨?_, (place.placed started).ahead⟩
  exact place.preserves (P := StandsIn source) (fun _ h => h.perform _)
    (fun _ _ h => h) (fun _ _ h => h)
    (reading_of_session started (.done begun)).stands

end StepsAt

-- ============================================================== telling

/-- Where reports in some words were made from a scanner to a later one,
in order. -/
def told (words : List String) (s t : Scanner) : List Nat :=
  ((t.reports.drop s.errorCount).filter (·.message ∈ words)).map
    (·.position.offset)

/-- The offsets of the findings of some faults, in order. -/
def offsetsOf (faults : List Fault) (fs : List Finding) : List Nat :=
  (fs.filter (·.fault ∈ faults)).map (·.offset)

/-- The offsets in findings and more findings are those in both. -/
theorem offsetsOf_append (a b : List Finding) :
    offsetsOf faults (a ++ b) = offsetsOf faults a ++ offsetsOf faults b := by
  unfold offsetsOf
  rw [List.filter_append, List.map_append]

/-- Findings of other faults do not count. -/
theorem offsetsOf_eq_nil {fs : List Finding}
    (h : ∀ f ∈ fs, f.fault ∉ faults) : offsetsOf faults fs = [] := by
  unfold offsetsOf
  rw [List.map_eq_nil_iff, List.filter_eq_nil_iff]
  intro f hf
  rw [decide_eq_true_iff]
  exact h f hf

/-- One finding of the faults gives its offset. -/
theorem offsetsOf_singleton {f : Finding} (h : f.fault ∈ faults) :
    offsetsOf faults [f] = [f.offset] := by
  simp [offsetsOf, h]

/-- Findings that are shifted have their offsets shifted. -/
theorem offsetsOf_shift (start : Nat) (fs : List Finding) :
    offsetsOf faults (fs.map (Finding.shift start))
      = (offsetsOf faults fs).map (start + ·) := by
  unfold offsetsOf
  rw [List.filter_map, List.map_map, List.map_map]
  rfl

/-- What was told is read off the findings that were added. -/
theorem told_of_findings (means : Means words faults) {fs : List Finding}
    (h : t.findings = s.findings ++ fs) :
    told words s t = offsetsOf faults fs := by
  have count : s.errorCount = s.findings.length := by
    unfold errorCount findings reports
    rw [List.length_map, List.length_reverse]
  have added : (t.reports.drop s.errorCount).map Report.finding = fs := by
    have split := congrArg (List.drop s.errorCount) h
    rwa [count, List.drop_left, ← count, findings, ← List.map_drop] at split
  unfold told offsetsOf
  rw [← added, List.filter_map, List.map_map]
  congr 1
  refine List.filter_congr fun r _ => ?_
  exact decide_eq_decide.2 (means.message_mem_iff r.fault)

/-- What is wrong with a glyph is told in other words. -/
theorem offsetsOf_faultsFrom (apart : ∀ f ∈ faults, f.topic ≠ .encoding)
    (offset : Nat) (gs : List Glyph) :
    offsetsOf faults (faultsFrom offset gs) = [] :=
  offsetsOf_eq_nil fun _ hf member => apart _ member (topic_faultsFrom hf)

/-- A step tells of what its plan finds. -/
theorem told_perform (means : Means words faults)
    (apart : ∀ f ∈ faults, f.topic ≠ .encoding)
    (inside : s.offset + totalWidth s.rest ≤ s.file.size) (p : Plan) :
    told words s (s.perform p)
      = offsetsOf faults ((p.early ++ p.late).map
        (Finding.placed s.file.size s.offset)) := by
  rw [told_of_findings means (findings_perform p inside), added,
    offsetsOf_append, offsetsOf_append, offsetsOf_faultsFrom apart,
    List.append_nil, List.map_append, offsetsOf_append]

section Call

variable {token : Token} (hp : s.plan.token = some token)

include hp

/-- What a call gives whose first step makes the token. -/
theorem lexeme_of_token :
    s.scan.1 = ⟨s.file.handle s.offset, token, s.plan.text⟩ := by
  rw [scan_of_token hp]
  show (⟨(s.perform s.plan).file.handle s.offset, token, _⟩ : Lexeme) = _
  rw [(s.kin_perform s.plan).handle]

/-- Behind such a call is what the plan leaves. -/
theorem rest_of_token : s.scan.2.rest = s.plan.leaves s.rest := by
  rw [scan_of_token hp]
  exact rest_perform s s.plan

/-- The call ends where the bytes that the plan reads do. -/
theorem offset_of_token :
    s.scan.2.offset = s.offset + totalWidth (s.plan.reads s.rest) := by
  rw [scan_of_token hp]
  exact offset_perform s s.plan

/-- A call whose first step makes the token tells of no more. -/
theorem told_scan (means : Means words faults)
    (apart : ∀ f ∈ faults, f.topic ≠ .encoding)
    (inside : s.offset + totalWidth s.rest ≤ s.file.size) :
    told words s s.scan.2
      = offsetsOf faults ((s.plan.early ++ s.plan.late).map
        (Finding.placed s.file.size s.offset)) := by
  rw [scan_of_token hp, ← told_perform means apart inside]
  rfl

end Call

/-- A call that takes a literal tells of what is noted about it. -/
theorem Takes.told {token : Token} {text : List Char}
    {early late : List Finding} (takes : s.Takes token text early late)
    (means : Means words faults)
    (apart : ∀ f ∈ faults, f.topic ≠ .encoding) :
    told words s s.scan.2
      = (offsetsOf faults (early ++ late)).map (s.offset + ·) := by
  rw [told_of_findings means takes.findings, offsetsOf_append,
    offsetsOf_append, offsetsOf_faultsFrom apart, List.append_nil,
    ← offsetsOf_append, ← List.map_append, offsetsOf_shift]

end Scanner

end BuildLexer
