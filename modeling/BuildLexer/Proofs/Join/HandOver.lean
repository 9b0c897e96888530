/-
The last line end of a source that is the front of a longer one.

Up to its last line end the source and the longer one are scanned in
step. There the two part: alone, the scanner has come to the end, and in
the longer source it has reached the glyph behind. The step that reads
the line end makes the same of it in both, because it looks at nothing
else (`Plan.next_newline`), and reports what is wrong with the glyph
reached, which there is in the longer source only. If the line end leaves
a call by colons open, that is reported last in both, so behind what is
wrong with the next glyph (`HandsOver`).

All this is about the step that makes the token of a call. It is found
by its place: a line end for the last byte has nothing behind it
(`GivesLastByte.rest`).
-/
import BuildLexer.Proofs.Join.Mirror

namespace BuildLexer

open Glyph

/-- A shift by nothing leaves findings as they are, -/
theorem Finding.map_shift_zero (fs : List Finding) :
    fs.map (Finding.shift 0) = fs := by
  have same (f : Finding) : f.shift 0 = f := by
    unfold Finding.shift
    rw [Nat.zero_add]
  rw [List.map_congr_left fun f _ => same f, List.map_id']

/-- and lexemes as well. -/
theorem Lexeme.shift_zero (l : Lexeme) : l.shift 0 = l := by
  unfold Lexeme.shift
  rw [Nat.zero_add]

namespace Excerpt

/-- A source at the front of a longer one, scanned from its start on. -/
def front (part whole : File) (behind : List Glyph)
    (base : whole.base = part.base)
    (size : whole.size = part.size + totalWidth behind) : Excerpt where
  part := part
  whole := whole
  distance := 0
  behind := behind
  partBefore := []
  wholeBefore := []
  base := base
  size := by rw [Nat.zero_add, size]

/-- A source at the back of a longer one, scanned when some things have
been reported. -/
def back (part whole : File) (distance : Nat)
    (partBefore wholeBefore : List Finding)
    (base : whole.base = part.base)
    (size : whole.size = distance + part.size) : Excerpt where
  part := part
  whole := whole
  distance := distance
  behind := []
  partBefore := partBefore
  wholeBefore := wholeBefore
  base := base
  size := size

/-- A part that is at the front, scanned from its start on. -/
structure AtFront (e : Excerpt) : Prop where
  distance : e.distance = 0
  partBefore : e.partBefore = []
  wholeBefore : e.wholeBefore = []

/-- The excerpt at the front is there from the start. -/
theorem atFront_front {part whole : File} {behind : List Glyph}
    (base : whole.base = part.base)
    (size : whole.size = part.size + totalWidth behind) :
    (front part whole behind base size).AtFront :=
  ⟨rfl, rfl, rfl⟩

end Excerpt

namespace Scanner

-- ========================================================== the last byte

section LastByte

variable {file : File} {s : Scanner}

/-- A line end for the last byte is all that is ahead. -/
theorem Sound.rest_of_lastByte (h : s.Sound) (placed : Placed file s)
    (hp : s.plan.token = some (.punct .lineEnd))
    (last : s.offset + 1 = file.size) : s.rest = [newline] := by
  obtain ⟨rest, hr⟩ := h.rest_of_lineEnd hp
  have cursor := placed.cursor
  have width := length_le_totalWidth rest
  have one : newline.width = 1 := rfl
  rw [hr, totalWidth_cons, one] at cursor
  have none : rest = [] := List.eq_nil_of_length_eq_zero (by omega)
  rw [hr, none]

/-- A call gives a line end for the last byte. -/
structure GivesLastByte (file : File) (s : Scanner) : Prop where
  token : s.scan.1.token = .punct .lineEnd
  handle : s.scan.1.handle.index + 1 = file.base + file.size

/-- In the step that makes the token, the line end is all that is
ahead. -/
theorem GivesLastByte.rest (last : GivesLastByte file s) (h : s.Sound)
    (placed : Placed file s) {token : Token}
    (hp : s.plan.token = some token) :
    s.plan.token = some (.punct .lineEnd) ∧ s.rest = [newline] := by
  have call := scan_of_token hp
  have same : token = .punct .lineEnd := by
    have := last.token
    rwa [call] at this
  have start : s.scan.1.handle = ⟨file.base + s.offset⟩ := by
    rw [call]
    exact ((s.kin_perform s.plan).handle s.offset).trans
      (placed.handle placed.offset_le)
  have index := last.handle
  rw [start] at index
  have hp := same ▸ hp
  have stop : file.base + s.offset + 1 = file.base + file.size := index
  exact ⟨hp, h.rest_of_lastByte placed hp (by omega)⟩

/-- After a step that makes no token the call is still to come. -/
theorem GivesLastByte.skip (last : GivesLastByte file s)
    (hp : s.plan.token = none) :
    GivesLastByte file (s.perform s.plan) := by
  obtain ⟨token, handle⟩ := last
  rw [scan_of_skip hp] at token handle
  exact ⟨token, handle⟩

/-- What is ahead then ends with a line end. -/
theorem GivesLastByte.ended (last : GivesLastByte file s) (h : s.Sound)
    (placed : Placed file s) : Ended s.rest := by
  induction s using Scanner.scan.induct with
  | case1 s token hp =>
      rw [(last.rest h placed hp).2]
      rfl
  | case2 s hp ih =>
      have later := ih (last.skip hp) h.perform (placed.perform s.plan)
      have more : (s.perform s.plan).rest ≠ [] :=
        List.ne_nil_of_mem later.mem
      exact (getLast?_of_suffix (s.rest_perform_suffix s.plan) more).symm.trans
        later

end LastByte

-- ================================================== reports of open calls

/-- Calls by colons that were left open were so before the place where a
scanner stands. -/
def OpenCallsBehind (s : Scanner) : Prop :=
  ∀ f ∈ s.findings, f.fault = .openColonCall → f.offset < s.offset

/-- A step keeps the open calls behind the scanner, -/
theorem OpenCallsBehind.perform {file : File} {s : Scanner}
    (h : s.OpenCallsBehind) (placed : Placed file s) (more : s.rest ≠ []) :
    (s.perform s.plan).OpenCallsBehind := by
  have on := offset_lt_perform more
  have inside := Nat.le_trans (Nat.le_add_right _ _) placed.ahead
  intro f hf open'
  rw [findings_perform _ placed.ahead] at hf
  rcases List.mem_append.1 hf with old | new
  · have := h f old open'
    omega
  · rw [offset_of_openColonCall inside new open']
    exact on

/-- and so does a call that gives a token. -/
theorem OpenCallsBehind.scan {file : File} {s : Scanner}
    (h : s.OpenCallsBehind) (placed : Placed file s)
    (more : s.scan.1.token ≠ .endOfFile) : s.scan.2.OpenCallsBehind := by
  induction s using Scanner.scan.induct with
  | case1 s token hp =>
      have call := scan_of_token hp
      have ahead : s.rest ≠ [] := fun done => more (scan_of_nil done)
      rw [call]
      exact h.perform placed ahead
  | case2 s hp ih =>
      have ahead : s.rest ≠ [] := fun done => more (scan_of_nil done)
      rw [scan_of_skip hp] at more ⊢
      exact ih (h.perform placed ahead) (placed.perform s.plan) more

-- ========================================================== handing over

/-- The report of a call by colons that the last byte of a source, a line
end, leaves open. -/
def openAtLast (file : File) : Finding := ⟨file.size - 1, .openColonCall⟩

/-- A scanner at the end of a part that ends with a line end, and one in
the whole at the same place. There the glyph behind the part was reached,
and what is wrong with it reported, before the line end was found to
leave a call by colons open. -/
structure HandsOver (e : Excerpt) (s t : Scanner) : Prop where
  part : Placed e.part s
  whole : Placed e.whole t
  mode : t.mode = s.mode
  nesting : t.nesting = s.nesting
  done : s.rest = []
  rest : t.rest = e.behind
  findings : ∃ before late,
    s.findings = before ++ late
      ∧ t.findings
        = before ++ faultsFrom e.part.size (e.behind.take 1) ++ late
      ∧ (late = [] ∨ late = [openAtLast e.part])
      ∧ openAtLast e.part ∉ before

section HandOver

variable {e : Excerpt} {s t : Scanner}

/-- At the front both report the same. -/
theorem Mirrors.findings_front (h : Mirrors e s t) (front : e.AtFront) :
    t.findings = s.findings := by
  obtain ⟨new, hs, ht⟩ := h.findings
  rw [hs, ht, front.partBefore, front.wholeBefore, front.distance,
    Finding.map_shift_zero]

/-- At the front both are at the same offset. -/
theorem Mirrors.offset_front (h : Mirrors e s t) (front : e.AtFront) :
    t.offset = s.offset := by
  rw [h.offset, front.distance, Nat.zero_add]

/-- What the step at the line end reports in the part, and what in the
whole. -/
theorem Mirrors.added_handOver (h : Mirrors e s t) (front : e.AtFront)
    (hr : s.rest = [newline]) {p : Plan} (makes : Plan.MakesLineEnd p) :
    ∃ early late,
      s.added p = early ++ late
        ∧ t.added p
          = early ++ faultsFrom e.part.size (e.behind.take 1) ++ late
        ∧ (late = [] ∨ late = [openAtLast e.part])
        ∧ openAtLast e.part ∉ early := by
  have ahead : t.rest = newline :: e.behind := by
    rw [h.rest, hr]
    rfl
  have offset := h.offset_front front
  have last : s.offset + 1 = e.part.size := by
    have cursor := h.part.cursor
    rw [hr] at cursor
    exact cursor
  have inside : s.offset ≤ t.file.size := by
    rw [h.whole.size, e.size]
    omega
  have placed (fault : Fault) :
      Finding.placed s.file.size s.offset ⟨0, fault⟩ = ⟨s.offset, fault⟩
        ∧ Finding.placed t.file.size t.offset ⟨0, fault⟩
          = ⟨s.offset, fault⟩ := by
    have inPart : s.offset ≤ s.file.size := by
      rw [h.part.size]
      exact h.part.offset_le
    unfold Finding.placed
    rw [offset, Nat.add_zero, Nat.min_eq_left inPart,
      Nat.min_eq_left inside]
    exact ⟨rfl, rfl⟩
  have reached : t.offset + totalWidth ((newline :: e.behind).take 1)
      = e.part.size := by
    rw [offset, ← last]
    rfl
  have closing : (⟨s.offset, .openColonCall⟩ : Finding)
      = openAtLast e.part := by
    unfold openAtLast
    rw [← last, Nat.add_sub_cancel]
  unfold Scanner.added
  rw [ahead, reached, hr]
  cases makes with
  | plain n => exact ⟨[], [], rfl, rfl, Or.inl rfl, List.not_mem_nil⟩
  | openString n =>
      refine ⟨[⟨s.offset, .openString⟩], [], ?_, ?_, Or.inl rfl, ?_⟩
      · show [Finding.placed _ _ _] ++ [] ++ [] = _
        rw [(placed _).1]
        rfl
      · show [Finding.placed _ _ _] ++ _ ++ [] = _
        rw [(placed _).2]
        rfl
      · intro hm
        cases congrArg Finding.fault (List.mem_singleton.1 hm)
  | openCall n =>
      refine ⟨[], [⟨s.offset, .openColonCall⟩], ?_, ?_,
        Or.inr (congrArg (fun f => [f]) closing), List.not_mem_nil⟩
      · show [] ++ [] ++ [Finding.placed _ _ _] = _
        rw [(placed _).1]
        rfl
      · show [] ++ _ ++ [Finding.placed _ _ _] = _
        rw [(placed _).2]
        rfl

/-- The step at the line end in both scanners. -/
theorem Mirrors.handOver_perform (h : Mirrors e s t) (front : e.AtFront)
    (calls : s.OpenCallsBehind)
    (hp : s.plan.token = some (.punct .lineEnd)) (hr : s.rest = [newline]) :
    t.plan = s.plan
      ∧ HandsOver e (s.perform s.plan) (t.perform t.plan) := by
  have ahead : t.rest = newline :: e.behind := by
    rw [h.rest, hr]
    rfl
  have next : ∃ p, Plan.MakesLineEnd p ∧ s.plan = p ∧ t.plan = p := by
    unfold Scanner.plan at hp ⊢
    rw [hr] at hp
    obtain ⟨p, makes, all⟩ := Plan.next_newline hp
    refine ⟨p, makes, ?_, ?_⟩
    · rw [hr, all]
    · rw [h.mode, h.nesting, ahead, all]
  obtain ⟨p, makes, part', whole'⟩ := next
  rw [part', whole']
  have one : p.more = 0 ∧ p.skipsLine = false := by
    cases makes <;> exact ⟨rfl, rfl⟩
  refine ⟨rfl, h.part.perform p, h.whole.perform p, ?_, rfl, ?_, ?_, ?_⟩
  · rw [(s.kin_perform p).mode, (t.kin_perform p).mode, h.mode]
  · rw [rest_perform, Plan.leaves_of_not_skipsLine one.2, one.1, hr]
    rfl
  · rw [rest_perform, Plan.leaves_of_not_skipsLine one.2, one.1, ahead]
    rfl
  · obtain ⟨early, late, inPart, inWhole, closing, other⟩ :=
      h.added_handOver front hr makes
    refine ⟨s.findings ++ early, late, ?_, ?_, closing, ?_⟩
    · rw [findings_perform _ h.part.ahead, inPart, List.append_assoc]
    · rw [findings_perform _ h.whole.ahead, inWhole, h.findings_front front]
      simp only [List.append_assoc]
    · intro hm
      rcases List.mem_append.1 hm with old | new
      · -- those of earlier steps are further in front
        have before : e.part.size - 1 < s.offset := calls _ old rfl
        have cursor := h.part.cursor
        rw [hr] at cursor
        have : s.offset + 1 = e.part.size := cursor
        omega
      · exact other new

/-- The token of that step, in both scanners. -/
theorem HandsOver.deliver (hands : HandsOver e s t) {start : Nat}
    (inside : start ≤ e.part.size) (token : Token) (text : String) :
    (t.deliver start token text).1 = (s.deliver start token text).1
      ∧ HandsOver e (s.deliver start token text).2
        (t.deliver start token text).2 := by
  have size := e.size
  refine ⟨?_, ?_⟩
  · unfold Scanner.deliver
    dsimp only
    rw [hands.part.handle inside, hands.whole.handle (by omega), e.base]
  · obtain ⟨part, whole, mode, nesting, done, rest, findings⟩ := hands
    refine ⟨⟨part.base, part.size, part.cursor⟩,
      ⟨whole.base, whole.size, whole.cursor⟩, mode, ?_, done, rest,
      findings⟩
    show t.nesting.afterToken _ = s.nesting.afterToken _
    rw [nesting]

/-- The call that gives the last line end, in both scanners. -/
theorem Mirrors.handOver (h : Mirrors e s t) (front : e.AtFront)
    (sound : s.Sound) (calls : s.OpenCallsBehind)
    (last : GivesLastByte e.part s) :
    t.scan.1 = s.scan.1 ∧ HandsOver e s.scan.2 t.scan.2 := by
  induction s using Scanner.scan.induct generalizing t with
  | case1 s token hp =>
      obtain ⟨ends, hr⟩ := last.rest sound h.part hp
      obtain ⟨same, hands⟩ := h.handOver_perform front calls ends hr
      rw [scan_of_token hp, scan_of_token (same ▸ hp), same,
        h.offset_front front]
      rw [same] at hands
      exact hands.deliver h.part.offset_le token s.plan.text
  | case2 s hp ih =>
      have more : (s.perform s.plan).rest ≠ [] := by
        have later := (last.skip hp).ended sound.perform
          (h.part.perform s.plan)
        exact List.ne_nil_of_mem later.mem
      have ahead : s.rest ≠ [] := by
        intro done
        rw [token_plan_nil s done] at hp
        cases hp
      have step : e.Covers s.rest (s.perform s.plan).rest :=
        Or.inr ⟨last.ended sound h.part, more⟩
      have same := h.plan step
      rw [scan_of_skip hp, scan_of_skip (same ▸ hp)]
      exact ih (h.perform step) sound.perform
        (calls.perform h.part ahead) (last.skip hp)

end HandOver

end Scanner

end BuildLexer
