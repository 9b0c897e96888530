/-
What a step reports, by offset and in order.

Positions depend on the lines of a file, offsets do not, so two scanners
in different files are compared by what they report and where, which is
a list of findings (`Scanner.findings`). A step adds to it three parts
(`findings_perform`): what its plan found early, what was wrong with the
glyphs that were reached, and what the plan found late. The glyphs that
are reached are those behind the first up to the one that the step stops
at, so the last of them is read by the next step only.

What is reported is told by words. Some words mean some faults if all
faults but two have them exactly when they are among these, which is
decided, and the two that are told with a text of the source begin in
another way (`Means`).
-/
import BuildLexer.Proofs.Scanner.Effect
import BuildLexer.Proofs.Scanner.Findings

namespace BuildLexer

open Glyph

-- ============================================================= the words

/-- Words that differ at some place are other words, whatever follows. -/
theorem append_ne_of_getElem? {a b c : String} {i : Nat} {x : Char}
    (ha : a.toList[i]? = some x) (hc : c.toList[i]? ≠ some x) :
    a ++ b ≠ c := by
  intro he
  refine hc ?_
  rw [← he, String.toList_append]
  rw [List.getElem?_append_left (List.getElem?_eq_some_iff.1 ha).1]
  exact ha

/-- The faults whose words are always the same. -/
def Fault.worded : List Fault :=
  [nulCharacter, illFormedByte, strayByteOrderMark, openColonCall,
    openString, openRawString, unknownEscape, openEscape, brokenEscape,
    escapeOutOfRange, noBinaryDigits, noHexadecimalDigits, notBinaryDigit,
    notOctalDigit, misplacedSeparator, invalidMonth, invalidDay,
    invalidHour, invalidMinute, invalidSecond, invalidZoneHour,
    invalidZoneMinute]

/-- Words that mean some faults: they are the messages of these and of no
others. -/
structure Means (words : List String) (faults : List Fault) : Prop where
  fixed : ∀ f ∈ Fault.worded, f.message ∈ words ↔ f ∈ faults
  /-- An illegal character is told with its number. -/
  character : ∀ w ∈ words, w.toList[18]? ≠ some 'U'
  /-- An unexpected token is told as such. -/
  token : ∀ w ∈ words, w.toList[2]? ≠ some 'e'
  only : ∀ f ∈ faults, f ∈ Fault.worded

instance (words : List String) (faults : List Fault) :
    Decidable (Means words faults) :=
  decidable_of_iff
    ((∀ f ∈ Fault.worded, f.message ∈ words ↔ f ∈ faults)
      ∧ (∀ w ∈ words, w.toList[18]? ≠ some 'U')
      ∧ (∀ w ∈ words, w.toList[2]? ≠ some 'e')
      ∧ ∀ f ∈ faults, f ∈ Fault.worded)
    ⟨fun h => ⟨h.1, h.2.1, h.2.2.1, h.2.2.2⟩,
      fun h => ⟨h.fixed, h.character, h.token, h.only⟩⟩

/-- A report is told by its words to be of one of the faults. -/
theorem Means.message_mem_iff {words : List String} {faults : List Fault}
    (h : Means words faults) (f : Fault) :
    f.message ∈ words ↔ f ∈ faults := by
  cases f with
  | illegalCharacter c =>
      refine iff_of_false (fun told => ?_) fun hf => ?_
      · change "illegal character U+" ++ Fault.codePoint c ++ " '"
          ++ String.singleton c ++ "'" ∈ words at told
        rw [String.append_assoc, String.append_assoc,
          String.append_assoc] at told
        exact append_ne_of_getElem? (i := 18) rfl (h.character _ told) rfl
      · have worded := h.only _ hf
        simp [Fault.worded] at worded
  | unexpectedToken token =>
      refine iff_of_false (fun told => ?_) fun hf => ?_
      · change "unexpected token " ++ token.spelling ∈ words at told
        exact append_ne_of_getElem? (i := 2) rfl (h.token _ told) rfl
      · have worded := h.only _ hf
        simp [Fault.worded] at worded
  | _ => exact h.fixed _ (by decide)

-- ============================================================ findings

/-- What a report says, by its offset. -/
def Report.finding (r : Report) : Finding := ⟨r.position.offset, r.fault⟩

/-- The position of the handle of an offset is at the offset, or at the
end where that is past the end. -/
theorem File.offset_position (f : File) (offset : Nat) :
    (f.position (f.handle offset)).offset = min offset f.size := by
  unfold File.position
  rw [f.contains_handle, Bool.and_true]
  split
  next => exact f.offset_handle offset
  next hv =>
    -- only in a file at handle 0, and there only at the beginning
    have zero : (f.handle offset).index = 0 := by
      simpa only [Handle.isValid, bne_iff_ne, ne_eq, Decidable.not_not]
        using hv
    exact (Nat.add_eq_zero_iff.1 zero).2.symm

/-- A finding of a step that began at an offset of a text. -/
def Finding.placed (size start : Nat) (f : Finding) : Finding :=
  ⟨min (start + f.offset) size, f.fault⟩

namespace Glyph

/-- What is wrong with glyphs that are reached one after the other. -/
def faultsFrom : (offset : Nat) → List Glyph → List Finding
  | _, [] => []
  | offset, g :: rest =>
    (g.fault? offset).toList.map (⟨offset, ·⟩)
      ++ faultsFrom (offset + g.width) rest

theorem faultsFrom_append (offset : Nat) (a b : List Glyph) :
    faultsFrom offset (a ++ b)
      = faultsFrom offset a ++ faultsFrom (offset + totalWidth a) b := by
  induction a generalizing offset with
  | nil => rfl
  | cons g rest ih =>
      rw [List.cons_append, faultsFrom, faultsFrom, ih, List.append_assoc,
        totalWidth_cons, Nat.add_assoc]

/-- Only a byte order mark is taken differently at the start. -/
theorem fault?_add {offset : Nat} {g : Glyph}
    (h : 0 < offset ∨ g ≠ byteOrderMark) (distance : Nat) :
    g.fault? (distance + offset) = g.fault? offset := by
  cases g with
  | broken b => rfl
  | scalar c =>
      unfold fault?
      have mark : c = '\uFEFF' ∧ 0 < distance + offset
          ↔ c = '\uFEFF' ∧ 0 < offset := by
        constructor
        · rintro ⟨rfl, -⟩
          exact ⟨rfl, h.resolve_right fun other => other rfl⟩
        · exact fun h => ⟨h.1, by omega⟩
      simp only [mark]

/-- Further back in a source the same glyphs have the same faults. -/
theorem faultsFrom_add {offset : Nat} {gs : List Glyph}
    (h : 0 < offset ∨ gs.head? ≠ some byteOrderMark) (distance : Nat) :
    faultsFrom (distance + offset) gs
      = (faultsFrom offset gs).map (Finding.shift distance) := by
  induction gs generalizing offset with
  | nil => rfl
  | cons g rest ih =>
      have first : 0 < offset ∨ g ≠ byteOrderMark :=
        h.imp_right fun other he => other (congrArg some he)
      have behind : 0 < offset + g.width :=
        Nat.lt_of_lt_of_le g.width_pos (Nat.le_add_left _ _)
      have later := ih (Or.inl behind)
      rw [faultsFrom, faultsFrom, fault?_add first, Nat.add_assoc, later,
        List.map_append, List.map_map]
      rfl

theorem topic_fault? {offset : Nat} {g : Glyph} {fault : Fault}
    (h : g.fault? offset = some fault) : fault.topic = .encoding := by
  unfold fault? at h
  split at h
  · cases h
    rfl
  split at h
  · cases h
    rfl
  split at h
  · cases h
    rfl
  · cases h

/-- What is wrong with glyphs wherever they stand is about nothing
else. -/
theorem topic_faultsFrom {offset : Nat} {gs : List Glyph} {f : Finding}
    (h : f ∈ faultsFrom offset gs) : f.fault.topic = .encoding := by
  induction gs generalizing offset with
  | nil => cases h
  | cons g rest ih =>
      rcases List.mem_append.1 h with h | h
      · obtain ⟨fault, hf, rfl⟩ := List.mem_map.1 h
        exact topic_fault? (Option.mem_toList.1 hf)
      · exact ih h

/-- No glyph leaves a call by colons open. -/
theorem fault_faultsFrom {offset : Nat} {gs : List Glyph} {f : Finding}
    (h : f ∈ faultsFrom offset gs) : f.fault ≠ .openColonCall := by
  intro hc
  have about := topic_faultsFrom h
  rw [hc] at about
  cases about

end Glyph

namespace Scanner

/-- What was reported, by offset, in the order of the reports. -/
def findings (s : Scanner) : List Finding := s.reports.map Report.finding

-- ========================================================== one by one

theorem findings_report (s : Scanner) (offset : Nat) (fault : Fault) :
    (s.report offset fault).findings
      = s.findings ++ [⟨min offset s.file.size, fault⟩] := by
  unfold findings reports report
  rw [List.reverse_cons, List.map_append]
  show _ ++ [(⟨_, _⟩ : Finding)] = _
  rw [File.offset_position]

theorem findings_reportAll (s : Scanner) (start : Nat)
    (fs : List Finding) :
    (s.reportAll start fs).findings
      = s.findings ++ fs.map (Finding.placed s.file.size start) := by
  unfold reportAll
  induction fs generalizing s with
  | nil => exact (List.append_nil _).symm
  | cons f fs ih =>
      rw [List.foldl_cons, ih, findings_report, List.append_assoc]
      rfl

/-- Looking reports what is wrong with the glyph ahead. -/
theorem findings_look {s : Scanner} (inside : s.offset ≤ s.file.size) :
    s.look.findings
      = s.findings ++ faultsFrom s.offset (s.rest.take 1) := by
  unfold look
  cases s.rest with
  | nil => exact (List.append_nil _).symm
  | cons g rest =>
      rw [List.take_succ_cons, List.take_zero, faultsFrom, faultsFrom,
        List.append_nil, List.head?_cons, Option.bind_some]
      cases g.fault? s.offset with
      | none => exact (List.append_nil _).symm
      | some fault =>
          show (s.report s.offset fault).findings = _
          rw [findings_report, Nat.min_eq_left inside]
          rfl

/-- Moving over a glyph reports what is wrong with the next. -/
theorem findings_advance {s : Scanner}
    (inside : s.offset + totalWidth s.rest ≤ s.file.size) :
    s.advance.findings
      = s.findings ++ faultsFrom (s.offset + totalWidth (s.rest.take 1))
          ((s.rest.drop 1).take 1) := by
  unfold advance
  cases hr : s.rest with
  | nil => exact (List.append_nil _).symm
  | cons g rest =>
      rw [hr, totalWidth_cons] at inside
      dsimp only
      rw [findings_look]
      · rfl
      · dsimp only
        split
        next =>
          rw [File.size_addLine]
          omega
        next => omega

/-- Moving over some glyphs reports what is wrong with those reached. -/
theorem findings_walk (count : Nat) {s : Scanner}
    (inside : s.offset + totalWidth s.rest ≤ s.file.size) :
    (walk count s).findings
      = s.findings ++ faultsFrom (s.offset + totalWidth (s.rest.take 1))
          ((s.rest.drop 1).take count) := by
  induction count generalizing s with
  | zero =>
      rw [List.take_zero]
      exact (List.append_nil _).symm
  | succ count ih =>
      have moved := s.moved_advance
      have further : s.advance.offset + totalWidth s.advance.rest
          ≤ s.advance.file.size := by
        rw [moved.offset, moved.rest, moved.kin.size, Nat.add_assoc,
          ← totalWidth_append, List.take_append_drop]
        exact inside
      rw [walk, ih further, findings_advance inside, moved.rest,
        moved.offset, List.append_assoc, ← faultsFrom_append,
        ← List.take_add, Nat.add_comm 1 count]

/-- What is reported at the start of a source: what is wrong with its
first glyph, or with the one behind a byte order mark. -/
theorem findings_ofGlyphs {file : File} {src : List Glyph}
    (inside : totalWidth src ≤ file.size) (mode : Mode) :
    (ofGlyphs file mode src).findings
      = faultsFrom 0
        (src.take (if src.head? = some .byteOrderMark then 2 else 1)) := by
  let n : Nesting := { stack := { current := startContext mode } }
  let s : Scanner := { file, mode, rest := src, offset := 0, nesting := n }
  have looked : s.look.findings = faultsFrom 0 (src.take 1) :=
    findings_look (Nat.zero_le _)
  have moved := s.moved_look
  unfold ofGlyphs
  dsimp only
  split
  next =>
    show s.look.advance.findings = _
    rw [findings_advance, looked, moved.rest, moved.offset]
    · show _ ++ faultsFrom (0 + 0 + totalWidth (src.take 1)) _ = _
      rw [← faultsFrom_append, ← List.take_add]
    · rw [moved.offset, moved.rest, moved.kin.size]
      show 0 + 0 + totalWidth src ≤ file.size
      omega
  next => exact looked

-- ========================================================= performing

/-- What a step reports that carries out a plan. -/
def added (s : Scanner) (p : Plan) : List Finding :=
  p.early.map (Finding.placed s.file.size s.offset)
    ++ faultsFrom (s.offset + totalWidth (s.rest.take 1))
      ((s.rest.drop 1).take (p.more + 1))
    ++ p.late.map (Finding.placed s.file.size s.offset)

theorem findings_perform {s : Scanner} (p : Plan)
    (inside : s.offset + totalWidth s.rest ≤ s.file.size) :
    (s.perform p).findings = s.findings ++ s.added p := by
  have early := s.moved_reportAll s.offset p.early
  have walked := moved_walk (p.more + 1) (s.reportAll s.offset p.early)
  have reached : (walk (p.more + 1) (s.reportAll s.offset p.early)).findings
      = s.findings
        ++ (p.early.map (Finding.placed s.file.size s.offset)
          ++ faultsFrom (s.offset + totalWidth (s.rest.take 1))
            ((s.rest.drop 1).take (p.more + 1))) := by
    rw [findings_walk, early.rest, early.offset, findings_reportAll,
      List.append_assoc]
    · rfl
    · rw [early.rest, early.offset, early.kin.size]
      exact inside
  have size := (early.kin.trans walked.kin).size
  unfold perform added
  dsimp only
  show (reportAll _ s.offset p.late).findings = _
  rw [findings_reportAll, ← List.append_assoc s.findings]
  split
  next =>
    show (walk _ _).findings
      ++ p.late.map (Finding.placed (walk _ _).file.size s.offset) = _
    rw [reached, size]
  next => rw [reached, size]

/-- What a step finds that leaves something is where it read. -/
theorem offset_le_reads {s : Scanner} {f : Finding}
    (hf : f ∈ s.plan.early ++ s.plan.late)
    (left : s.plan.leaves s.rest ≠ []) :
    f.offset ≤ totalWidth (s.plan.reads s.rest) := by
  have contained : f.offset ≤ s.plan.more + 1 :=
    (Plan.contained_next _ _ _ f hf).1
  have more := Plan.more_lt_of_leaves left
  have width := length_le_totalWidth (s.plan.reads s.rest)
  have read : s.plan.more + 1 ≤ (s.plan.reads s.rest).length := by
    unfold Plan.reads
    rw [List.length_append, List.length_take]
    omega
  omega

/-- A call by colons that is left open is found where the step began. -/
theorem offset_of_openColonCall {s : Scanner}
    (inside : s.offset ≤ s.file.size) {f : Finding}
    (h : f ∈ s.added s.plan) (hf : f.fault = .openColonCall) :
    f.offset = s.offset := by
  have contained := Plan.contained_next s.mode s.nesting s.rest
  have begins {g : Finding} (hg : g ∈ s.plan.early ++ s.plan.late)
      (he : g.placed s.file.size s.offset = f) : f.offset = s.offset := by
    subst he
    have zero := (contained g hg).2.1 hf
    show min (s.offset + g.offset) s.file.size = _
    omega
  rcases List.mem_append.1 h with h | h
  · rcases List.mem_append.1 h with h | h
    · obtain ⟨g, hg, he⟩ := List.mem_map.1 h
      exact begins (List.mem_append_left _ hg) he
    · exact absurd hf (fault_faultsFrom h)
  · obtain ⟨g, hg, he⟩ := List.mem_map.1 h
    exact begins (List.mem_append_right _ hg) he

end Scanner

end BuildLexer
