/-
Names and reserved words.

A name is a run of letters, digits, plus signs, at signs and hyphens, but
a hyphen before the head of an arrow is none of it (`NamePart`). From a
place on there is one such run that reaches as far as it can
(`NameRun.unique`), and where the first glyph is a letter, in code or
right behind a sigil, it is what a call takes (`names_recognized`). The
run is a reserved word exactly if it is spelled like one, and a bareword
otherwise; so a word is never unexpected, although that could be
reported.

Broken bytes are in no name: they stand for the replacement character,
which is neither letter nor digit.
-/
import BuildLexer.Proofs.Nesting.Invariant
import BuildLexer.Proofs.Nesting.Openers
import BuildLexer.Proofs.Scanner.Told

namespace BuildLexer

open Glyph

-- ================================================================= runs

/-- A character of a name, given what follows it. -/
def NamePart (c : Char) (next : Option Glyph) : Prop :=
  isLetter c = true ∨ isNumeral c = true ∨ c = '+' ∨ c = '@'
    ∨ c = '-' ∧ next ≠ some (.scalar '>')

/-- A text at the front that a name can be made of, and that what is
behind does not go on. -/
structure NameRun (src : List Glyph) (text : List Char)
    (behind : List Glyph) : Prop where
  front : src = written text ++ behind
  part : ∀ before c after, text = before ++ c :: after →
    NamePart c (written after ++ behind).head?
  stops : ∀ c rest, behind = .scalar c :: rest → ¬ NamePart c rest.head?

namespace NameRun

variable {src behind behind' : List Glyph} {c : Char}
  {text text' : List Char}

/-- A run that is not empty goes on behind its first character. -/
theorem tail (h : NameRun src (c :: text) behind) :
    NamePart c (written text ++ behind).head?
      ∧ NameRun (written text ++ behind) text behind :=
  ⟨h.part [] c text rfl, rfl, fun before d after split =>
    h.part (c :: before) d after (congrArg (c :: ·) split), h.stops⟩

theorem cons (first : NamePart c src.head?) (h : NameRun src text behind) :
    NameRun (.scalar c :: src) (c :: text) behind where
  front := congrArg (.scalar c :: ·) h.front
  part := by
    intro before d after split
    cases before with
    | nil =>
        obtain ⟨rfl, rfl⟩ := List.cons.inj split
        rw [← h.front]
        exact first
    | cons _ before => exact h.part before d after (List.cons.inj split).2
  stops := h.stops

/-- There is one such run. -/
theorem unique (h : NameRun src text behind)
    (h' : NameRun src text' behind') : text = text' := by
  induction text generalizing src text' with
  | nil =>
      cases text' with
      | nil => rfl
      | cons c text' =>
          exact absurd h'.tail.1 (h.stops c _ (h.front.symm.trans h'.front))
  | cons c text ih =>
      have split := h.front.symm.trans h'.front
      cases text' with
      | nil => exact absurd h.tail.1 (h'.stops c _ split.symm)
      | cons c' text' =>
          obtain ⟨same, rest⟩ := List.cons.inj split
          obtain rfl := scalar.inj same
          have behind' := h'.tail.2
          change written text ++ behind = written text' ++ _ at rest
          rw [← rest] at behind'
          rw [ih h.tail.2 behind']

/-- A run does not end with the hyphen of an arrow. -/
theorem head?_of_hyphen (h : NameRun src text behind)
    (hyphen : text.getLast? = some '-') :
    behind.head? ≠ some (.scalar '>') := by
  obtain ⟨before, rfl⟩ := List.getLast?_eq_some_iff.1 hyphen
  rcases h.part before '-' [] rfl with letter | digit | plus | sign | last
  · exact absurd letter (by decide)
  · exact absurd digit (by decide)
  · cases plus
  · cases sign
  · exact last.2

end NameRun

namespace Name

/-- A character goes on with a name if it is part of one. -/
theorem continues_scalar (c : Char) (rest : List Glyph) :
    continues (.scalar c) rest = true ↔ NamePart c rest.head? := by
  unfold continues NamePart
  by_cases hyphen : c = '-'
  · subst hyphen
    have plain : isLetter '-' = false ∧ isNumeral '-' = false := by decide
    simp [plain]
  · by_cases sign : c = '+' ∨ c = '@'
    · rcases sign with rfl | rfl <;> simp
    · have other := not_or.1 sign
      simp [hyphen, other.1, other.2, Glyph.isLetter, Glyph.isNumeral,
        Glyph.char]

/-- A broken byte does not go on with a name. -/
theorem continues_broken (b : UInt8) (rest : List Glyph) :
    continues (.broken b) rest = false := by
  have replacement : BuildLexer.isLetter '\uFFFD' = false
      ∧ BuildLexer.isNumeral '\uFFFD' = false := by
    decide +kernel
  simp [continues, Glyph.isLetter, Glyph.isNumeral, Glyph.char, replacement]

/-- What is measured is such a run. -/
theorem exists_nameRun (src : List Glyph) :
    ∃ text behind, NameRun src text behind
      ∧ text.length = tailLength src := by
  induction src with
  | nil => exact ⟨[], [], ⟨rfl, by simp, nofun⟩, rfl⟩
  | cons g rest ih =>
      rw [tailLength]
      split
      next goes =>
        cases g with
        | broken b =>
            rw [continues_broken] at goes
            cases goes
        | scalar c =>
            obtain ⟨text, behind, run, length⟩ := ih
            exact ⟨c :: text, behind,
              .cons ((continues_scalar c rest).1 goes) run,
              congrArg (· + 1) length⟩
      next stops =>
        refine ⟨[], g :: rest, ⟨rfl, by simp, fun c more split => ?_⟩, rfl⟩
        obtain ⟨rfl, rfl⟩ := List.cons.inj split
        exact fun part => stops ((continues_scalar c rest).2 part)

/-- A letter begins a name. -/
theorem exists_nameRun_of_isLetter {g : Glyph} (letter : g.isLetter = true)
    (rest : List Glyph) :
    ∃ text behind, NameRun (g :: rest) text behind
      ∧ text.length = tailLength rest + 1 := by
  obtain ⟨text, behind, run, length⟩ := exists_nameRun (g :: rest)
  refine ⟨text, behind, run, length.trans (if_pos ?_)⟩
  cases g with
  | broken b =>
      have replacement : BuildLexer.isLetter '\uFFFD' = false := by
        decide +kernel
      exact absurd letter (Bool.eq_false_iff.1 replacement)
  | scalar c => exact (continues_scalar c rest).2 (.inl letter)

end Name

-- ================================================================ words

/-- A reserved word is looked up by its spelling alone. -/
theorem Token.ofWord_eq_iff {text : String} {word : Token}
    (reserved : word.isKeyword = true) :
    ofWord text = word ↔ text = word.spelling := by
  have listed : word ∈ words := by
    cases word with
    | keyword k => cases k <;> decide
    | constant k => cases k <;> decide
    | _ => cases reserved
  have back : ∀ w ∈ words, ofWord w.spelling = w := by decide +kernel
  constructor
  · rintro rfl
    unfold ofWord at reserved ⊢
    cases found : words.find? (·.spelling == text) with
    | none =>
        rw [found] at reserved
        cases reserved
    | some word =>
        have same := List.find?_some found
        exact (eq_of_beq same).symm
  · rintro rfl
    exact back word listed

/-- No report about anything else tells of an unexpected token. -/
theorem Fault.message_ne_unexpected {fault : Fault}
    (other : fault.topic ≠ .word) (tail : String) :
    fault.message ≠ "unexpected token " ++ tail := by
  refine Ne.symm (append_ne_of_getElem? (i := 2) (x := 'e') rfl ?_)
  cases fault with
  | unexpectedToken _ => exact absurd rfl other
  | illegalCharacter c =>
      show ("illegal character U+" ++ codePoint c ++ " '"
        ++ String.singleton c ++ "'").toList[2]? ≠ _
      simp only [String.append_assoc]
      rw [String.toList_append, List.getElem?_append_left (by decide)]
      decide
  | _ => decide

namespace Scanner

variable {file : File} {mode : Mode} {source : List UInt8}
  {begun s : Scanner} {g : Glyph} {rest : List Glyph}

/-- Nothing that is reported is about words. -/
theorem StepsAt.wordless (place : StepsAt begun s)
    (started : Scanner.start file mode source = .ok begun) :
    ∀ f ∈ s.findings, f.fault.topic ≠ .word := by
  have encoding {offset : Nat} {gs : List Glyph} {f : Finding}
      (hf : f ∈ faultsFrom offset gs) : f.fault.topic ≠ .word := by
    rw [topic_faultsFrom hf]
    exact nofun
  have placed := placed_start started
  obtain ⟨size, rfl⟩ := start_eq_ok started
  have first : ∀ f ∈ (ofGlyphs file mode (ofBytes source)).findings,
      f.fault.topic ≠ .word := by
    rw [findings_ofGlyphs (Nat.le_of_eq
      ((totalWidth_ofBytes source).trans size.symm))]
    exact fun f hf => encoding hf
  refine (place.preserves
    (P := fun u => Placed file u ∧ ∀ f ∈ u.findings, f.fault.topic ≠ .word)
    (fun u hu => ⟨hu.1.perform _, ?_⟩)
    (fun _ _ hu => ⟨⟨hu.1.base, hu.1.size, hu.1.cursor⟩, hu.2⟩)
    (fun _ on hu => ⟨hu.1.setRecipes on, hu.2⟩) ⟨placed, first⟩).2
  have found := Plan.finds_next u.mode u.nesting u.rest
  have plain {f : Finding} (hf : f ∈ u.plan.early ++ u.plan.late) :
      f.fault.topic ≠ .word := (found f hf).wordless
  rw [findings_perform u.plan hu.1.ahead]
  refine List.forall_mem_append.2 ⟨hu.2, List.forall_mem_append.2
    ⟨List.forall_mem_append.2 ⟨?_, fun f hf => encoding hf⟩, ?_⟩⟩
  · intro f hf
    obtain ⟨f, hm, rfl⟩ := List.mem_map.1 hf
    have other := plain (List.mem_append_left _ hm)
    exact other
  · intro f hf
    obtain ⟨f, hm, rfl⟩ := List.mem_map.1 hf
    have other := plain (List.mem_append_right _ hm)
    exact other

-- ============================================================= one call

/-- A call that takes a text as a name or a reserved word. -/
structure TakesName (s : Scanner) (text : List Char) (token : Token) :
    Prop where
  lexeme : s.scan.1 = ⟨s.file.handle s.offset, token, String.ofList text⟩
  offset : s.scan.2.offset = s.offset + totalWidth (written text)
  run : NameRun s.rest text s.scan.2.rest
  only : ∀ other behind, NameRun s.rest other behind → other = text
  reserved : ∀ word : Token, word.isKeyword = true →
    (token = word ↔ String.ofList text = word.spelling)
  bareword : token.isKeyword = false → token = .literal .bareword
  hyphen : text.getLast? = some '-' →
    s.scan.2.rest.head? ≠ some (.scalar '>')
  /-- No call by a bare name is open any more, wherever. -/
  unnamed : ∀ level ∈ s.scan.2.nesting.stack.levels, .nameCall ∉ level

/-- Right behind the sigil of a call by a name there is code. -/
theorem Sound.inCode_of_name (sound : s.Sound) (front : s.rest = g :: rest)
    (letter : g.isLetter = true) (named : s.nesting.has .nameCall = true) :
    s.InCode := by
  obtain ⟨inherited, ⟨⟨kinds, layers⟩, -⟩, -⟩ := sound
  have head := (Nesting.has_iff_of_layers layers (by decide)).1 named
  have other {f : Flag} (kind : f ∈ Context.kinds) (ne : f ≠ .nameCall) :
      (s.nesting.settle s.rest).has f = false := by
    rw [front, Nesting.settle_of_letter letter, Bool.eq_false_iff, Ne,
      Nesting.has_iff_of_layers layers kind, head]
    exact fun same => ne (Option.some.inj same).symm
  exact ⟨other (by decide) (by decide), other (by decide) (by decide)⟩

/-- Behind a name no call by a bare name is open. -/
theorem Sound.unnamed_of_name (sound : s.Sound) (front : s.rest = g :: rest)
    (letter : g.isLetter = true) (endsLine : Bool) :
    ∀ level ∈ (((s.around g).leave {.nameCall}).afterToken
      endsLine).stack.levels, .nameCall ∉ level := by
  obtain ⟨inherited, ⟨⟨kinds, layers⟩, -⟩, -⟩ := sound
  have here : Layers inherited kinds (s.around g).stack := by
    unfold around
    rw [front, Nesting.settle_of_letter letter]
    exact Nesting.layers_atGlyph layers g
  have left := Nesting.layers_leave here {.nameCall} (by decide)
  have head : (dropKind {.nameCall} kinds).head? ≠ some .nameCall :=
    here.head_dropKind fun _ => by decide
  intro level hm named
  obtain ⟨j, hj⟩ := List.getElem?_of_mem hm
  have behind := Nesting.layers_afterToken left endsLine
  have kind := behind.level_of_mem hj (by decide) named
  obtain rfl := behind.name_innermost kind
  exact head (List.head?_eq_getElem?.trans kind)

/-- At a letter in code the call takes a name. -/
theorem InCode.takesName (h : s.InCode) (sound : s.Sound)
    (front : s.rest = g :: rest) (letter : g.isLetter = true) :
    ∃ text token, s.TakesName text token := by
  obtain ⟨text, behind, run, length⟩ :=
    Name.exists_nameRun_of_isLetter letter rest
  have count : (written text).length = Name.tailLength rest + 1 :=
    (length_written text).trans length
  have plan : s.plan = Plan.name (s.around g) s.rest := by
    rw [h.plan front, front]
    unfold Plan.inCode
    rw [if_pos letter]
  rw [← front] at run
  have spelled : lossyText (s.rest.take (Name.tailLength rest + 1))
      = String.ofList text := by
    rw [run.front, ← count, List.take_left]
    exact lossyText_map_scalar text
  have more : s.plan.more = Name.tailLength rest := by
    rw [plan, front]
    rfl
  have unread : s.plan.skipsLine = false := by
    rw [plan]
    rfl
  have made : s.plan.token = some (Token.ofWord (String.ofList text)) := by
    rw [← spelled, plan, front]
    rfl
  have shown : s.plan.text = String.ofList text := by
    rw [← spelled, plan, front]
    rfl
  have left : s.scan.2.rest = behind := by
    rw [rest_of_token made, Plan.leaves_of_not_skipsLine unread, more,
      ← count, run.front, List.drop_left]
  refine ⟨text, _, ?_, ?_, left ▸ run, fun _ _ other => other.unique run,
    fun _ reserved => Token.ofWord_eq_iff reserved, fun plain => ?_,
    left ▸ run.head?_of_hyphen, ?_⟩
  · rw [lexeme_of_token made, shown]
  · rw [offset_of_token made, Plan.reads_of_not_skipsLine unread, more,
      ← count, run.front, List.take_left]
  · refine (Token.expected_ofWord _).resolve_right fun reserved => ?_
    rw [plain] at reserved
    cases reserved
  · rw [scan_of_token made]
    show ∀ level ∈ ((s.perform s.plan).nesting.afterToken _).stack.levels, _
    rw [nesting_perform, plan]
    exact sound.unnamed_of_name front letter _

/-- A sigil without a suffix leaves a call by a name open where a letter
follows. -/
theorem Sound.named_of_sigil (sound : s.Sound) {sigil : Sigil}
    (made : s.scan.1.token = .reference sigil none)
    (letter : s.scan.2.rest.head?.any Glyph.isLetter = true) :
    s.scan.2.nesting.has .nameCall = true := by
  obtain ⟨u, token, hu, hp, call⟩ :=
    exists_lastStep (P := Sound) (fun _ hs _ => hs.perform) sound
  rw [call] at made letter ⊢
  obtain rfl : token = .reference sigil none := made
  change (u.perform u.plan).rest.head?.any Glyph.isLetter = true at letter
  show ((u.perform u.plan).nesting.afterToken _).has .nameCall = true
  cases hr : u.rest with
  | nil =>
      rw [token_plan_nil u hr] at hp
      cases hp
  | cons g rest =>
      obtain ⟨inherited, ⟨⟨kinds, layers⟩, -⟩, -⟩ := hu
      have plan : u.plan = Plan.next u.mode u.nesting (g :: rest) :=
        congrArg _ hr
      have only : u.plan = Plan.call sigil
          ((u.nesting.settle (g :: rest)).atGlyph g) rest.head? := by
        rw [plan] at hp ⊢
        rcases Plan.name_or_colons_next u.mode g rest layers with
          ⟨-, name⟩ | ⟨-, -, colons⟩
        · cases Plan.plain_name (name ▸ hp)
        · exact colons.sigil sigil hp
      rw [rest_perform, only, hr] at letter
      rw [nesting_perform, only, Nesting.has_iff,
        Nesting.mem_afterToken (by decide)]
      change rest.head?.any Glyph.isLetter = true at letter
      have named : Plan.callAt rest.head? = (.nameCall, false) := by
        unfold Plan.callAt
        rw [if_neg, if_neg, if_neg] <;> intro other <;>
          · rw [other] at letter
            exact absurd letter (by decide)
      show .nameCall ∈ (Nesting.enter _
        {(Plan.callAt rest.head?).1}).stack.current
      rw [named]
      exact Context.mem_union.2 (.inr (Context.mem_singleton.2 rfl))

/-- At a letter in code or right behind a sigil, a call takes the longest
run of letters, digits, plus signs, at signs and hyphens that are none of
an arrow. It is a reserved word if it is spelled like one and a bareword
otherwise, and no call by a bare name is open behind it. A token is never
reported to be unexpected. -/
theorem names_recognized (file : File) (mode : Mode)
    (source : List UInt8) (begun s : Scanner)
    (started : Scanner.start file mode source = .ok begun)
    (place : StepsAt begun s) :
    (∀ g rest, s.rest = g :: rest → g.isLetter = true →
        s.InCode ∨ s.nesting.has .nameCall = true →
        ∃ text token, s.TakesName text token)
      ∧ (∀ sigil, s.scan.1.token = .reference sigil none →
        s.scan.2.rest.head?.any Glyph.isLetter = true →
        s.scan.2.nesting.has .nameCall = true)
      ∧ ∀ r ∈ s.reports, ∀ tail, r.message ≠ "unexpected token " ++ tail := by
  have sound := place.sound started
  refine ⟨fun g rest front letter code => ?_,
    fun sigil made letter => sound.named_of_sigil made letter,
    fun r hr => ?_⟩
  · rcases code with code | named
    · exact code.takesName sound front letter
    · exact (sound.inCode_of_name front letter named).takesName sound front
        letter
  · have other : r.finding.fault.topic ≠ .word :=
      place.wordless started _ (List.mem_map_of_mem hr)
    exact Fault.message_ne_unexpected other

/-- Behind the sigil of `$a-->`. -/
def beforeHyphens : Scanner :=
  (ofGlyphs (File.alone "" 5) {} (ofBytes [36, 97, 45, 45, 62])).scan.2

/-- Of two hyphens the second is the arrow's. -/
theorem names_recognized_before_arrow :
    beforeHyphens.scan.1.token = .literal .bareword
      ∧ beforeHyphens.scan.1.text = "a-"
      ∧ beforeHyphens.scan.2.rest.head? = some (.scalar '-') := by
  have recognized := (names_recognized (File.alone "" 5) {}
    [36, 97, 45, 45, 62] _ beforeHyphens rfl (.call (.scan (.done _)))).1
  have run : NameRun (written ['a', '-', '-', '>']) ['a', '-']
      (written ['-', '>']) := by
    have stop : NameRun (written ['-', '>']) [] (written ['-', '>']) := by
      refine ⟨rfl, by simp, fun c rest split => ?_⟩
      obtain ⟨same, rfl⟩ := List.cons.inj split
      obtain rfl := scalar.inj same
      rw [← Name.continues_scalar]
      decide
    have hyphen : NamePart '-' (some (.scalar '-')) :=
      .inr (.inr (.inr (.inr ⟨rfl, by decide⟩)))
    exact .cons (.inl (by decide)) (.cons hyphen stop)
  obtain ⟨text, token, takes⟩ :=
    recognized (.scalar 'a') (written ['-', '-', '>']) (by decide +kernel)
      (by decide) (.inr (by decide +kernel))
  have front : beforeHyphens.rest = written ['a', '-', '-', '>'] := by
    decide +kernel
  obtain rfl := takes.only _ _ (front ▸ run)
  have plain : token.isKeyword = false := by
    cases token with
    | keyword k =>
        have spelled := (takes.reserved _ rfl).1 rfl
        cases k <;> exact absurd spelled (by decide)
    | constant k =>
        have spelled := (takes.reserved _ rfl).1 rfl
        cases k <;> exact absurd spelled (by decide)
    | _ => rfl
  rw [takes.lexeme]
  exact ⟨takes.bareword plain, rfl, by decide +kernel⟩

end Scanner

end BuildLexer
