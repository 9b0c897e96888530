/-
What one step does to the constructs around the place.

Of all that a plan decides, three things count for the balance of
constructs: the token, the strings found to be left open, and the
nesting. `Turn n token unclosed n'` lists the combinations there are:
turns that open or close text, the turn that enters a call, and shifts,
which are all the other ways to enter and leave in code (`Shift`). Every
rule makes a turn (`turns_next`). So a fact about the balance is proved
by cases on turns and shifts and never looks at the rules again. What
they do to the list of open constructs is the first such fact
(`Turn.layers`), and that only a sigil leads into a call by a bare name
the second (`Turn.named`).

The constructs are those around the place once a call by a bare name is
over, `n.leave {.nameCall}`: a name ends the call, and anything else
does not belong to it.
-/
import BuildLexer.Proofs.Literal.Findings
import BuildLexer.Proofs.Nesting.LineEnd

namespace BuildLexer

open Plan

-- ================================================================ turns

/-- Whether the token opens or closes text: a string or a recipe line. -/
def Token.boundsText : Token → Bool
  | literal .compound | literal .composed | literal .recipe => true
  | _ => false

/-- What a step may do to the constructs around a place, when it opens
and closes no text and enters no call. -/
inductive Shift (n : Nesting) : Nesting → Prop
  | stay : Shift n n
  /-- The mark that opens the arguments of a call. -/
  | pass : Shift n n.passOpener
  /-- A colon that ends the head of a rule. -/
  | rule : Shift n n.afterRule
  | group : Shift n (n.enter {.group})
  /-- The brackets of a rule. -/
  | bracket : Shift n (n.enter {.colonCallLeft})
  /-- The colon between the parts of a call by colons. -/
  | part (inside : n.has .colonCallLeft = true) :
      Shift n
        { n with
          stack := n.stack.replace {.colonCallLeft} {.colonCallRight} }
  | leave {flags : Context} (told : flags ⊆ Context.kinds)
      (code : .quoted ∉ flags) : Shift n (n.leave flags)
  /-- A bracket and a colon, which end the brackets of a rule. -/
  | endRule : Shift n (n.leave Context.colonCall).afterRule

/-- What a step does to the constructs around a place, by the token it
makes and the number of strings it finds left open. -/
inductive Turn (n : Nesting) : Option Token → Nat → Nesting → Prop
  | skip : Turn n none 0 n
  | shift {token : Token} {n' : Nesting}
      (plain : token.boundsText = false) (shift : Shift n n') :
      Turn n (some token) 0 n'
  | call (sigil : Sigil) {flag : Flag} (opener : Bool)
      (call : flag ∈ Context.call) :
      Turn n (some (.reference sigil none)) 0
        { n.enter {flag} with openerNext := opener }
  | recipe (opens : n.opensRecipe = true) :
      Turn n (some (.literal .recipe)) 0 (n.enter {.recipeLine})
  | openString {flags : Context} (opens : Opens .quoted flags) :
      Turn n (some (.literal .compound)) 0 (n.enter flags)
  | closeString (inside : n.has .quoted = true) :
      Turn n (some (.literal .composed)) 0 (n.leave {.quoted})
  /-- A line end in a string of one quote at each end. -/
  | breakString (inside : n.has .quoted = true) :
      Turn n (some (.punct .lineEnd)) 1 (n.leave {.quoted})

-- ================================================================ shape

section Shape

variable {inherited : Context} {kinds : List Flag} {n n' : Nesting}
  {token : Option Token} {unclosed : Nat}

/-- The end of a head does not change the shape. -/
theorem Nesting.layers_afterRule (h : Layers inherited kinds n.stack) :
    Layers inherited kinds n.afterRule.stack := by
  unfold afterRule
  by_cases hi : n.isInside = true
  · rw [if_pos hi]
    exact h
  · rw [if_neg hi]
    have outside : ¬ kinds ≠ [] := fun hk =>
      hi ((isInside_iff_of_layers h).2 hk)
    apply h.place
    · intro f _ hr
      exact mem_insert.trans ⟨fun hc => hc.resolve_right hr, Or.inl⟩
    · exact fun hk => absurd hk outside

/-- Nor does the glyph at the start of a line. -/
theorem Nesting.layers_atGlyph (h : Layers inherited kinds n.stack)
    (g : Glyph) : Layers inherited kinds (n.atGlyph g).stack := by
  unfold atGlyph
  split
  · exact layers_remove h (Or.inr rfl)
  · exact h

/-- Leaving anything but a string leaves as many strings open. -/
theorem count_dropKind {flags : Context} (code : .quoted ∉ flags)
    (kinds : List Flag) :
    (dropKind flags kinds).count .quoted = kinds.count .quoted := by
  cases kinds with
  | nil => rfl
  | cons kind kinds =>
      by_cases hk : kind ∈ flags
      · have other : kind ≠ .quoted := fun he => code (he ▸ hk)
        rw [dropKind_of_mem hk, List.count_cons_of_ne other]
      · rw [dropKind_of_not_mem hk]

/-- A shift keeps the shape of the constructs and the number of strings
among them, and leads into no call by a bare name. -/
theorem Shift.layers (shift : Shift n n')
    (h : Layers inherited kinds n.stack)
    (name : kinds.head? ≠ some .nameCall) :
    ∃ kinds', Layers inherited kinds' n'.stack
      ∧ kinds'.head? ≠ some .nameCall
      ∧ kinds'.count .quoted = kinds.count .quoted := by
  cases shift with
  | stay => exact ⟨kinds, h, name, rfl⟩
  | pass => exact ⟨kinds, h, name, rfl⟩
  | rule => exact ⟨kinds, Nesting.layers_afterRule h, name, rfl⟩
  | group =>
      exact ⟨.group :: kinds,
        h.push (opens_singleton (by decide)) nofun name, nofun, by simp⟩
  | bracket =>
      exact ⟨.colonCallLeft :: kinds,
        h.push (opens_singleton (by decide)) nofun name, nofun, by simp⟩
  | part inside =>
      obtain ⟨outer, rfl⟩ := List.head?_eq_some_iff.1
        ((Nesting.has_iff_of_layers h (by decide)).1 inside)
      exact ⟨_, h.replace, nofun, by simp⟩
  | leave told code =>
      exact ⟨_, h.pop _ told, h.head_dropKind fun hn => absurd hn name,
        count_dropKind code kinds⟩
  | endRule =>
      have left := Nesting.layers_leave h Context.colonCall (by decide)
      exact ⟨_, Nesting.layers_afterRule left,
        h.head_dropKind fun hn => absurd hn name,
        count_dropKind (by decide) kinds⟩

/-- Where a string is innermost, it is the first construct. -/
theorem eq_quoted_cons (h : Layers inherited kinds n.stack)
    (inside : n.has .quoted = true) :
    ∃ outer, kinds = .quoted :: outer :=
  List.head?_eq_some_iff.1
    ((Nesting.has_iff_of_layers h (by decide)).1 inside)

/-- A call is no text. -/
theorem ne_of_mem_call {flag : Flag} (h : flag ∈ Context.call) :
    flag ≠ .recipeLine ∧ flag ≠ .quoted := by
  constructor <;> rintro rfl <;> simp [Context.call] at h

/-- Recipes open outside all constructs. -/
theorem eq_nil_of_opensRecipe (h : Layers inherited kinds n.stack)
    (opens : n.opensRecipe = true) : kinds = [] := by
  cases kinds with
  | nil => rfl
  | cons kind kinds =>
      have inside := (Nesting.isInside_iff_of_layers h).2
        (List.cons_ne_nil _ _)
      simp [Nesting.opensRecipe, inside] at opens

/-- A token that bounds no text is not counted among those that do. -/
theorem count_eq_zero_of_plain {token kind : Token}
    (plain : token.boundsText = false) (bounds : kind.boundsText = true) :
    [token].count kind = 0 := by
  apply List.count_eq_zero_of_not_mem
  intro hm
  obtain rfl := List.mem_singleton.1 hm
  simp [bounds] at plain

/-- A turn keeps the shape of the constructs. The strings among them are
those that were open and the one that the token opens, less the one it
closes and those found to be left open. -/
theorem Turn.layers (turn : Turn n token unclosed n')
    (h : Layers inherited kinds n.stack)
    (name : kinds.head? ≠ some .nameCall) :
    ∃ kinds', Layers inherited kinds' n'.stack
      ∧ kinds'.count .quoted + token.toList.count (.literal .composed)
          + unclosed
        = kinds.count .quoted
          + token.toList.count (.literal .compound) := by
  cases turn with
  | skip => exact ⟨kinds, h, rfl⟩
  | shift plain shift =>
      obtain ⟨kinds', hl, -, same⟩ := shift.layers h name
      refine ⟨kinds', hl, ?_⟩
      rw [Option.toList_some, count_eq_zero_of_plain plain rfl,
        count_eq_zero_of_plain plain rfl]
      exact same
  | call sigil opener call =>
      obtain ⟨recipe, code⟩ := ne_of_mem_call call
      have opens := opens_singleton (mem_kinds_of_mem_call call)
      refine ⟨_, h.push opens (fun he => absurd he recipe) name, ?_⟩
      rw [List.count_cons_of_ne code]
      rfl
  | recipe opens =>
      obtain rfl := eq_nil_of_opensRecipe h opens
      exact ⟨_, h.push (opens_singleton (by decide)) (fun _ => rfl) name,
        rfl⟩
  | openString opens =>
      refine ⟨_, h.push opens nofun name, ?_⟩
      simp
  | closeString inside =>
      obtain ⟨outer, rfl⟩ := eq_quoted_cons h inside
      have left := Nesting.layers_leave h {.quoted} (by decide)
      rw [dropKind_of_mem (by decide)] at left
      exact ⟨outer, left, by simp⟩
  | breakString inside =>
      obtain ⟨outer, rfl⟩ := eq_quoted_cons h inside
      have left := Nesting.layers_leave h {.quoted} (by decide)
      rw [dropKind_of_mem (by decide)] at left
      exact ⟨outer, left, by simp⟩

/-- Only a sigil leads into a call by a bare name. -/
theorem Turn.named (turn : Turn n token unclosed n')
    (h : Layers inherited kinds n.stack)
    (name : kinds.head? ≠ some .nameCall)
    (named : n'.has .nameCall = true) :
    ∃ sigil opener, token = some (.reference sigil none)
      ∧ n' = { n.enter {.nameCall} with openerNext := opener } := by
  have unnamed {kinds' : List Flag} {m : Nesting}
      (hl : Layers inherited kinds' m.stack)
      (other : kinds'.head? ≠ some .nameCall) :
      ¬ m.has .nameCall = true := by
    rw [Nesting.has_iff_of_layers hl (by decide)]
    exact other
  have left := Nesting.layers_leave h {.quoted} (by decide)
  have other : (dropKind {.quoted} kinds).head? ≠ some .nameCall :=
    h.head_dropKind fun hn => absurd hn name
  cases turn with
  | skip => exact absurd named (unnamed h name)
  | shift plain shift =>
      obtain ⟨kinds', hl, head, -⟩ := shift.layers h name
      exact absurd named (unnamed hl head)
  | @call sigil flag opener call =>
      have entered : .nameCall ∈ (n.stack.push {flag}).current :=
        Nesting.has_iff.1 named
      rcases Context.mem_union.1 entered with hc | hc
      · exact absurd (Context.mem_inter.1 hc).2 (by decide)
      · obtain rfl := Context.mem_singleton.1 hc
        exact ⟨sigil, opener, rfl, rfl⟩
  | recipe opens =>
      have recipe : Opens .recipeLine {.recipeLine} :=
        opens_singleton (by decide)
      have opened := h.push recipe
        (fun _ => eq_nil_of_opensRecipe h opens) name
      exact absurd named (unnamed opened nofun)
  | openString opens =>
      exact absurd named (unnamed (h.push opens nofun name) nofun)
  | closeString inside => exact absurd named (unnamed left other)
  | breakString inside => exact absurd named (unnamed left other)

end Shape

-- ================================================================ rules

namespace Plan

/-- How many strings a plan reports as left open. -/
def unclosed (p : Plan) : Nat :=
  (p.early ++ p.late).countP (·.fault = .openString)

/-- A plan that makes a turn. If its token is illegal, it finds
something wrong, unless the glyph is one that was reported when it was
reached. -/
structure Turns (n : Nesting) (g : Glyph) (p : Plan) : Prop where
  turn : Turn n p.token p.unclosed p.nesting
  marked : p.token = some .illegal →
    p.late = illegalFindings g ∨ p.late ≠ []

variable {mode : Mode} {n : Nesting} {g : Glyph} {rest : List Glyph}

/-- Findings about anything else leave no string open. -/
theorem Turns.of_about {p : Plan} {topic : Topic} {length : Nat}
    (turn : Turn n p.token 0 p.nesting)
    (h : About topic length (p.early ++ p.late)) (other : topic ≠ .string)
    (marked : p.token = some .illegal →
      p.late = illegalFindings g ∨ p.late ≠ []) : p.Turns n g where
  turn := by
    have none : p.unclosed = 0 := by
      unfold unclosed
      rw [List.countP_eq_zero]
      intro f hf
      rw [decide_eq_true_eq]
      intro ho
      have about := (h f hf).1
      rw [ho] at about
      exact other about.symm
    rw [none]
    exact turn
  marked := marked

/-- A mark that finds nothing wrong. -/
theorem turns_mark {token : Token} {more : Nat} {n' : Nesting}
    (plain : token.boundsText = false) (legal : token ≠ .illegal)
    (shift : Shift n n') : (mark token more n').Turns n g :=
  ⟨.shift plain shift, fun he => absurd (Option.some.inj he) legal⟩

-- ------------------------------------------------------------------ text

/-- A reference enters a call, or changes nothing. -/
theorem turns_reference (sigil : Sigil) :
    (reference sigil n rest).Turns n g := by
  unfold reference
  split
  · exact turns_mark rfl nofun .stay
  · exact ⟨.call sigil _ (callAt_mem_call _), nofun⟩

theorem turns_referenceInText (sigil : Sigil) :
    (referenceInText sigil n rest).Turns n g := by
  unfold referenceInText
  split
  · exact ⟨.shift rfl .stay, nofun⟩
  · exact turns_reference sigil

/-- A piece of text changes nothing. -/
theorem turns_raw (src : List Glyph) (more : Nat) :
    (spanning (.literal .raw) src more n).Turns n g :=
  ⟨.shift rfl .stay, nofun⟩

/-- In a recipe line the line end leaves the line. -/
theorem turns_inRecipe : (inRecipe n g rest).Turns n g := by
  unfold inRecipe
  split
  · exact turns_mark rfl nofun (.leave (by decide) (by decide))
  split
  · unfold recipeEscape
    split
    · exact ⟨.shift rfl .stay, fun _ => Or.inr (List.cons_ne_nil _ _)⟩
    · exact ⟨.shift rfl .stay, nofun⟩
  split
  · exact turns_referenceInText _
  split
  · exact turns_referenceInText _
  · exact turns_raw _ _

/-- An escape in a string changes nothing. -/
theorem turns_stringEscape : (stringEscape n rest).Turns n g := by
  unfold stringEscape
  split
  · exact ⟨.shift rfl .stay, nofun⟩
  · exact ⟨.skip, nofun⟩
  next length finding h =>
    have about := (Escape.about_read h).shift 1
    refine .of_about (.shift rfl .stay) about nofun fun _ => ?_
    exact Or.inr (List.cons_ne_nil _ _)

/-- In a string the closing quote leaves it, and so does a line end, which
finds it open. -/
theorem turns_inString (inside : n.has .quoted = true) :
    (inString n g rest).Turns n g := by
  unfold inString
  dsimp only
  split
  · split
    · exact ⟨.closeString inside, nofun⟩
    split
    · exact ⟨.closeString inside, nofun⟩
    · exact turns_raw _ _
  split
  · exact ⟨.breakString inside, nofun⟩
  split
  · exact turns_stringEscape
  split
  · exact turns_referenceInText _
  split
  · exact turns_referenceInText _
  · exact turns_raw _ _

-- ------------------------------------------------------------------ code

/-- A word opens and closes nothing. -/
theorem plain_ofWord (text : String) :
    (Token.ofWord text).boundsText = false
      ∧ Token.ofWord text ≠ .illegal := by
  unfold Token.ofWord
  cases found : Token.words.find? (·.spelling == text) with
  | none => exact ⟨rfl, nofun⟩
  | some word =>
      rcases List.mem_append.1 (List.mem_of_find?_eq_some found) with h | h
      · obtain ⟨k, -, rfl⟩ := List.mem_map.1 h
        exact ⟨rfl, nofun⟩
      · obtain ⟨k, -, rfl⟩ := List.mem_map.1 h
        exact ⟨rfl, nofun⟩

/-- What a name can have wrong is about the word. -/
theorem about_name (src : List Glyph) :
    About .word 0 ((name n src).early ++ (name n src).late) := by
  show About .word 0 (if _ then [] else _)
  split
  · exact About.nil
  · exact About.single rfl (Nat.le_refl 0)

/-- A name ends a call by a bare name. -/
theorem turns_name (src : List Glyph) : (name n src).Turns n g := by
  obtain ⟨plain, legal⟩ :=
    plain_ofWord (Glyph.lossyText (src.take ((name n src).more + 1)))
  have left : Shift n (n.leave {.nameCall}) :=
    .leave (by decide) (by decide)
  refine .of_about (.shift plain left) (about_name src) nofun fun he => ?_
  exact absurd (Option.some.inj he) legal

/-- Seen from behind the call, the name that it is by changes nothing. -/
theorem turns_name_leave (src : List Glyph) :
    (name n src).Turns (n.leave {.nameCall}) g := by
  obtain ⟨plain, legal⟩ :=
    plain_ofWord (Glyph.lossyText (src.take ((name n src).more + 1)))
  refine .of_about (.shift plain .stay) (about_name src) nofun fun he => ?_
  exact absurd (Option.some.inj he) legal

/-- A number bounds no text. -/
theorem plain_of_isNumber {kind : Literal} (h : kind.isNumber = true) :
    (Token.literal kind).boundsText = false := by
  cases kind <;> first | rfl | cases h

/-- A date or a time bounds no text. -/
theorem plain_of_isTemporal {kind : Literal}
    (h : kind.isTemporal = true) :
    (Token.literal kind).boundsText = false := by
  cases kind <;> first | rfl | cases h

theorem turns_number (start : Nat) (src : List Glyph) :
    (number n start src).Turns n g := by
  have proper := Number.proper_read start (src.drop start)
  have plain := plain_of_isNumber proper.kind
  exact .of_about (.shift plain .stay) proper.findings nofun nofun

theorem turns_digits (src : List Glyph) : (digits n src).Turns n g := by
  unfold digits
  split
  next temporal h =>
    have proper := Temporal.proper_read? h
    have plain := plain_of_isTemporal proper.kind
    have about := proper.findings.append About.nil
    exact .of_about (.shift plain .stay) about nofun nofun
  next => exact turns_number 0 src

/-- A raw string is one token, and nothing is inside it. -/
theorem turns_rawString (src : List Glyph) :
    (rawString n src).Turns n g := by
  have about : About .rawString 0
      ((rawString n src).early ++ (rawString n src).late) := by
    show About .rawString 0 (if _ then [] else _)
    split
    · exact About.nil
    · exact About.single rfl (Nat.le_refl 0)
  exact .of_about (.shift rfl .stay) about nofun nofun

/-- An opening quote enters a string. -/
theorem turns_openString (src : List Glyph) :
    (openString n src).Turns n g := by
  unfold openString
  split
  · exact ⟨.openString opens_tripleQuoted, nofun⟩
  · exact ⟨.openString (opens_singleton (by decide)), nofun⟩

/-- A line end may leave a call by colons. -/
theorem turns_lineEnd : (lineEnd n).Turns n g := by
  unfold lineEnd
  split
  · exact ⟨.shift rfl (.leave (by decide) (by decide)), nofun⟩
  · exact turns_mark rfl nofun .stay

/-- A hash sign changes nothing. -/
theorem turns_hash (src : List Glyph) :
    (Plan.hash mode n src).Turns n g := by
  unfold Plan.hash
  split
  · exact turns_mark rfl nofun .stay
  split
  · exact ⟨.shift rfl .stay, nofun⟩
  · exact ⟨.skip, nofun⟩

theorem turns_backslash : (backslash n rest).Turns n g := by
  unfold backslash
  split
  · exact ⟨.skip, nofun⟩
  · exact turns_mark rfl nofun .stay

/-- An operator bounds no text and is not illegal. -/
theorem plain_of_operator? {chars : List Char} {token : Token}
    {more : Nat} (h : operator? chars = some (token, more)) :
    token.boundsText = false ∧ token ≠ .illegal := by
  unfold operator? at h
  split at h <;> cases h <;> exact ⟨rfl, nofun⟩

/-- An operator changes nothing, and what is none is illegal. -/
theorem turns_operator : (operator n g rest).Turns n g := by
  unfold operator
  split
  next token more h =>
    obtain ⟨plain, legal⟩ := plain_of_operator? h
    exact turns_mark plain legal .stay
  next =>
    have about : About .character 0 (illegalFindings g) := by
      unfold illegalFindings
      dsimp only
      split
      · exact About.nil
      · exact About.single rfl (Nat.le_refl 0)
    exact .of_about (.shift rfl .stay) about nofun fun _ => Or.inl rfl

/-- A colon outside calls enters brackets or changes no construct. -/
theorem turns_ruleColon (next : List Char) :
    (ruleColon n next).Turns n g := by
  unfold ruleColon
  split
  · exact turns_mark rfl nofun .stay
  · exact turns_mark rfl nofun .stay
  · exact turns_mark rfl nofun .rule
  · exact turns_mark rfl nofun .bracket
  · exact turns_mark rfl nofun .bracket
  · exact turns_mark rfl nofun .bracket
  · exact turns_mark rfl nofun .rule

/-- A colon in a call goes on to its second part or leaves it. -/
theorem turns_colon (next : List Char) : (colon n next).Turns n g := by
  unfold colon
  split
  next inside =>
    split
    · exact turns_mark rfl nofun .pass
    · exact turns_mark rfl nofun (.part inside)
  split
  · exact turns_mark rfl nofun (.leave (by decide) (by decide))
  · exact turns_ruleColon next

/-- A closing bracket may leave a call by colons. -/
theorem turns_rightBracket (next : List Char) :
    (rightBracket n next).Turns n g := by
  unfold rightBracket
  split
  · exact turns_mark rfl nofun .endRule
  · exact turns_mark rfl nofun .stay

/-- A parenthesis passes what a call awaits or enters a group. -/
theorem turns_leftParen : (leftParen n).Turns n g := by
  unfold leftParen
  split
  · exact turns_mark rfl nofun .pass
  · exact turns_mark rfl nofun .group

/-- So does a brace, or changes nothing. -/
theorem turns_leftBrace : (leftBrace n).Turns n g := by
  unfold leftBrace
  split
  · exact turns_mark rfl nofun .pass
  split
  · exact turns_mark rfl nofun .group
  · exact turns_mark rfl nofun .stay

/-- At a mark the step makes the turn of its rule. -/
theorem turns_special : (special mode n g rest).Turns n g := by
  have closes {token : Token} {flags : Context}
      (plain : token.boundsText = false) (legal : token ≠ .illegal)
      (told : flags ⊆ Context.kinds) (code : .quoted ∉ flags) :
      (mark token 0 (n.leave flags)).Turns n g :=
    turns_mark plain legal (.leave told code)
  unfold special
  dsimp only
  split
  · split
    next opens => exact ⟨.recipe opens, nofun⟩
    next => exact ⟨.shift rfl .stay, nofun⟩
  · exact ⟨.shift rfl .stay, nofun⟩
  · exact ⟨.shift rfl .stay, nofun⟩
  · exact turns_lineEnd
  · exact turns_hash _
  · exact turns_backslash
  · exact turns_rawString _
  · exact turns_openString _
  · exact turns_reference _
  · exact turns_reference _
  · exact turns_colon _
  · exact turns_rightBracket _
  · exact turns_leftParen
  · exact closes rfl nofun (by decide) (by decide)
  · exact turns_leftBrace
  · exact closes rfl nofun (by decide) (by decide)
  · split
    · exact turns_number 1 _
    · exact turns_operator
  · exact turns_operator

/-- In code names and digits make turns that are shifts. -/
theorem turns_inCode : (inCode mode n g rest).Turns n g := by
  unfold inCode
  split
  · exact turns_name _
  split
  · exact turns_digits _
  · exact turns_special

-- ----------------------------------------------------------------- steps

/-- Inside text or in code, a step makes a turn. -/
theorem turns_atGlyph :
    (Plan.atGlyph mode n g rest).Turns (n.atGlyph g) g := by
  unfold Plan.atGlyph
  split
  next h =>
    rw [Nesting.atGlyph_of_has (by decide) h]
    exact turns_inRecipe
  split
  next h =>
    rw [Nesting.atGlyph_of_has (by decide) h]
    exact turns_inString h
  · exact turns_inCode

/-- Every plan at a glyph makes a turn, from the constructs around the
place once a call by a bare name is over; recipes may cease to be
expected there. -/
theorem turns_next {inherited : Context} {kinds : List Flag}
    (hl : Layers inherited kinds n.stack) :
    ∃ m, (m = n.leave {.nameCall} ∨ m = (n.leave {.nameCall}).atGlyph g)
      ∧ (next mode n (g :: rest)).Turns m g := by
  by_cases hg : g.isLetter = true
  · by_cases hn : n.has .nameCall = true
    · rw [next_of_name hl hn hg]
      exact ⟨_, Or.inl rfl, turns_name_leave _⟩
    · refine ⟨_, Or.inr rfl, ?_⟩
      rw [Nesting.leave_of_not_has hn]
      show (Plan.atGlyph mode (n.settle (g :: rest)) g rest).Turns _ g
      rw [Nesting.settle_of_letter hg]
      exact turns_atGlyph
  · rw [next_of_not_letter (Bool.eq_false_iff.2 hg)]
    exact ⟨_, Or.inr rfl, turns_atGlyph⟩

end Plan

-- ============================================================= scanners

namespace Scanner

/-- A step at a glyph makes a turn. -/
theorem Sound.turns {s : Scanner} (h : s.Sound) {g : Glyph}
    {rest : List Glyph} (hr : s.rest = g :: rest) :
    ∃ inherited kinds m, Layers inherited kinds s.nesting.stack
      ∧ Layers inherited (dropKind {.nameCall} kinds) m.stack
      ∧ (dropKind {.nameCall} kinds).head? ≠ some .nameCall
      ∧ (m = s.nesting.leave {.nameCall}
        ∨ m = (s.nesting.leave {.nameCall}).atGlyph g)
      ∧ s.plan.Turns m g := by
  obtain ⟨inherited, hn, -⟩ := h
  obtain ⟨kinds, hl⟩ := hn.layers
  obtain ⟨m, hm, turns⟩ : ∃ m, (m = s.nesting.leave {.nameCall}
      ∨ m = (s.nesting.leave {.nameCall}).atGlyph g)
      ∧ (next s.mode s.nesting (g :: rest)).Turns m g := turns_next hl
  have left := Nesting.layers_leave hl {.nameCall} (by decide)
  refine ⟨inherited, kinds, m, hl, ?_, hl.head_dropKind fun _ => by decide,
    hm, ?_⟩
  · rcases hm with rfl | rfl
    · exact left
    · exact Nesting.layers_atGlyph left g
  · unfold plan
    rw [hr]
    exact turns

end Scanner

end BuildLexer
