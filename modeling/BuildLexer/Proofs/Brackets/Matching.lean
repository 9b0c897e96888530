/-
Which construct a bracket and a colon end.

The brackets of a rule and calls by colons are open in the same way, so
what the mark `]:` ends depends on what was entered last and not left
since. It is always one construct, entered by one of the three openings
of brackets or by a sigil before a colon (`Scanner.OpensColons`), and no
other such mark ends the same one (`brackets_match`). So there are never
more of these marks than openings.

Constructs have no names; one is told by the level it is at, from the
call that enters the level up to the call that leaves it (`Matches`). A
call does one of three things to the levels (`Regroups`,
`regroups_scan`). What the run keeps is who entered each level that is
open, and that whoever entered one of a call by colons opens such
(`Entered`, `Scanner.Owned`).
-/
import BuildLexer.Proofs.Nesting.Openers
import BuildLexer.Proofs.Recipes.Headers
import BuildLexer.Proofs.Scanner.Told

namespace BuildLexer

open Plan Glyph

-- ============================================================== levels

theorem dropKind_suffix (flags : Context) (kinds : List Flag) :
    dropKind flags kinds <:+ kinds := by
  cases kinds with
  | nil => exact List.suffix_rfl
  | cons kind kinds =>
      by_cases told : kind ∈ flags
      · rw [dropKind_of_mem told]
        exact List.suffix_cons kind kinds
      · exact ⟨[], dropKind_of_not_mem told kinds⟩

/-- Of the constructs that are open, settling leaves the outer ones. -/
theorem Nesting.layers_settle_suffix {inherited : Context}
    {kinds : List Flag} {n : Nesting} (h : Layers inherited kinds n.stack)
    (src : List Glyph) :
    ∃ left, left <:+ kinds ∧ Layers inherited left (n.settle src).stack := by
  unfold settle
  split
  next => exact ⟨_, dropKind_suffix _ _, layers_leave h _ (by decide)⟩
  next => exact ⟨kinds, List.suffix_rfl, h⟩

/-- Where flags of kinds hold, the innermost construct is of one. -/
theorem exists_of_meets {inherited flags : Context} {kinds : List Flag}
    {n : Nesting} (h : Layers inherited kinds n.stack)
    (told : flags ⊆ Context.kinds) (inside : n.meets flags = true) :
    ∃ kind outer, kinds = kind :: outer ∧ kind ∈ flags := by
  obtain ⟨f, held, listed⟩ := Context.meets_iff.1 inside
  have head := (h.mem_current_iff (Context.subset_iff.1 told f listed)).1 held
  obtain ⟨outer, rfl⟩ := List.head?_eq_some_iff.1 head
  exact ⟨f, outer, rfl, listed⟩

theorem Token.exists_of_isSigil {token : Token}
    (h : token.isSigil = true) :
    ∃ sigil, token = .reference sigil none := by
  cases token with
  | reference sigil suffix =>
      cases suffix with
      | none => exact ⟨sigil, rfl⟩
      | some suffix => cases h
  | _ => cases h

/-- Only before a colon a sigil enters a call by colons. -/
theorem callAt_colon {next : Option Glyph}
    (colon : (callAt next).1 ∈ Context.colonCall) :
    next = some (.scalar ':') := by
  unfold callAt at colon
  split at colon
  · exact absurd colon (by decide)
  split at colon
  · exact absurd colon (by decide)
  split at colon
  · assumption
  · exact absurd colon (by decide)

namespace Scanner

/-- How many constructs are around the scanner. -/
def depth (s : Scanner) : Nat := s.nesting.stack.depth

/-- The next call opens what a bracket and a colon end: the brackets of a
rule, or a call by colons. -/
def opensColons (s : Scanner) : Bool :=
  s.scan.1.token.opensBrackets
    || (s.scan.1.token.isSigil
      && s.scan.2.rest.head? == some (.scalar ':'))

/-- The scanner before a call, when recipes are switched before each. -/
def before (s : Scanner) (switches : Nat → List Bool) : Nat → Scanner
  | 0 => (switches 0).foldl setRecipes s
  | k + 1 => (switches (k + 1)).foldl setRecipes (s.before switches k).scan.2

/-- What a call does to the constructs around the place: it leaves some,
it leads on to the second part of a call, or it enters one. -/
inductive Regroups (token : Token) (opens : Bool) (kinds : List Flag) :
    List Flag → Prop
  | leave {left : List Flag} (outer : left <:+ kinds)
      (closes : token = .rule .bracketColon →
        ∃ kind ∈ Context.colonCall, kinds = kind :: left) :
      Regroups token opens kinds left
  | part {outer : List Flag} (same : kinds = .colonCallLeft :: outer)
      (other : token ≠ .rule .bracketColon) :
      Regroups token opens kinds (.colonCallRight :: outer)
  | enter {kind : Flag} (colons : kind ∈ Context.colonCall → opens = true)
      (other : token ≠ .rule .bracketColon) :
      Regroups token opens kinds (kind :: kinds)

variable {file : File} {mode : Mode} {source : List UInt8}
  {begun s : Scanner} {inherited : Context} {kinds : List Flag}

section Step

variable {m : Nesting} {g : Glyph} {rest : List Glyph} {token : Token}
  (hr : s.rest = g :: rest) (hp : s.plan.token = some token)
  (layers : Layers inherited kinds m.stack)

/-- A step leads to a stack from some constructs. -/
def LeadsTo (s : Scanner) (inherited : Context) (kinds : List Flag)
    (stack : ContextStack) : Prop :=
  ∃ left, Layers inherited left stack
    ∧ Regroups s.scan.1.token s.opensColons kinds left

include hp in
theorem scan_token_of_token : s.scan.1.token = token := by
  rw [scan_of_token hp]
  rfl

include layers hp in
/-- A bracket and a colon leave the innermost construct, one by
colons. -/
theorem leadsTo_of_bracket (colons : s.plan.Colons m rest)
    (bracket : token = .rule .bracketColon) :
    s.LeadsTo inherited kinds s.plan.nesting.stack := by
  obtain ⟨inside, nesting⟩ := colons.closes (bracket ▸ hp)
  obtain ⟨kind, outer, rfl, colon⟩ := exists_of_meets layers (by decide) inside
  have left := Nesting.layers_leave layers Context.colonCall (by decide)
  rw [dropKind_of_mem colon] at left
  refine ⟨outer, ?_, .leave (List.suffix_cons _ _) fun _ =>
    ⟨kind, colon, rfl⟩⟩
  rw [nesting]
  exact Nesting.layers_afterRule left

variable (head : kinds.head? ≠ some .nameCall)

include hr hp layers head in
/-- A sigil enters a call. -/
theorem leadsTo_of_sigil (colons : s.plan.Colons m rest)
    (alone : token.isSigil = true) :
    s.LeadsTo inherited kinds s.plan.nesting.stack := by
  have made := scan_token_of_token hp
  obtain ⟨sigil, rfl⟩ := Token.exists_of_isSigil alone
  have plan := colons.sigil sigil hp
  have called := callAt_mem_call rest.head?
  refine ⟨(callAt rest.head?).1 :: kinds, ?_, .enter (fun colon => ?_) ?_⟩
  · rw [plan]
    exact layers.push (opens_singleton (mem_kinds_of_mem_call called))
      (fun he => absurd he (ne_of_mem_call called).1) head
  · have behind : s.scan.2.rest = rest := by
      rw [rest_of_token hp, plan, hr]
      rfl
    unfold opensColons
    rw [made, behind, callAt_colon colon]
    rfl
  · rw [made]
    exact nofun

include hp layers head in
/-- Any other token leaves some constructs, or enters one that is not by
colons unless the token opens brackets. -/
theorem leadsTo_of_turn (turns : s.plan.Turns m g)
    (colons : s.plan.Colons m rest) (bracket : token ≠ .rule .bracketColon)
    (alone : ¬ token.isSigil = true) :
    s.LeadsTo inherited kinds s.plan.nesting.stack := by
  have made := scan_token_of_token hp
  have other : s.scan.1.token ≠ .rule .bracketColon := made ▸ bracket
  have turn := turns.turn
  have entered := colons.opens
  rw [hp] at turn entered
  generalize s.plan.nesting = n', s.plan.unclosed = unclosed
    at turn entered ⊢
  have stay {left : List Flag} (behind : Layers inherited left n'.stack)
      (outer : left <:+ kinds) : s.LeadsTo inherited kinds n'.stack :=
    ⟨left, behind, .leave outer fun closes => absurd closes other⟩
  have leave {flags : Context} (told : flags ⊆ Context.kinds)
      (same : n'.stack = (m.leave flags).stack) :
      s.LeadsTo inherited kinds n'.stack :=
    stay (same ▸ Nesting.layers_leave layers flags told)
      (dropKind_suffix _ _)
  have enter (kind : Flag) {flags : Context} (opens : Opens kind flags)
      (recipe : kind = .recipeLine → kinds = [])
      (same : n'.stack = m.stack.push flags)
      (colon : kind ∈ Context.colonCall → s.opensColons = true) :
      s.LeadsTo inherited kinds n'.stack :=
    ⟨kind :: kinds, same ▸ layers.push opens recipe head, .enter colon other⟩
  cases turn with
  | shift plain shift =>
      cases shift with
      | stay => exact stay layers List.suffix_rfl
      | pass => exact stay layers List.suffix_rfl
      | rule => exact stay (Nesting.layers_afterRule layers) List.suffix_rfl
      | group =>
          exact enter .group (opens_singleton (by decide)) nofun rfl
            fun colon => absurd colon (by decide)
      | bracket =>
          obtain ⟨_, same, opening⟩ := entered (Nat.lt_succ_self _)
            (Nesting.has_iff.2 (Context.mem_union.2 (.inr (by simp))))
          obtain rfl := Option.some.inj same
          refine enter .colonCallLeft (opens_singleton (by decide)) nofun rfl
            fun _ => ?_
          unfold opensColons
          rw [made, opening.resolve_right alone]
          rfl
      | part inside =>
          obtain ⟨outer, rfl⟩ := List.head?_eq_some_iff.1
            ((Nesting.has_iff_of_layers layers (by decide)).1 inside)
          exact ⟨_, layers.replace, .part rfl other⟩
      | leave told _ => exact leave told rfl
      | endRule =>
          have left := Nesting.layers_leave layers Context.colonCall
            (by decide)
          exact stay (Nesting.layers_afterRule left) (dropKind_suffix _ _)
  | call => exact absurd rfl alone
  | recipe opens =>
      exact enter .recipeLine (opens_singleton (by decide))
        (fun _ => eq_nil_of_opensRecipe layers opens) rfl
        fun colon => absurd colon (by decide)
  | openString opens =>
      exact enter .quoted opens nofun rfl fun colon => absurd colon (by decide)
  | closeString _ => exact leave (by decide) rfl
  | breakString _ => exact leave (by decide) rfl

end Step

/-- A step that makes a token regroups the constructs around it so. -/
theorem regroups_of_token {token : Token} (hp : s.plan.token = some token)
    (layers : Layers inherited kinds s.nesting.stack) :
    ∃ around, around <:+ kinds
      ∧ Layers inherited around (s.nesting.settle s.rest).stack
      ∧ s.LeadsTo inherited around s.plan.nesting.stack := by
  have made := scan_token_of_token hp
  obtain ⟨around, outer, settled⟩ :=
    Nesting.layers_settle_suffix layers s.rest
  refine ⟨around, outer, settled, ?_⟩
  cases hr : s.rest with
  | nil =>
      -- the end leaves everything
      have ended : s.scan.1.token ≠ .rule .bracketColon := by
        rw [token_plan_nil s hr] at hp
        rw [made, ← Option.some.inj hp]
        exact nofun
      refine ⟨[], ?_, .leave List.nil_suffix fun closes =>
        absurd closes ended⟩
      unfold plan
      rw [hr] at settled ⊢
      exact settled.unwind
  | cons g rest =>
      rw [hr] at settled
      have plan : s.plan = next s.mode s.nesting (g :: rest) :=
        congrArg _ hr
      rcases name_or_colons_next s.mode g rest layers with
        ⟨letter, name⟩ | ⟨unnamed, turns, colons⟩
      · -- the name leaves the call that it is of
        have ended : s.scan.1.token ≠ .rule .bracketColon := by
          rw [plan, name] at hp
          have plain := plain_name hp
          rw [made]
          rintro rfl
          cases plain
        rw [Nesting.settle_of_letter letter] at settled
        have left := Nesting.layers_leave settled {.nameCall} (by decide)
        refine ⟨dropKind {.nameCall} around, ?_,
          .leave (dropKind_suffix _ _) fun closes => absurd closes ended⟩
        rw [plan, name]
        exact left
      · rw [← plan] at turns colons
        have here := Nesting.layers_atGlyph settled g
        have head : around.head? ≠ some .nameCall := fun he =>
          unnamed ((Nesting.has_iff_of_layers settled (by decide)).2 he)
        by_cases bracket : token = .rule .bracketColon
        · exact leadsTo_of_bracket hp here colons bracket
        by_cases alone : token.isSigil = true
        · exact leadsTo_of_sigil hr hp here head colons alone
        · exact leadsTo_of_turn hp here head turns colons bracket alone

/-- A step that skips enters nothing. -/
theorem layers_of_skip (hp : s.plan.token = none)
    (layers : Layers inherited kinds s.nesting.stack) :
    ∃ left, left <:+ kinds ∧ Layers inherited left s.plan.nesting.stack := by
  obtain ⟨around, outer, settled⟩ :=
    Nesting.layers_settle_suffix layers s.rest
  refine ⟨around, outer, ?_⟩
  cases hr : s.rest with
  | nil =>
      rw [token_plan_nil s hr] at hp
      cases hp
  | cons g rest =>
      rw [hr] at settled
      have plan : s.plan = next s.mode s.nesting (g :: rest) :=
        congrArg _ hr
      rcases name_or_colons_next s.mode g rest layers with
        ⟨-, name⟩ | ⟨-, turns, -⟩
      · rw [plan, name] at hp
        cases hp
      · rw [← plan] at turns
        have turn := turns.turn
        rw [hp] at turn
        generalize s.plan.nesting = n', s.plan.unclosed = unclosed at turn ⊢
        cases turn
        exact Nesting.layers_atGlyph settled g

/-- A call regroups so the constructs around the place where the step
begins that makes its token. -/
theorem regroups_scan (layers : Layers inherited kinds s.nesting.stack) :
    ∃ around left, around <:+ kinds ∧ around.length = s.dispatchDepth
      ∧ Layers inherited left s.scan.2.nesting.stack
      ∧ Regroups s.scan.1.token s.opensColons around left := by
  induction s using scan.induct generalizing kinds with
  | case1 s token hp =>
      obtain ⟨around, outer, settled, left, behind, regroups⟩ :=
        regroups_of_token hp layers
      refine ⟨around, left, outer, ?_, ?_, regroups⟩
      · unfold dispatchDepth
        rw [dispatch_of_token hp, settled.depth_eq]
      · rw [scan_of_token hp]
        exact Nesting.layers_afterToken behind _
  | case2 s hp ih =>
      obtain ⟨skipped, inner, behind⟩ := layers_of_skip hp layers
      rw [← nesting_perform s s.plan] at behind
      have same : s.opensColons = (s.perform s.plan).opensColons := by
        unfold opensColons
        rw [scan_of_skip hp]
      obtain ⟨around, left, outer, depth, after, regroups⟩ := ih behind
      refine ⟨around, left, outer.trans inner, ?_, ?_, ?_⟩
      · unfold dispatchDepth at depth ⊢
        rw [dispatch_of_skip hp, depth]
      · rw [scan_of_skip hp]
        exact after
      · rw [scan_of_skip hp, same]
        exact regroups

-- ================================================================ runs

/-- Switching recipes changes no construct. -/
theorem layers_switched (layers : Layers inherited kinds s.nesting.stack)
    (switches : List Bool) :
    ∃ inherited',
      Layers inherited' kinds (switches.foldl setRecipes s).nesting.stack := by
  induction switches generalizing s inherited with
  | nil => exact ⟨inherited, layers⟩
  | cons on switches ih => exact ih (layers.setInherited _ on)

/-- The construct of a kind, with some around it, is open before a call
and was entered by an earlier one, which opens what colons open if it is
of these. -/
structure Entered (calls : Nat → Scanner) (k : Nat) (kind : Flag)
    (outer : List Flag) (h : Nat) : Prop where
  earlier : h < k
  enters : (calls h).scan.2.depth = (calls h).dispatchDepth + 1
  level : (calls h).scan.2.depth = outer.length + 1
  stays : ∀ j, h < j → j < k → outer.length + 1 ≤ (calls j).dispatchDepth
  colons : kind ∈ Context.colonCall → (calls h).opensColons = true

/-- What is known before a call: who entered each of the constructs that
are open, and that the brackets with a colon are no more than what opens
them less what is still open. -/
structure Owned (calls : Nat → Scanner) (k : Nat) (kinds : List Flag) :
    Prop where
  layers : ∃ inherited, Layers inherited kinds (calls k).nesting.stack
  entered : ∀ kind outer, kind :: outer <:+ kinds →
    ∃ h, Entered calls k kind outer h
  counted : (List.range k).countP
        (fun i => (calls i).scan.1.token = .rule .bracketColon)
      + kinds.countP (· ∈ Context.colonCall)
    ≤ (List.range k).countP fun i => (calls i).opensColons

section Run

variable {calls : Nat → Scanner} {k h : Nat} {kind : Flag}
  {around left outer : List Flag}

/-- What is around the place of the call stays entered. -/
theorem Entered.next (entered : Entered calls k kind outer h)
    (here : kind :: outer <:+ around)
    (depth : around.length = (calls k).dispatchDepth) :
    Entered calls (k + 1) kind outer h where
  earlier := Nat.lt_succ_of_lt entered.earlier
  enters := entered.enters
  level := entered.level
  stays := by
    intro j later earlier
    rcases Nat.lt_succ_iff_lt_or_eq.1 earlier with earlier | rfl
    · exact entered.stays j later earlier
    · rw [← depth]
      exact here.length_le
  colons := entered.colons

/-- Behind a call every open construct was entered by a call. -/
theorem Regroups.entered
    (regroups : Regroups (calls k).scan.1.token (calls k).opensColons around
      left)
    (depth : around.length = (calls k).dispatchDepth)
    (behind : left.length = (calls k).scan.2.depth)
    (old : ∀ kind outer, kind :: outer <:+ around →
      ∃ h, Entered calls k kind outer h) :
    ∀ kind outer, kind :: outer <:+ left →
      ∃ h, Entered calls (k + 1) kind outer h := by
  have still {kind : Flag} {outer : List Flag}
      (here : kind :: outer <:+ around) :
      ∃ h, Entered calls (k + 1) kind outer h := by
    obtain ⟨h, entered⟩ := old kind outer here
    exact ⟨h, entered.next here depth⟩
  intro kind outer here
  cases regroups with
  | leave within _ => exact still (here.trans within)
  | @part within same _ =>
      rw [same] at still
      rcases List.suffix_cons_iff.1 here with parted | here
      · -- the second part was entered with the first
        obtain ⟨rfl, rfl⟩ := List.cons.inj parted
        obtain ⟨h, entered⟩ := still List.suffix_rfl
        exact ⟨h, entered.earlier, entered.enters, entered.level,
          entered.stays, fun _ => entered.colons (by decide)⟩
      · exact still (here.trans (List.suffix_cons _ _))
  | enter colons _ =>
      rcases List.suffix_cons_iff.1 here with new | here
      · obtain ⟨rfl, rfl⟩ := List.cons.inj new
        rw [List.length_cons] at behind
        refine ⟨k, Nat.lt_succ_self k, ?_, behind.symm, ?_, colons⟩
        · rw [← behind, depth]
        · intro j later earlier
          omega
      · exact still here

/-- A bracket with a colon leaves one construct by colons, and a call
enters one only if it opens such. -/
theorem Regroups.counted {token : Token} {opens : Bool}
    (regroups : Regroups token opens around left) :
    (if token = .rule .bracketColon then 1 else 0)
        + left.countP (· ∈ Context.colonCall)
      ≤ around.countP (· ∈ Context.colonCall) + if opens then 1 else 0 := by
  cases regroups with
  | leave within closes =>
      split
      next bracket =>
        obtain ⟨kind, colon, rfl⟩ := closes bracket
        rw [List.countP_cons_of_pos (by simpa using colon)]
        omega
      next =>
        have fewer := within.sublist.countP_le
          (p := fun kind => decide (kind ∈ Context.colonCall))
        omega
  | part same other =>
      rw [if_neg other, same, List.countP_cons_of_pos (by decide),
        List.countP_cons_of_pos (by decide)]
      omega
  | @enter kind colons other =>
      rw [if_neg other, List.countP_cons]
      by_cases colon : kind ∈ Context.colonCall
      · rw [colons colon]
        simp [colon]
      · simp [colon]

/-- What is known before a call is known before the next. -/
theorem Owned.next (owned : Owned calls k kinds) {switches : List Bool}
    (next : calls (k + 1) = switches.foldl setRecipes (calls k).scan.2) :
    ∃ left, Owned calls (k + 1) left := by
  obtain ⟨inherited, layers⟩ := owned.layers
  obtain ⟨around, left, outer, depth, behind, regroups⟩ := regroups_scan layers
  have counted := regroups.counted
  have fewer := outer.sublist.countP_le
    (p := fun kind => decide (kind ∈ Context.colonCall))
  have before := owned.counted
  refine ⟨left, ?_, ?_, ?_⟩
  · rw [next]
    exact layers_switched behind switches
  · exact regroups.entered depth behind.depth_eq.symm fun kind outer' here =>
      owned.entered kind outer' (here.trans outer)
  · rw [List.range_succ, List.countP_append, List.countP_append,
      List.countP_singleton, List.countP_singleton]
    simp only [decide_eq_true_eq] at counted ⊢
    omega

end Run

-- ================================================================ marks

/-- Call `i` leaves the construct that call `h` entered: both are at its
level, and no call between them is outside of it. -/
structure Matches (calls : Nat → Scanner) (h i : Nat) : Prop where
  earlier : h < i
  enters : (calls h).scan.2.depth = (calls h).dispatchDepth + 1
  leaves : (calls i).scan.2.depth + 1 = (calls i).dispatchDepth
  level : (calls h).scan.2.depth = (calls i).dispatchDepth
  stays : ∀ j, h < j → j < i →
    (calls h).scan.2.depth ≤ (calls j).dispatchDepth

variable {switches : Nat → List Bool} {h i j : Nat}

theorem owned_before
    (started : Scanner.start file mode source = .ok begun)
    (switches : Nat → List Bool) (k : Nat) :
    ∃ kinds, Owned (begun.before switches) k kinds := by
  induction k with
  | zero =>
      have ground : Layers (startContext mode ∩ Context.inherited) []
          begun.nesting.stack := by
        rw [nesting_start started]
        exact .ground (startContext_plain mode) rfl
      refine ⟨[], layers_switched ground (switches 0), ?_, Nat.le_refl _⟩
      intro kind outer here
      cases List.suffix_nil.1 here
  | succ k ih =>
      obtain ⟨kinds, owned⟩ := ih
      exact owned.next rfl

/-- Behind a call there are as many constructs as before the next, and
where the step of that begins there are no more. -/
theorem dispatchDepth_before_le
    (started : Scanner.start file mode source = .ok begun)
    (switches : Nat → List Bool) (k : Nat) :
    (begun.before switches (k + 1)).dispatchDepth
      ≤ (begun.before switches k).scan.2.depth := by
  obtain ⟨kinds, owned⟩ := owned_before started switches k
  obtain ⟨inherited, layers⟩ := owned.layers
  obtain ⟨-, left, -, -, behind, -⟩ := regroups_scan layers
  obtain ⟨inherited', switched⟩ := layers_switched behind (switches (k + 1))
  obtain ⟨around, -, outer, depth, -, -⟩ := regroups_scan switched
  have same : (begun.before switches k).scan.2.depth = left.length :=
    behind.depth_eq
  rw [same]
  show dispatchDepth (List.foldl _ _ _) ≤ _
  rw [← depth]
  exact outer.length_le

/-- No two calls leave the same construct: behind the first the place is
outside of it. -/
theorem Matches.not_lt
    (started : Scanner.start file mode source = .ok begun)
    (first : Matches (begun.before switches) h i)
    (second : Matches (begun.before switches) h j) : ¬ i < j := by
  intro later
  have out := dispatchDepth_before_le started switches i
  have within : (begun.before switches h).scan.2.depth
      ≤ (begun.before switches (i + 1)).dispatchDepth := by
    rcases Nat.lt_or_eq_of_le (Nat.succ_le_of_lt later) with before | rfl
    · exact second.stays _ (Nat.lt_succ_of_lt first.earlier) before
    · exact Nat.le_of_eq second.level
  have leaves := first.leaves
  rw [← first.level] at leaves
  omega

/-- A bracket with a colon ends what an earlier call opened by the brackets
of a rule or by a sigil before a colon, and no other ends the same. So up
to any place there are no more of the one than of the other. -/
theorem brackets_match (file : File) (mode : Mode) (source : List UInt8)
    (begun : Scanner) (switches : Nat → List Bool)
    (started : Scanner.start file mode source = .ok begun) :
    (∀ i, (begun.before switches i).scan.1.token = .rule .bracketColon →
        ∃ h, Matches (begun.before switches) h i
          ∧ (begun.before switches h).opensColons = true)
      ∧ (∀ h i j, Matches (begun.before switches) h i →
        Matches (begun.before switches) h j → i = j)
      ∧ ∀ n, (List.range n).countP (fun i =>
          (begun.before switches i).scan.1.token = .rule .bracketColon)
        ≤ (List.range n).countP fun i =>
          (begun.before switches i).opensColons := by
  refine ⟨fun i bracket => ?_, fun h i j first second => ?_, fun n => ?_⟩
  · obtain ⟨kinds, owned⟩ := owned_before started switches i
    obtain ⟨inherited, layers⟩ := owned.layers
    obtain ⟨around, left, outer, depth, behind, regroups⟩ :=
      regroups_scan layers
    cases regroups with
    | leave _ closes =>
        obtain ⟨kind, colon, rfl⟩ := closes bracket
        obtain ⟨h, entered⟩ := owned.entered kind left outer
        have level : left.length + 1
            = (begun.before switches i).dispatchDepth := depth
        refine ⟨h, ⟨entered.earlier, entered.enters, ?_, ?_, ?_⟩,
          entered.colons colon⟩
        · rw [← level, ← behind.depth_eq]
          rfl
        · rw [entered.level, level]
        · intro j later earlier
          rw [entered.level]
          exact entered.stays j later earlier
    | part _ other => exact absurd bracket other
    | enter _ other => exact absurd bracket other
  · exact Nat.le_antisymm (Nat.not_lt.1 (second.not_lt started first))
      (Nat.not_lt.1 (first.not_lt started second))
  · obtain ⟨kinds, owned⟩ := owned_before started switches n
    exact Nat.le_trans (Nat.le_add_right _ _) owned.counted

/-- Before `:[$:]:]:`. -/
def beforeBrackets : Scanner :=
  ofGlyphs (File.alone "" 8) {}
    (ofBytes [58, 91, 36, 58, 93, 58, 93, 58])

/-- The first mark ends the call, and the second the brackets around. -/
theorem brackets_match_call_in_brackets :
    (beforeBrackets.before (fun _ => []) 3).scan.1.token
        = .rule .bracketColon
      ∧ (∃ h, Matches (beforeBrackets.before fun _ => []) h 3
        ∧ (beforeBrackets.before (fun _ => []) h).opensColons = true)
      ∧ (beforeBrackets.before (fun _ => []) 4).scan.1.token
        = .rule .bracketColon
      ∧ ∃ h, Matches (beforeBrackets.before fun _ => []) h 4
        ∧ (beforeBrackets.before (fun _ => []) h).opensColons = true := by
  have started : Scanner.start (File.alone "" 8) {}
      [58, 91, 36, 58, 93, 58, 93, 58] = .ok beforeBrackets := rfl
  have ends := (brackets_match _ _ _ _ (fun _ => []) started).1
  have marks : (beforeBrackets.before (fun _ => []) 3).scan.1.token
        = .rule .bracketColon
      ∧ (beforeBrackets.before (fun _ => []) 4).scan.1.token
        = .rule .bracketColon := by
    decide +kernel
  exact ⟨marks.1, ends 3 marks.1, marks.2, ends 4 marks.2⟩

/-- Before `$:]:`. -/
def beforeCallEnd : Scanner :=
  ofGlyphs (File.alone "" 4) {} (ofBytes [36, 58, 93, 58])

/-- There a bracket with a colon ends a call, without any brackets of a
rule. -/
theorem not_brackets_match_openings_all :
    ¬ ∀ (file : File) (mode : Mode) (source : List UInt8)
        (begun : Scanner), Scanner.start file mode source = .ok begun →
      ∀ n, (List.range n).countP (fun i =>
          (begun.before (fun _ => []) i).scan.1.token = .rule .bracketColon)
        ≤ (List.range n).countP fun i =>
          (begun.before (fun _ => []) i).scan.1.token.opensBrackets := by
  intro h
  have fewer := h (File.alone "" 4) {} [36, 58, 93, 58] beforeCallEnd rfl 3
  exact absurd fewer (by decide +kernel)

end Scanner

end BuildLexer
