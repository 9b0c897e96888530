/-
What a merged tree holds.

The content of a tree are its messages at all depths, each with the
position of the tree that it is a part of. Merging without a limit is
meant to put two contents together, and does but for one thing. A tree
that is adopted takes the place of the parts that it carries, and
`Tree.carries` looks at the position of a part and at nothing in it. So
a message goes with a part that is dropped, unless the tree it is dropped
for has that message too.

What a merge drops can be told step by step (`dropsAll`), and this
accounts for the content (`content_merge`): nothing comes but what is
merged, and what is not there afterwards was lost with a part that was
dropped. A tree that finds a part at its position is merged into it, and
nothing is dropped for it.

There is also a condition that can be read off beforehand. The trees at
one position grow during a merge, but only by what was merged at that
position. So what a dropped part holds was held at its position from the
beginning, in the tree or among what is merged (`Fits`), and nothing is
lost where each tree that is merged holds all that is held at the
positions of its parts.
-/
import BuildLexer.Proofs.Merge.Recursion

namespace BuildLexer

-- ============================================================= content

namespace Diagnostic

mutual

/-- The messages in a diagnostic, each with the position of the tree that
it is a part of; a plain message is taken as a part of the holder. -/
def content (holder : Position) : Diagnostic → List (Position × String)
  | leaf m => [(holder, m)]
  | node p parts => contentAll p parts

/-- The messages in some parts of a holder. -/
def contentAll (holder : Position) :
    List Diagnostic → List (Position × String)
  | [] => []
  | d :: ds => content holder d ++ contentAll holder ds

end

/-- What some parts hold is what each of them holds. -/
theorem mem_contentAll {holder : Position} {e : Position × String}
    {ds : List Diagnostic} :
    e ∈ contentAll holder ds ↔ ∃ d ∈ ds, e ∈ d.content holder := by
  induction ds with
  | nil => simp [contentAll]
  | cons d ds ih => simp [contentAll, ih]

/-- What parts and more parts hold is what both do. -/
theorem contentAll_append (holder : Position) (a b : List Diagnostic) :
    contentAll holder (a ++ b)
      = contentAll holder a ++ contentAll holder b := by
  induction a with
  | nil => rfl
  | cons d a ih =>
      rw [List.cons_append, contentAll, ih, contentAll,
        List.append_assoc]

/-- The tree that a diagnostic is, if it is one. -/
def tree? : Diagnostic → Option Tree
  | leaf _ => none
  | node p parts => some ⟨p, parts⟩

/-- Only a node is a tree. -/
theorem tree?_eq_some_iff {d : Diagnostic} {t : Tree} :
    d.tree? = some t ↔ d = t.toDiagnostic := by
  cases d with
  | leaf m => exact iff_of_false nofun nofun
  | node p parts =>
      constructor
      · rintro ⟨⟩
        rfl
      · rintro same
        obtain ⟨rfl, rfl⟩ := node.inj same
        rfl

end Diagnostic

namespace Tree

open Diagnostic

/-- The messages in a tree, each with the position of the tree in it that
it is a part of. -/
def content (t : Tree) : List (Position × String) :=
  contentAll t.position t.parts

-- ====================================================== what is dropped

/-- A part that was dropped, and the tree it was dropped for. -/
structure Drop where
  part : Tree
  carrier : Tree
  deriving DecidableEq

/-- A message goes with a part that is dropped. -/
def Drop.Loses (x : Drop) (e : Position × String) : Prop :=
  e ∈ x.part.content ∧ e ∉ x.carrier.content

/-- What a tree drops when it adopts another. -/
def dropsFor (t new : Tree) : List Drop :=
  ((t.parts.filter (new.carries ·)).filterMap tree?).map (⟨·, new⟩)

mutual

/-- What is dropped when a diagnostic is merged into a tree without a
limit, first to last. -/
def drops : Diagnostic → Tree → List Drop
  | .leaf _, _ => []
  | .node p parts, t =>
    match t.find? p with
    | some i =>
      match t.get? [i] with
      | some u => dropsAll parts u
      | none => []
    | none => t.dropsFor ⟨p, parts⟩

/-- What is dropped when diagnostics are merged one after the other. -/
def dropsAll : List Diagnostic → Tree → List Drop
  | [], _ => []
  | d :: ds, t => drops d t ++ dropsAll ds (insert noLimit d t)

end

variable {t u : Tree} {d : Diagnostic} {ds a b : List Diagnostic}
  {x : Drop} {p : Position}

/-- What is dropped for a node is what was a part and is carried by it. -/
theorem mem_dropsFor :
    x ∈ t.dropsFor u ↔ x.part.toDiagnostic ∈ t.parts
      ∧ u.carries x.part.toDiagnostic = true ∧ x.carrier = u := by
  unfold dropsFor
  rw [List.mem_map]
  constructor
  · rintro ⟨v, hv, rfl⟩
    obtain ⟨d, hd, same⟩ := List.mem_filterMap.1 hv
    obtain rfl := tree?_eq_some_iff.1 same
    obtain ⟨part, carried⟩ := List.mem_filter.1 hd
    exact ⟨part, carried, rfl⟩
  · rintro ⟨part, carried, rfl⟩
    exact ⟨x.part, List.mem_filterMap.2 ⟨_,
      List.mem_filter.2 ⟨part, carried⟩, tree?_eq_some_iff.2 rfl⟩, rfl⟩

/-- For a tree that goes into a part nothing is dropped but in there. -/
theorem drops_of_find? (found : t.find? p = some a.length)
    (cut : t.parts = a ++ u.toDiagnostic :: b) (parts : List Diagnostic) :
    drops (.node p parts) t = dropsAll parts u := by
  rw [drops, found]
  dsimp only
  rw [get?_cons (getElem?_of_cut cut)]
  rfl

/-- Where nothing is found the tree is appended, and only the parts that it
carries are dropped. -/
theorem drops_of_find?_none (h : t.find? p = none)
    (parts : List Diagnostic) :
    drops (.node p parts) t = t.dropsFor ⟨p, parts⟩ := by
  rw [drops, h]

/-- If parts are only dropped for trees among each of some diagnostics
that carry them, so for all. -/
theorem carries_of_mem_dropsAll
    (each : ∀ d ∈ ds, ∀ t : Tree, ∀ x ∈ drops d t,
      x.carrier ∈ d.trees ∧ x.carrier.carries x.part.toDiagnostic = true)
    (t : Tree) :
    ∀ x ∈ dropsAll ds t, x.carrier ∈ treesAll ds
      ∧ x.carrier.carries x.part.toDiagnostic = true := by
  induction ds generalizing t with
  | nil =>
      intro x hx
      rw [dropsAll] at hx
      cases hx
  | cons d ds ih =>
      intro x hx
      rw [dropsAll, List.mem_append] at hx
      rw [treesAll, List.mem_append]
      rcases hx with first | later
      · obtain ⟨merged, carried⟩ := each d List.mem_cons_self t x first
        exact ⟨Or.inl merged, carried⟩
      · obtain ⟨merged, carried⟩ :=
          ih (fun e he => each e (List.mem_cons_of_mem d he)) _ x later
        exact ⟨Or.inr merged, carried⟩

/-- A part is only dropped for one of the trees that are merged, and only
if that tree carries it. -/
theorem carries_of_mem_drops (d : Diagnostic) :
    ∀ t : Tree, ∀ x ∈ drops d t,
      x.carrier ∈ d.trees ∧ x.carrier.carries x.part.toDiagnostic = true := by
  induction d using Diagnostic.induction with
  | leaf m =>
      intro t x hx
      rw [drops] at hx
      cases hx
  | node p parts ih =>
      intro t x hx
      cases hf : t.find? p with
      | none =>
          rw [drops_of_find?_none hf] at hx
          obtain ⟨-, carried, same⟩ := mem_dropsFor.1 hx
          rw [same]
          exact ⟨List.mem_cons_self, carried⟩
      | some i =>
          obtain ⟨a, b, u, cut, rfl, -, -⟩ := eq_append_of_find? hf
          rw [drops_of_find? hf cut] at hx
          obtain ⟨merged, carried⟩ := carries_of_mem_dropsAll ih u x hx
          exact ⟨List.mem_cons_of_mem _ merged, carried⟩

-- ========================================================== what is held

/-- At every position, the trees among some diagnostics hold nothing but
what is allowed there. -/
def Fits (allowed : Position → Position × String → Prop)
    (ds : List Diagnostic) : Prop :=
  ∀ t ∈ treesAll ds, ∀ e ∈ t.content, allowed t.position e

variable {allowed : Position → Position × String → Prop}
  {new : List (Position × String)} {dropped : List Drop}

/-- What merging does to the content of a tree, when some parts are
dropped on the way. -/
structure Accounts (allowed : Position → Position × String → Prop)
    (new : List (Position × String)) (dropped : List Drop) (t u : Tree) :
    Prop where
  position : u.position = t.position
  /-- The trees hold no more than is allowed, as before. -/
  fits : Fits allowed u.parts
  /-- Nor do those that were dropped. -/
  held : ∀ x ∈ dropped, ∀ e ∈ x.part.content, allowed x.part.position e
  /-- Nothing comes but what is new. -/
  comes : ∀ e ∈ u.content, e ∈ t.content ∨ e ∈ new
  /-- All that was there or is new is there, or goes with a part. -/
  stays : ∀ e, e ∈ t.content ∨ e ∈ new →
    e ∈ u.content ∨ ∃ x ∈ dropped, x.Loses e

/-- The trees in a part are among those in the parts. -/
theorem Fits.of_mem (h : Fits allowed ds) (hd : d ∈ ds) :
    Fits allowed [d] := by
  intro v hv
  obtain ⟨d', hd', there⟩ := mem_treesAll.1 hv
  obtain rfl := List.mem_singleton.1 hd'
  exact h v (mem_treesAll.2 ⟨d', hd, there⟩)

/-- What fits as a node fits part by part. -/
theorem Fits.parts (h : Fits allowed [u.toDiagnostic]) :
    Fits allowed u.parts := by
  intro v hv
  refine h v (mem_treesAll.2 ⟨_, List.mem_singleton.2 rfl, ?_⟩)
  exact mem_trees_toDiagnostic.2 (Or.inr hv)

/-- Parts and more parts fit if both do, -/
theorem fits_append :
    Fits allowed (a ++ b) ↔ Fits allowed a ∧ Fits allowed b := by
  unfold Fits
  rw [treesAll_append]
  exact List.forall_mem_append

/-- and the first and the others if it fits and they do. -/
theorem fits_cons : Fits allowed (d :: ds)
    ↔ Fits allowed [d] ∧ Fits allowed ds :=
  fits_append (a := [d])

/-- A tree fits if its own content does and its parts do. -/
theorem fits_toDiagnostic : Fits allowed [u.toDiagnostic]
    ↔ (∀ e ∈ u.content, allowed u.position e) ∧ Fits allowed u.parts := by
  have trees : treesAll [u.toDiagnostic] = u :: treesAll u.parts :=
    List.append_nil _
  unfold Fits
  rw [trees]
  exact List.forall_mem_cons

-- ========================================================= one insertion

/-- A message is added or is there already. -/
theorem accounts_addMessage (m : String) (ht : Fits allowed t.parts) :
    Accounts allowed [(t.position, m)] [] t (t.addMessage m) := by
  unfold addMessage
  split
  next known =>
    refine ⟨rfl, ht, nofun, fun e => Or.inl, fun e h => Or.inl ?_⟩
    refine h.elim id fun new => ?_
    obtain ⟨d, hd, same⟩ := List.any_eq_true.1 known
    cases d with
    | leaf m' =>
        obtain rfl := Option.some.inj (beq_iff_eq.1 same)
        exact mem_contentAll.2 ⟨_, hd, new⟩
    | node p parts => cases same
  next =>
    have both (e : Position × String) :
        e ∈ contentAll t.position (t.parts ++ [.leaf m])
          ↔ e ∈ t.content ∨ e ∈ [(t.position, m)] := by
      rw [contentAll_append, List.mem_append]
      exact Iff.rfl
    refine ⟨rfl, fits_append.2 ⟨ht, nofun⟩, nofun, fun e => (both e).1, ?_⟩
    exact fun e h => Or.inl ((both e).2 h)

/-- A tree that is adopted brings its content, and what goes for it goes
with the parts that it carries. -/
theorem accounts_adopt (hu : Fits allowed [u.toDiagnostic])
    (ht : Fits allowed t.parts) :
    Accounts allowed u.content (t.dropsFor u) t (t.adopt u) := by
  have both (e : Position × String) :
      e ∈ (t.adopt u).content
        ↔ e ∈ contentAll t.position (t.parts.filter (!u.carries ·))
          ∨ e ∈ u.content := by
    have alone : contentAll t.position [u.toDiagnostic] = u.content :=
      List.append_nil _
    rw [← alone, ← List.mem_append, ← contentAll_append]
    rfl
  refine { position := rfl, fits := ?fits, held := ?held,
           comes := ?comes, stays := ?stays }
  case fits =>
    refine fits_append.2 ⟨fun v hv => ?_, hu⟩
    obtain ⟨d, hd, there⟩ := mem_treesAll.1 hv
    exact ht v (mem_treesAll.2 ⟨d, (List.mem_filter.1 hd).1, there⟩)
  case held =>
    intro x hx
    obtain ⟨part, -, -⟩ := mem_dropsFor.1 hx
    exact ht x.part (mem_treesAll.2 ⟨_, part, List.mem_cons_self⟩)
  case comes =>
    intro e he
    refine ((both e).1 he).imp_left fun kept => ?_
    obtain ⟨d, hd, there⟩ := mem_contentAll.1 kept
    exact mem_contentAll.2 ⟨d, (List.mem_filter.1 hd).1, there⟩
  case stays =>
    intro e he
    by_cases inside : e ∈ u.content
    · exact Or.inl ((both e).2 (Or.inr inside))
    · -- it can only be in a part, and stays or goes with that part
      obtain ⟨d, hd, there⟩ := mem_contentAll.1 (he.resolve_right inside)
      by_cases carried : u.carries d = true
      · cases d with
        | leaf m => cases carried
        | node p parts =>
            exact Or.inr ⟨⟨⟨p, parts⟩, u⟩,
              mem_dropsFor.2 ⟨hd, carried, rfl⟩, there, inside⟩
      · refine Or.inl ((both e).2 (Or.inl (mem_contentAll.2
          ⟨d, List.mem_filter.2 ⟨hd, ?_⟩, there⟩)))
        rw [Bool.not_eq_true] at carried
        rw [carried]
        rfl

/-- What is new in a part is new in the tree, and what goes from it goes
from the tree. -/
theorem accounts_part {v : Tree}
    (cut : t.parts = a ++ u.toDiagnostic :: b) (ht : Fits allowed t.parts)
    (inside : Accounts allowed new dropped u v)
    (fresh : ∀ e ∈ new, allowed u.position e) :
    Accounts allowed new dropped t
      ⟨t.position, a ++ v.toDiagnostic :: b⟩ := by
  have held (w : Tree) (e : Position × String) :
      e ∈ contentAll t.position (a ++ w.toDiagnostic :: b)
        ↔ e ∈ w.content
          ∨ e ∈ contentAll t.position a ∨ e ∈ contentAll t.position b := by
    rw [contentAll_append, List.mem_append, contentAll, List.mem_append]
    exact or_left_comm
  have before (e : Position × String) :
      e ∈ t.content ↔ e ∈ u.content
        ∨ e ∈ contentAll t.position a ∨ e ∈ contentAll t.position b := by
    rw [← held u, ← cut]
    rfl
  rw [cut, fits_append, fits_cons, fits_toDiagnostic] at ht
  obtain ⟨left, ⟨known, -⟩, right⟩ := ht
  refine { position := rfl, fits := ?fits, held := inside.held,
           comes := fun e he => ?comes, stays := fun e he => ?stays }
  case fits =>
    refine fits_append.2 ⟨left, fits_cons.2 ⟨?_, right⟩⟩
    refine fits_toDiagnostic.2 ⟨fun e he => ?_, inside.fits⟩
    rw [inside.position]
    exact (inside.comes e he).elim (known e) (fresh e)
  case comes =>
    rw [before]
    rcases (held v e).1 he with there | others
    · exact (inside.comes e there).imp_left Or.inl
    · exact Or.inl (Or.inr others)
  case stays =>
    rw [before] at he
    have split : (e ∈ u.content ∨ e ∈ new)
        ∨ e ∈ contentAll t.position a ∨ e ∈ contentAll t.position b := by
      rcases he with (there | others) | new
      · exact Or.inl (Or.inl there)
      · exact Or.inr others
      · exact Or.inl (Or.inr new)
    rcases split with there | others
    · exact (inside.stays e there).imp_left fun kept =>
        (held v e).2 (Or.inl kept)
    · exact Or.inl ((held v e).2 (Or.inr others))

-- ========================================================= all insertions

/-- If merging each of some diagnostics can be accounted for, merging all
can. -/
theorem accounts_insertAll
    (each : ∀ d ∈ ds, ∀ t : Tree, Fits allowed t.parts →
      Accounts allowed (d.content t.position) (drops d t) t
        (insert noLimit d t))
    (ht : Fits allowed t.parts) :
    Accounts allowed (contentAll t.position ds) (dropsAll ds t) t
      (insertAll noLimit ds t) := by
  induction ds generalizing t with
  | nil =>
      rw [insertAll, dropsAll, contentAll]
      refine ⟨rfl, ht, List.forall_mem_nil _, fun e => Or.inl,
        fun e h => Or.inl ?_⟩
      exact h.resolve_right List.not_mem_nil
  | cons d ds ih =>
      have first := each d List.mem_cons_self t ht
      have later := ih (fun e he => each e (List.mem_cons_of_mem d he))
        first.fits
      rw [first.position] at later
      rw [insertAll, dropsAll, contentAll]
      refine { position := later.position.trans first.position
               fits := later.fits
               held := List.forall_mem_append.2 ⟨first.held, later.held⟩
               comes := fun e he => ?comes
               stays := fun e he => ?stays }
      case comes =>
        rw [List.mem_append, ← or_assoc]
        exact (later.comes e he).imp_left (first.comes e)
      case stays =>
        rw [List.mem_append, ← or_assoc] at he
        have between : (e ∈ (insert noLimit d t).content
              ∨ e ∈ contentAll t.position ds)
            ∨ ∃ x ∈ drops d t, x.Loses e := by
          rcases he with old | new
          · exact (first.stays e old).imp_left Or.inl
          · exact Or.inl (Or.inr new)
        rcases between with there | ⟨x, hx, lost⟩
        · refine (later.stays e there).imp_right ?_
          rintro ⟨x, hx, lost⟩
          exact ⟨x, List.mem_append_right _ hx, lost⟩
        · exact Or.inr ⟨x, List.mem_append_left _ hx, lost⟩

/-- Merging a diagnostic can be accounted for. -/
theorem accounts_insert (d : Diagnostic) :
    ∀ t : Tree, Fits allowed [d] → Fits allowed t.parts →
      Accounts allowed (d.content t.position) (drops d t) t
        (insert noLimit d t) := by
  induction d using Diagnostic.induction with
  | leaf m =>
      intro t _ ht
      rw [insert_leaf_noLimit, drops]
      exact accounts_addMessage m ht
  | node p parts ih =>
      intro t fits ht
      cases hf : t.find? p with
      | none =>
          have whole : insert noLimit (.node p parts) t
              = t.adopt ⟨p, parts⟩ := insert_of_find?_none hf parts
          rw [whole, drops_of_find?_none hf]
          exact accounts_adopt (u := ⟨p, parts⟩) fits ht
      | some i =>
          obtain ⟨a, b, u, cut, rfl, rfl, -⟩ := eq_append_of_find? hf
          rw [insert_noLimit_of_find? hf cut, drops_of_find? hf cut]
          have part : u.toDiagnostic ∈ t.parts := by
            rw [cut]
            exact List.mem_append_right a List.mem_cons_self
          obtain ⟨known, inner⟩ :=
            (fits_toDiagnostic (u := ⟨u.position, parts⟩)).1 fits
          refine accounts_part cut ht (accounts_insertAll ?_
            (ht.of_mem part).parts) known
          exact fun d hd t ht => ih d hd t (inner.of_mem hd) ht

-- =========================================================== whole merges

/-- Merging without a limit can be accounted for. -/
theorem accounts_merge (fits : Fits allowed (t.parts ++ ds)) :
    Accounts allowed (contentAll t.position ds) (dropsAll ds t) t
      (t.merge noLimit ds) := by
  obtain ⟨before, merged⟩ := fits_append.1 fits
  rw [merge_eq_insertAll]
  exact accounts_insertAll
    (fun d hd t => accounts_insert d t (merged.of_mem hd)) before

/-- Nothing comes into a tree but what is merged. What was there or is
merged is there afterwards, or went with a part that was dropped for a
tree without it. And where each tree that is merged holds all that is
held at the positions of its parts, nothing goes, and all that is merged
comes. -/
theorem content_merge (t : Tree) (ds : List Diagnostic) :
    (∀ e ∈ (t.merge noLimit ds).content,
        e ∈ t.content ∨ e ∈ contentAll t.position ds)
      ∧ (∀ e, e ∈ t.content ∨ e ∈ contentAll t.position ds →
          e ∈ (t.merge noLimit ds).content
            ∨ ∃ x ∈ dropsAll ds t, x.Loses e)
      ∧ ((∀ u ∈ treesAll ds, ∀ v ∈ treesAll (t.parts ++ ds),
          u.carries v.toDiagnostic = true →
            ∀ e ∈ v.content, e ∈ u.content) →
        ∀ e, e ∈ t.content ∨ e ∈ contentAll t.position ds →
          e ∈ (t.merge noLimit ds).content) := by
  -- What is held at a position, in the tree or among what is merged.
  let allowed (p : Position) (e : Position × String) : Prop :=
    ∃ v ∈ treesAll (t.parts ++ ds), v.position = p ∧ e ∈ v.content
  have account : Accounts allowed (contentAll t.position ds)
      (dropsAll ds t) t (t.merge noLimit ds) :=
    accounts_merge fun v hv e he => ⟨v, hv, rfl, he⟩
  refine ⟨account.comes, account.stays, fun holds e he => ?_⟩
  refine (account.stays e he).resolve_right ?_
  rintro ⟨x, hx, inPart, lost⟩
  obtain ⟨merged, carried⟩ :=
    carries_of_mem_dropsAll (fun d _ => carries_of_mem_drops d) t x hx
  obtain ⟨v, hv, same, there⟩ := account.held x hx e inPart
  have carries : x.carrier.carries v.toDiagnostic
      = x.carrier.carries x.part.toDiagnostic :=
    carries_congr (congrArg some same)
  exact lost (holds _ merged v hv (carries.trans carried) e there)

/-- A tree with two parts, the first of which is at the position of a
part of `wider`. -/
def narrow : Tree where
  position := ⟨"a", 0, 1, 1⟩
  parts := [.node ⟨"c", 0, 1, 1⟩ [.leaf "x"], .node ⟨"d", 0, 1, 1⟩ []]

/-- A tree to be merged, with a part that holds a given message. -/
def wider (message : String) : Tree where
  position := ⟨"b", 0, 1, 1⟩
  parts := [.leaf "z", .node ⟨"c", 0, 1, 1⟩ [.leaf "y", .leaf message]]

/-- A tree that holds a message two positions down. -/
def deep (message : String) : Tree where
  position := ⟨"a", 0, 1, 1⟩
  parts := [.node ⟨"b", 0, 1, 1⟩ [.node ⟨"c", 0, 1, 1⟩ [.leaf message]]]

/-- A part is dropped for a tree that holds its message too. And nothing
is dropped where each tree finds a part at its position, whatever the two
hold. -/
theorem content_merge_wider :
    (∀ u ∈ treesAll [(wider "x").toDiagnostic],
        ∀ v ∈ treesAll (narrow.parts ++ [(wider "x").toDiagnostic]),
          u.carries v.toDiagnostic = true →
            ∀ e ∈ v.content, e ∈ u.content)
      ∧ (dropsAll [(wider "x").toDiagnostic] narrow).length = 1
      ∧ (∀ e, e ∈ (narrow.merge noLimit [(wider "x").toDiagnostic]).content
        ↔ e ∈ narrow.content
          ∨ e ∈ contentAll narrow.position [(wider "x").toDiagnostic])
      ∧ dropsAll (deep "y").parts (deep "x") = []
      ∧ ∀ e, e ∈ ((deep "x").merge noLimit (deep "y").parts).content
        ↔ e ∈ (deep "x").content
          ∨ e ∈ contentAll (deep "x").position (deep "y").parts := by
  have holds : ∀ u ∈ treesAll [(wider "x").toDiagnostic],
      ∀ v ∈ treesAll (narrow.parts ++ [(wider "x").toDiagnostic]),
        u.carries v.toDiagnostic = true →
          ∀ e ∈ v.content, e ∈ u.content := by
    decide +kernel
  have nothing : dropsAll (deep "y").parts (deep "x") = [] := by
    decide +kernel
  obtain ⟨comes, -, stays⟩ := content_merge narrow [(wider "x").toDiagnostic]
  obtain ⟨comesDeep, goes, -⟩ := content_merge (deep "x") (deep "y").parts
  refine ⟨holds, by decide +kernel, fun e => ⟨comes e, stays holds e⟩,
    nothing, fun e => ⟨comesDeep e, fun h => ?_⟩⟩
  refine (goes e h).resolve_right ?_
  rw [nothing]
  exact nofun

/-- A part is dropped for a tree that does not hold its message. -/
theorem not_content_merge_all :
    ¬ ∀ (t : Tree) (ds : List Diagnostic) (e : Position × String),
      e ∈ (t.merge noLimit ds).content
        ↔ e ∈ t.content ∨ e ∈ contentAll t.position ds := by
  intro h
  have lost := h narrow [(wider "w").toDiagnostic] (⟨"c", 0, 1, 1⟩, "x")
  rw [merge_eq_insertAll] at lost
  revert lost
  decide +kernel

end Tree

end BuildLexer
