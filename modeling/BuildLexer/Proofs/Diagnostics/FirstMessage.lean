/-
Which message of a tree is its first.

Read from left to right, with the parts of a tree in the place of the
tree, messages come in the order in which the tree in words shows them
(`Tree.content`). The first message of a tree is not always the first of
these: in each tree the plain messages are looked at before the trees.

The two meet on the way to the message that comes first from left to
right, which is the list of the trees it is in. The last of these holds
it, and no other plain message before it. So the message that comes first
is the plain message of the last tree on the way, and the first message
is that of the first tree on the way that has any
(`firstMessage_eq_findSome?`, `content_head_eq_getLast?`). They are one
exactly when the plain messages on the way begin and end alike.
-/
import BuildLexer.Proofs.Diagnostics.Words

namespace BuildLexer

namespace Tree

/-- The first plain message among the parts. -/
def ownMessage (t : Tree) : Option String := Diagnostic.firstLeaf t.parts

end Tree

namespace Diagnostic

-- ============================================================== the way

mutual

/-- The trees that the first message from left to right is in, outermost
first, if there is a message. -/
def way? : Diagnostic → Option (List Tree)
  | leaf _ => some []
  | node p parts => (wayAmong? parts).map (⟨p, parts⟩ :: ·)

/-- The way to the first message of some diagnostics. -/
def wayAmong? : List Diagnostic → Option (List Tree)
  | [] => none
  | d :: ds => (way? d).or (wayAmong? ds)

end

variable {p holder : Position} {d : Diagnostic} {ds parts : List Diagnostic}
  {way : List Tree}

theorem wayAmong?_eq_findSome? (ds : List Diagnostic) :
    wayAmong? ds = ds.findSome? way? := by
  induction ds with
  | nil => rfl
  | cons d ds ih =>
      rw [wayAmong?, ih, List.findSome?_cons]
      cases way? d <;> rfl

/-- The way in a tree goes on in the first part that has a message. -/
theorem way?_node_eq_some (h : way? (node p parts) = some way) :
    ∃ before d after inner, parts = before ++ d :: after
      ∧ way = ⟨p, parts⟩ :: inner ∧ way? d = some inner
      ∧ ∀ e ∈ before, way? e = none := by
  rw [way?, wayAmong?_eq_findSome?, Option.map_eq_some_iff] at h
  obtain ⟨inner, found, rfl⟩ := h
  obtain ⟨before, d, after, cut, there, silent⟩ :=
    List.findSome?_eq_some_iff.1 found
  exact ⟨before, d, after, inner, cut, rfl, there, silent⟩

-- ============================================================== silence

theorem firstLeaf_eq_none_iff :
    firstLeaf ds = none ↔ ∀ d ∈ ds, d.message? = none :=
  List.findSome?_eq_none_iff

/-- Among trees alone the first message is that of the first tree that
has one. -/
theorem firstInNodes_eq_findSome? (trees : firstLeaf ds = none) :
    firstInNodes ds = ds.findSome? firstMessage := by
  rw [firstLeaf_eq_none_iff] at trees
  induction ds with
  | nil => rfl
  | cons d ds ih =>
      have later := ih fun e he => trees e (List.mem_cons_of_mem d he)
      cases d with
      | leaf m => cases trees (leaf m) List.mem_cons_self
      | node p parts =>
          rw [firstInNodes, later, List.findSome?_cons]
          cases (node p parts).firstMessage <;> rfl

theorem firstMessage_node_eq_none_iff :
    (node p parts).firstMessage = none
      ↔ ∀ d ∈ parts, d.firstMessage = none := by
  rw [firstMessage, Option.or_eq_none_iff]
  constructor
  · rintro ⟨plain, others⟩
    rw [firstInNodes_eq_findSome? plain] at others
    exact List.findSome?_eq_none_iff.1 others
  · intro silent
    have plain : firstLeaf parts = none := by
      refine firstLeaf_eq_none_iff.2 fun d hd => ?_
      cases d with
      | leaf m => cases silent (leaf m) hd
      | node q inner => rfl
    rw [firstInNodes_eq_findSome? plain]
    exact ⟨plain, List.findSome?_eq_none_iff.2 silent⟩

theorem way?_node_eq_none_iff :
    (node p parts).way? = none ↔ ∀ d ∈ parts, d.way? = none := by
  rw [way?, wayAmong?_eq_findSome?, Option.map_eq_none_iff,
    List.findSome?_eq_none_iff]

/-- To be silent is to have no message, if no message is silent and a
tree is when all of its parts are. -/
theorem silent_iff (silent : Diagnostic → Prop)
    (message : ∀ m, ¬ silent (leaf m))
    (tree : ∀ p parts, silent (node p parts) ↔ ∀ d ∈ parts, silent d)
    (d : Diagnostic) : ∀ holder, silent d ↔ d.content holder = [] := by
  induction d using Diagnostic.induction with
  | leaf m => exact fun holder => iff_of_false (message m) nofun
  | node p parts ih =>
      intro holder
      rw [tree, content, contentAll_eq_flatMap, List.flatMap_eq_nil_iff]
      exact forall₂_congr fun d hd => ih d hd p

/-- There is a way exactly when there is a message. -/
theorem way?_eq_none_iff (d : Diagnostic) (holder : Position) :
    d.way? = none ↔ d.content holder = [] := by
  refine silent_iff (way? · = none) (fun m => ?_)
    (fun p parts => way?_node_eq_none_iff) d holder
  exact Option.some_ne_none []

/-- There is a first message exactly when there is a message. -/
theorem firstMessage_eq_none_iff (d : Diagnostic) (holder : Position) :
    d.firstMessage = none ↔ d.content holder = [] := by
  refine silent_iff (firstMessage · = none) (fun m => ?_)
    (fun p parts => firstMessage_node_eq_none_iff) d holder
  exact Option.some_ne_none m

theorem firstMessage_eq_none_of_way? (h : d.way? = none) :
    d.firstMessage = none :=
  (firstMessage_eq_none_iff d Position.unknown).2
    ((way?_eq_none_iff d Position.unknown).1 h)

-- ======================================================= along the way

/-- Where no part is a plain message, the first message is that of the
first part that has any. -/
theorem firstMessage_of_no_leaf {before after : List Diagnostic}
    (plain : firstLeaf parts = none) (cut : parts = before ++ d :: after)
    (silent : ∀ e ∈ before, e.firstMessage = none)
    (speaks : d.firstMessage ≠ none) :
    (node p parts).firstMessage = d.firstMessage := by
  have quiet : before.findSome? firstMessage = none :=
    List.findSome?_eq_none_iff.2 silent
  rw [firstMessage, plain, Option.none_or, firstInNodes_eq_findSome? plain,
    cut, List.findSome?_append, quiet, Option.none_or, List.findSome?_cons]
  cases h : d.firstMessage with
  | none => exact absurd h speaks
  | some m => rfl

/-- The first message is the plain message of the first tree on the way
that has one. -/
theorem firstMessage_of_way? (d : Diagnostic) :
    ∀ way, d.way? = some way →
      d.firstMessage = d.message?.or (way.findSome? Tree.ownMessage) := by
  induction d using Diagnostic.induction with
  | leaf m => exact fun way _ => rfl
  | node p parts ih =>
      intro way h
      obtain ⟨before, d, after, inner, cut, rfl, there, silent⟩ :=
        way?_node_eq_some h
      have member : d ∈ parts :=
        cut ▸ List.mem_append_right before List.mem_cons_self
      rw [List.findSome?_cons]
      cases plain : firstLeaf parts with
      | some m =>
          have own : (⟨p, parts⟩ : Tree).ownMessage = some m := plain
          rw [firstMessage, plain, own]
          rfl
      | none =>
          have own : (⟨p, parts⟩ : Tree).ownMessage = none := plain
          have speaks : d.firstMessage ≠ none := by
            rw [Ne, firstMessage_eq_none_iff d p, ← way?_eq_none_iff d p,
              there]
            exact Option.some_ne_none inner
          rw [firstMessage_of_no_leaf plain cut
            (fun e he => firstMessage_eq_none_of_way? (silent e he)) speaks,
            ih d member inner there, firstLeaf_eq_none_iff.1 plain d member,
            own]
          rfl

/-- Where a part is met that has a message, the first in the tree is the
first in that part. -/
theorem head?_content_node {before after : List Diagnostic}
    (cut : parts = before ++ d :: after)
    (silent : ∀ e ∈ before, e.content p = [])
    (speaks : d.content p ≠ []) :
    ((node p parts).content holder).head? = (d.content p).head? := by
  rw [content, contentAll_eq_flatMap, cut, List.flatMap_append,
    List.flatMap_eq_nil_iff.2 silent, List.nil_append, List.flatMap_cons,
    List.head?_append_of_ne_nil _ speaks]

/-- What is first on the way before does not change what is last. -/
theorem getLast?_filterMap_cons (t : Tree)
    (some : way.filterMap Tree.ownMessage ≠ []) :
    ((t :: way).filterMap Tree.ownMessage).getLast?
      = (way.filterMap Tree.ownMessage).getLast? := by
  rw [List.filterMap_cons]
  cases t.ownMessage with
  | none => rfl
  | some m => exact List.getLast?_cons_of_ne_nil some

/-- The first message from left to right is the plain message of the last
tree on the way. -/
theorem head?_content_of_way? (d : Diagnostic) :
    ∀ holder way, d.way? = some way →
      (d.content holder).head?.map Prod.snd
        = (way.filterMap Tree.ownMessage).getLast?.or d.message? := by
  induction d using Diagnostic.induction with
  | leaf m =>
      rintro holder way ⟨⟩
      rfl
  | node p parts ih =>
      intro holder way h
      obtain ⟨before, d, after, inner, cut, rfl, there, silent⟩ :=
        way?_node_eq_some h
      have member : d ∈ parts :=
        cut ▸ List.mem_append_right before List.mem_cons_self
      have speaks : d.content p ≠ [] := by
        rw [Ne, ← way?_eq_none_iff d p, there]
        exact Option.some_ne_none inner
      have inside := ih d member p inner there
      rw [head?_content_node cut
        (fun e he => (way?_eq_none_iff e p).1 (silent e he)) speaks, inside]
      cases d with
      | leaf m =>
          obtain rfl := Option.some.inj there
          have before_plain : firstLeaf before = none := by
            refine firstLeaf_eq_none_iff.2 fun e he => ?_
            cases e with
            | leaf m => cases silent _ he
            | node q others => rfl
          have own : (⟨p, parts⟩ : Tree).ownMessage = some m := by
            show parts.findSome? message? = some m
            rw [cut, List.findSome?_append]
            exact congrArg (Option.or · (some m)) before_plain
          rw [List.filterMap_cons, own]
          rfl
      | node q others =>
          have told : inner.filterMap Tree.ownMessage ≠ [] := by
            intro none
            rw [none, List.getLast?_nil] at inside
            have := List.head?_eq_none_iff.1
              (Option.map_eq_none_iff.1 inside)
            exact speaks this
          rw [getLast?_filterMap_cons _ told]
          rfl

-- ============================================================ the search

/-- The trees among some diagnostics. -/
def nodes (ds : List Diagnostic) : List Tree :=
  ds.filterMap fun
    | leaf _ => none
    | node p parts => some ⟨p, parts⟩

/-- The sizes of some trees. -/
def sizes : List Tree → Nat
  | [] => 0
  | t :: stack => t.toDiagnostic.size + sizes stack

theorem sizes_nodes_append_le (ds : List Diagnostic) (stack : List Tree) :
    sizes (nodes ds ++ stack) ≤ totalSize ds + sizes stack := by
  induction ds with
  | nil => exact Nat.le_add_left _ _
  | cons d ds ih =>
      rw [totalSize]
      cases d with
      | leaf m =>
          refine Nat.le_trans ih ?_
          omega
      | node p parts =>
          have first : sizes (nodes (node p parts :: ds) ++ stack)
              = (node p parts).size + sizes (nodes ds ++ stack) := rfl
          omega

/-- The first message by a stack of trees: the tree on top is asked for a
plain message, and if it has none its trees take its place, the first on
top. -/
def search : List Tree → Option String
  | [] => none
  | t :: stack => t.ownMessage.or (search (nodes t.parts ++ stack))
termination_by stack => sizes stack
decreasing_by
  have smaller := sizes_nodes_append_le t.parts stack
  have whole : sizes (t :: stack)
      = totalSize t.parts + 1 + sizes stack := rfl
  omega

/-- If each of some trees is searched before what is under it, so are all
of them. -/
theorem search_nodes_append
    (each : ∀ d ∈ ds, ∀ (t : Tree) (stack : List Tree),
      t.toDiagnostic = d →
        search (t :: stack) = d.firstMessage.or (search stack))
    (stack : List Tree) :
    search (nodes ds ++ stack) = (firstInNodes ds).or (search stack) := by
  induction ds with
  | nil => rfl
  | cons d ds ih =>
      have later := ih fun e he => each e (List.mem_cons_of_mem d he)
      cases d with
      | leaf m => exact later
      | node p parts =>
          have first := each _ List.mem_cons_self ⟨p, parts⟩
            (nodes ds ++ stack) rfl
          rw [firstInNodes, Option.or_assoc, ← later, ← first]
          rfl

/-- A tree is searched, with all that is in it, before what is under
it. -/
theorem search_cons (d : Diagnostic) :
    ∀ (t : Tree) (stack : List Tree), t.toDiagnostic = d →
      search (t :: stack) = d.firstMessage.or (search stack) := by
  induction d using Diagnostic.induction with
  | leaf m => exact fun t stack same => nomatch same
  | node p parts ih =>
      rintro ⟨_, _⟩ stack ⟨⟩
      rw [search, search_nodes_append ih, firstMessage, Option.or_assoc]
      rfl

end Diagnostic

namespace Tree

open Diagnostic

/-- The trees that the first message from left to right is in, outermost
first. -/
def way (t : Tree) : List Tree := t.toDiagnostic.way?.getD []

/-- The first plain messages of the trees on the way. -/
def saidOnWay (t : Tree) : List String := t.way.filterMap ownMessage

/-- The message that a tree in words shows first. -/
def firstShown (t : Tree) : Option String :=
  (t.remarks.findSome? Remark.message?).map Prod.snd

variable {t : Tree}

theorem firstMessage_eq_search (t : Tree) :
    t.firstMessage = search [t] := by
  rw [search_cons _ t [] rfl, search, Option.or_none]
  rfl

/-- The first message is the first that is said on the way. -/
theorem firstMessage_eq_head? (t : Tree) :
    t.firstMessage = t.saidOnWay.head? := by
  unfold firstMessage saidOnWay way
  rw [List.head?_filterMap]
  cases h : t.toDiagnostic.way? with
  | none => exact firstMessage_eq_none_of_way? h
  | some way => exact firstMessage_of_way? _ way h

/-- The first message from left to right is the last that is said on the
way. -/
theorem head?_content_eq_getLast? (t : Tree) :
    t.content.head?.map Prod.snd = t.saidOnWay.getLast? := by
  unfold saidOnWay way
  cases h : t.toDiagnostic.way? with
  | none =>
      have silent : t.content = [] :=
        (way?_eq_none_iff _ Position.unknown).1 h
      rw [silent]
      rfl
  | some way =>
      have last := head?_content_of_way? _ Position.unknown way h
      exact last.trans (Option.or_none)

/-- What a tree in words shows first is the first message from left to
right. -/
theorem firstShown_eq (t : Tree) :
    t.firstShown = t.content.head?.map Prod.snd := by
  have messages : t.remarks.filterMap Remark.message? = t.content :=
    filterMap_message_remarks _ _
  rw [firstShown, ← messages, List.head?_filterMap]

/-- Where nothing is said on the way before, one message is said at
most. -/
theorem saidOnWay_of_silent
    (silent : ∀ u ∈ t.way.dropLast, u.ownMessage = none) :
    t.saidOnWay.head? = t.saidOnWay.getLast? := by
  unfold saidOnWay
  rcases t.way.eq_nil_or_concat' with none | ⟨before, last, cut⟩
  · rw [none]
    rfl
  · rw [cut, List.dropLast_concat] at silent
    rw [cut, List.filterMap_append, List.filterMap_eq_nil_iff.2 silent,
      List.nil_append, List.filterMap_cons]
    cases last.ownMessage <;> rfl

/-- The first message is what a search with a stack of trees finds, and
it is missing exactly when there is no message at any depth. It is the
first that is said on the way to the message that comes first from left
to right and in words; so it is that message exactly when what is said on
the way begins as it ends, and for one when nothing is said on the way
before. -/
theorem firstMessage_eq_firstShown_iff (t : Tree) :
    t.firstMessage = search [t]
      ∧ (t.firstMessage = none ↔ t.content = [])
      ∧ t.firstShown = t.content.head?.map Prod.snd
      ∧ t.firstMessage = t.saidOnWay.head?
      ∧ (t.firstMessage = t.firstShown
        ↔ t.saidOnWay.head? = t.saidOnWay.getLast?)
      ∧ ((∀ u ∈ t.way.dropLast, u.ownMessage = none) →
        t.firstMessage = t.firstShown) := by
  have begins := t.firstMessage_eq_head?
  have ends := t.firstShown_eq.trans t.head?_content_eq_getLast?
  have same : t.firstMessage = t.firstShown
      ↔ t.saidOnWay.head? = t.saidOnWay.getLast? := by
    rw [begins, ends]
  exact ⟨t.firstMessage_eq_search,
    firstMessage_eq_none_iff t.toDiagnostic t.position, t.firstShown_eq,
    begins, same, fun silent => same.2 (saidOnWay_of_silent silent)⟩

/-- A tree without messages stands before the way, and other messages
behind it. -/
def twoWays : Tree where
  position := ⟨"BUILD", 0, 1, 1⟩
  parts := [.node ⟨"BUILD", 9, 2, 1⟩ [],
    .node ⟨"rules", 4, 1, 5⟩ [.leaf "x", .node ⟨"rules", 0, 1, 1⟩ []],
    .node ⟨"BUILD", 9, 2, 1⟩ [.leaf "y"]]

theorem firstMessage_eq_firstShown_twoWays :
    (∀ u ∈ twoWays.way.dropLast, u.ownMessage = none)
      ∧ twoWays.way.length = 2
      ∧ twoWays.firstMessage = twoWays.firstShown
      ∧ twoWays.firstShown = some "x" := by
  have silent : ∀ u ∈ twoWays.way.dropLast, u.ownMessage = none := by
    decide +kernel
  exact ⟨silent, by decide +kernel,
    (firstMessage_eq_firstShown_iff twoWays).2.2.2.2.2 silent,
    by decide +kernel⟩

/-- A plain message behind a tree with a message is the first message. -/
theorem not_firstMessage_eq_first_all :
    ¬ ∀ t : Tree, t.firstMessage = t.content.head?.map Prod.snd := by
  intro h
  have first := h ⟨⟨"a", 0, 1, 1⟩,
    [.node ⟨"b", 0, 1, 1⟩ [.leaf "x"], .leaf "y"]⟩
  revert first
  decide +kernel

end Tree

end BuildLexer
