/-
What a tree says in words, remark by remark.

The words of a tree are remarks that stand one below the other: a message
behind the position of the tree that holds it, the position of a tree
without parts, or where the remarks above were reached from. `outline`
lists what a tree holds, from left to right, and nothing else; `remarks`
is the same with the origins among it. The words are the remarks one
below the other (`renderPart_eq_join`), and without the origins they are
the outline (`filter_remarks`).

The texts of parts are joined before an origin is put behind them. That
they can be joined all at once rests on no part being without a remark,
as a separator would stand beside nothing otherwise (`remarks_ne_nil`).
-/
import BuildLexer.Diagnostic.Render
import BuildLexer.Proofs.Merge.Content
import Mathlib.Data.List.Basic

namespace BuildLexer

-- ============================================================= remarks

/-- What a tree in words is made of. -/
inductive Remark where
  /-- A message, and the position of the tree that it is a part of. -/
  | message (holder : Position) (text : String)
  /-- The position of a tree without parts. -/
  | bare (place : Position)
  /-- The position that the remarks above were reached from. -/
  | origin (place : Position)
  deriving DecidableEq

namespace Remark

/-- A remark as it is written. -/
def text : Remark → String
  | message p m =>
    if p.line = 0 ∧ p.filename = "" then m else p.render ++ ": " ++ m
  | bare p => p.render
  | origin p => p.render ++ ": ...from here"

/-- Remarks one below the other. -/
def join (remarks : List Remark) : String :=
  "\n".intercalate (remarks.map text)

/-- Whether a remark says where others were reached from. -/
def isOrigin : Remark → Bool
  | origin _ => true
  | _ => false

/-- The message of a remark, with its position. -/
def message? : Remark → Option (Position × String)
  | message p m => some (p, m)
  | _ => none

/-- The position of a tree without parts. -/
def bare? : Remark → Option Position
  | bare p => some p
  | _ => none

variable {a b : List Remark}

/-- Two pages of remarks are joined by a line break between them. -/
theorem join_append (ha : a ≠ []) (hb : b ≠ []) :
    join (a ++ b) = join a ++ "\n" ++ join b := by
  unfold join
  rw [List.map_append]
  exact String.intercalate_append_of_ne_nil
    (mt List.map_eq_nil_iff.1 ha) (mt List.map_eq_nil_iff.1 hb)

/-- One remark is its own text. -/
theorem join_singleton (r : Remark) : join [r] = r.text :=
  String.intercalate_singleton

end Remark

namespace Diagnostic

open Remark

-- ======================================================== what is shown

/-- What stands behind the remarks on the parts of a tree at a position:
behind those on a single part that is a tree the position, when that is
another and has a line; behind those on several parts the position, when
it has both a line and a name. -/
def origins (p : Position) : List Diagnostic → List Remark
  | [] => []
  | [part] =>
    if p.line ≠ 0 ∧ ∃ q ∈ part.position?, q ≠ p then [.origin p] else []
  | _ => if p.line ≠ 0 ∧ p.filename ≠ "" then [.origin p] else []

mutual

/-- What a part of a holder holds, from left to right: its messages, each
with the position of the tree that it is a part of, and the positions of
the trees without parts. -/
def outline (holder : Position) : Diagnostic → List Remark
  | leaf m => [.message holder m]
  | node p parts =>
    if parts.isEmpty then [.bare p] else outlineAll p parts

/-- What some parts of a holder hold. -/
def outlineAll (holder : Position) : List Diagnostic → List Remark
  | [] => []
  | d :: ds => outline holder d ++ outlineAll holder ds

end

mutual

/-- The remarks on a part of a holder. -/
def remarks (holder : Position) : Diagnostic → List Remark
  | leaf m => [.message holder m]
  | node p parts =>
    if parts.isEmpty then [.bare p]
    else remarksAll p parts ++ origins p parts

/-- The remarks on some parts of a holder. -/
def remarksAll (holder : Position) : List Diagnostic → List Remark
  | [] => []
  | d :: ds => remarks holder d ++ remarksAll holder ds

end

variable {p : Position} {d : Diagnostic} {ds : List Diagnostic}

/-- What is listed for each of some diagnostics, one after the other. -/
theorem eq_flatMap {α : Type} {one : Diagnostic → List α}
    {all : List Diagnostic → List α} (none : all [] = [])
    (more : ∀ d ds, all (d :: ds) = one d ++ all ds)
    (ds : List Diagnostic) : all ds = ds.flatMap one := by
  induction ds with
  | nil => exact none
  | cons d ds ih => rw [more, ih, List.flatMap_cons]

/-- The outline of parts is that of each, in order. -/
theorem outlineAll_eq_flatMap (holder : Position) (ds : List Diagnostic) :
    outlineAll holder ds = ds.flatMap (outline holder) :=
  eq_flatMap rfl (fun _ _ => rfl) ds

/-- So are the remarks on parts, -/
theorem remarksAll_eq_flatMap (holder : Position) (ds : List Diagnostic) :
    remarksAll holder ds = ds.flatMap (remarks holder) :=
  eq_flatMap rfl (fun _ _ => rfl) ds

/-- and what parts hold, -/
theorem contentAll_eq_flatMap (holder : Position) (ds : List Diagnostic) :
    contentAll holder ds = ds.flatMap (content holder) :=
  eq_flatMap rfl (fun _ _ => rfl) ds

/-- and the trees among them. -/
theorem treesAll_eq_flatMap (ds : List Diagnostic) :
    treesAll ds = ds.flatMap trees :=
  eq_flatMap rfl (fun _ _ => rfl) ds

/-- A tree with parts is outlined by its parts, at its own position. -/
theorem outline_of_parts (holder p : Position) (h : ds ≠ []) :
    outline holder (node p ds) = ds.flatMap (outline p) := by
  rw [outline, ← outlineAll_eq_flatMap]
  exact if_neg (mt List.isEmpty_iff.1 h)

/-- The remarks on a tree with parts are those on the parts, and then the
origin of the tree if it is told. -/
theorem remarks_of_parts (holder p : Position) (h : ds ≠ []) :
    remarks holder (node p ds)
      = ds.flatMap (remarks p) ++ origins p ds := by
  rw [remarks, ← remarksAll_eq_flatMap]
  exact if_neg (mt List.isEmpty_iff.1 h)

-- ====================================================== the same words

/-- There is a remark on every part. -/
theorem remarks_ne_nil (d : Diagnostic) :
    ∀ holder, remarks holder d ≠ [] := by
  induction d using Diagnostic.induction with
  | leaf m => exact fun holder => List.cons_ne_nil _ _
  | node p parts ih =>
      intro holder
      cases parts with
      | nil => exact List.cons_ne_nil _ _
      | cons first others =>
          have some := ih first List.mem_cons_self p
          rw [remarks_of_parts _ _ (List.cons_ne_nil _ _),
            List.flatMap_cons, List.append_assoc]
          exact List.append_ne_nil_of_left_ne_nil some _

/-- A position is written in front of a message when there is anything to
write. -/
theorem labelled_eq (p : Position) (m : String) :
    labelled p m = (Remark.message p m).text := by
  unfold labelled Remark.text
  dsimp only
  by_cases nothing : p.line = 0 ∧ p.filename = ""
  · have silent : ¬ (p.isValid || !p.filename.isEmpty) = true := by
      simp [Position.isValid, nothing.1, nothing.2]
    rw [if_pos nothing, if_neg silent]
  · have known : (p.isValid || !p.filename.isEmpty) = true := by
      rcases Decidable.not_and_iff_or_not.1 nothing with line | name
      · simp [Position.isValid, line]
      · simp [Position.isValid, name]
    rw [if_neg nothing, if_pos known]

/-- An origin behind some remarks is on a line of its own. -/
theorem join_append_origin {a : List Remark} (ha : a ≠ [])
    (p : Position) (told : Prop) [Decidable told] :
    join (a ++ if told then [.origin p] else [])
      = if told then join a ++ fromHere p else join a := by
  split
  · rw [join_append ha (List.cons_ne_nil _ _), join_singleton, fromHere,
      Remark.text]
    simp only [String.append_assoc]
  · rw [List.append_nil]

/-- An origin is told where it has a line and the part is at another
position. -/
theorem tellsOrigin_iff (p : Position) (part : Diagnostic) :
    tellsOrigin p part = true
      ↔ p.line ≠ 0 ∧ ∃ q ∈ part.position?, q ≠ p := by
  unfold tellsOrigin Position.isValid
  rw [Bool.and_eq_true, Option.any_eq_true, bne_iff_ne, and_comm]
  simp only [bne_iff_ne, Option.mem_def]

/-- A position is put before a message if it has a line and a file. -/
theorem known_iff (p : Position) :
    (p.isValid && !p.filename.isEmpty) = true
      ↔ p.line ≠ 0 ∧ p.filename ≠ "" := by
  simp [Position.isValid]

/-- The texts of parts one below the other, when those are the words of
the remarks on them. -/
theorem intercalate_renderParts
    (each : ∀ d ∈ ds, renderPart p d = join (remarks p d)) :
    "\n".intercalate (renderParts p ds)
      = join (ds.flatMap (remarks p)) := by
  induction ds with
  | nil => rfl
  | cons d ds ih =>
      have first := each d List.mem_cons_self
      have later := ih fun e he => each e (List.mem_cons_of_mem d he)
      rw [renderParts, first, List.flatMap_cons]
      cases ds with
      | nil =>
          rw [List.flatMap_nil, List.append_nil]
          exact String.intercalate_singleton
      | cons e es =>
          have some : (e :: es).flatMap (remarks p) ≠ [] :=
            List.append_ne_nil_of_left_ne_nil (remarks_ne_nil e p) _
          rw [join_append (remarks_ne_nil d p) some, ← later, renderParts,
            String.intercalate_cons_cons]

/-- The words of a part are the remarks on it. -/
theorem renderPart_eq_join (d : Diagnostic) :
    ∀ holder, renderPart holder d = join (remarks holder d) := by
  induction d using Diagnostic.induction with
  | leaf m =>
      intro holder
      rw [renderPart, labelled_eq]
      exact (join_singleton _).symm
  | node p parts ih =>
      intro holder
      have all := intercalate_renderParts fun d hd => ih d hd p
      match parts, ih with
      | [], _ => exact (join_singleton (.bare p)).symm
      | [part], ih =>
          rw [remarks_of_parts _ _ (List.cons_ne_nil _ _),
            List.flatMap_singleton, origins,
            join_append_origin (remarks_ne_nil part p),
            ← ih part List.mem_cons_self]
          simp only [← tellsOrigin_iff]
          rfl
      | first :: second :: others, _ =>
          have some : (first :: second :: others).flatMap (remarks p) ≠ [] :=
            List.append_ne_nil_of_left_ne_nil (remarks_ne_nil first p) _
          have behind : origins p (first :: second :: others)
              = if p.line ≠ 0 ∧ p.filename ≠ "" then [.origin p] else [] :=
            rfl
          rw [remarks_of_parts _ _ (List.cons_ne_nil _ _), behind,
            join_append_origin some, ← all]
          simp only [← known_iff]
          rfl

-- ========================================================= the outline

/-- No remark but an origin is on the way back. -/
theorem filter_origins (p : Position) (parts : List Diagnostic) :
    (origins p parts).filter (!·.isOrigin) = [] := by
  unfold origins
  split
  · rfl
  · split <;> rfl
  · split <;> rfl

/-- Less the origins, the remarks are the outline. -/
theorem filter_remarks (d : Diagnostic) :
    ∀ holder,
      (remarks holder d).filter (!·.isOrigin) = outline holder d := by
  induction d using Diagnostic.induction with
  | leaf m => exact fun holder => rfl
  | node p parts ih =>
      intro holder
      by_cases none : parts = []
      · rw [none]
        rfl
      · rw [remarks_of_parts _ _ none, outline_of_parts _ _ none,
          List.filter_append, filter_origins, List.append_nil,
          List.filter_flatMap]
        exact List.flatMap_congr fun d hd => ih d hd p

/-- The messages of the outline are the content. -/
theorem filterMap_message_outline (d : Diagnostic) :
    ∀ holder,
      (outline holder d).filterMap Remark.message? = content holder d := by
  induction d using Diagnostic.induction with
  | leaf m => exact fun holder => rfl
  | node p parts ih =>
      intro holder
      by_cases none : parts = []
      · rw [none]
        rfl
      · rw [outline_of_parts _ _ none, content, contentAll_eq_flatMap,
          List.filterMap_flatMap]
        exact List.flatMap_congr fun d hd => ih d hd p

/-- Origins are no messages: the messages of the remarks are the
content. -/
theorem filterMap_message_remarks (d : Diagnostic) (holder : Position) :
    (remarks holder d).filterMap Remark.message? = content holder d := by
  rw [← filterMap_message_outline, ← filter_remarks,
    List.filterMap_filter]
  refine congrArg (List.filterMap · _) (funext fun r => ?_)
  cases r <;> rfl

/-- The bare positions of the outline are those of the trees without
parts. -/
theorem filterMap_bare_outline (d : Diagnostic) :
    ∀ holder, (outline holder d).filterMap Remark.bare?
      = (d.trees.filter (·.parts.isEmpty)).map Tree.position := by
  induction d using Diagnostic.induction with
  | leaf m => exact fun holder => rfl
  | node p parts ih =>
      intro holder
      by_cases none : parts = []
      · rw [none]
        rfl
      · have inner : (node p parts).trees.filter (·.parts.isEmpty)
            = (treesAll parts).filter (·.parts.isEmpty) :=
          List.filter_cons_of_neg (mt List.isEmpty_iff.1 none)
        rw [outline_of_parts _ _ none, inner, treesAll_eq_flatMap,
          List.filterMap_flatMap, List.filter_flatMap, List.map_flatMap]
        exact List.flatMap_congr fun d hd => ih d hd p

-- ============================================================== chains

/-- A message in trees of one part each, at positions from the outermost
to the innermost. -/
def chain (m : String) : List Position → Diagnostic
  | [] => leaf m
  | p :: ps => node p [chain m ps]

/-- The positions in a chain that are told on the way back: those that
have a line and another position next inside. -/
def stations (ps : List Position) : List Position :=
  ((ps.zip ps.tail).filter fun e => e.1.line ≠ 0 ∧ e.1 ≠ e.2).map Prod.fst

/-- One more position outside is told if it has a line and differs from the
next. -/
theorem stations_cons_cons (p q : Position) (ps : List Position) :
    stations (p :: q :: ps)
      = (if p.line ≠ 0 ∧ p ≠ q then [p] else []) ++ stations (q :: ps) := by
  unfold stations
  rw [List.tail_cons, List.zip_cons_cons, List.filter_cons]
  split
  next told =>
    rw [if_pos (of_decide_eq_true told)]
    rfl
  next silent =>
    rw [if_neg fun told => silent (decide_eq_true told)]
    rfl

/-- No origin is told of a message alone. -/
theorem origins_leaf (p : Position) (m : String) :
    origins p [leaf m] = [] :=
  if_neg fun ⟨_, _, inside, _⟩ => nomatch inside

/-- Around a single tree the position is told, if it has a line and is
another one than that of the tree. -/
theorem origins_node (p q : Position) (parts : List Diagnostic) :
    origins p [node q parts]
      = if p.line ≠ 0 ∧ p ≠ q then [.origin p] else [] := by
  have there : (∃ r ∈ (node q parts).position?, r ≠ p) ↔ p ≠ q := by
    simp [position?, eq_comm]
  simp only [origins, there]

/-- The remarks on a chain: its message, and the way back. -/
theorem remarks_chain (m : String) (p : Position) (ps : List Position) :
    ∀ holder, remarks holder (chain m (p :: ps))
      = .message (ps.getLastD p) m
        :: (stations (p :: ps)).reverse.map .origin := by
  induction ps generalizing p with
  | nil =>
      intro holder
      rw [chain, chain, remarks_of_parts _ _ (List.cons_ne_nil _ _),
        origins_leaf]
      rfl
  | cons q ps ih =>
      intro holder
      have inner : chain m (q :: ps) = node q [chain m ps] := rfl
      rw [chain, remarks_of_parts _ _ (List.cons_ne_nil _ _),
        List.flatMap_singleton, ih, inner, origins_node,
        List.getLastD_cons, stations_cons_cons, List.reverse_append,
        List.map_append, List.cons_append]
      split <;> rfl

end Diagnostic

namespace Tree

open Diagnostic

/-- The remarks on a tree. -/
def remarks (t : Tree) : List Remark :=
  t.toDiagnostic.remarks t.position

/-- What a tree holds, from left to right. -/
def outline (t : Tree) : List Remark :=
  t.toDiagnostic.outline t.position

/-- A message in trees of one part each, at an outermost position and
those inside. -/
def chain (m : String) (p : Position) (ps : List Position) : Tree :=
  ⟨p, [Diagnostic.chain m ps]⟩

/-- A tree in words is its remarks, one below the other. -/
theorem render_eq_join (t : Tree) : t.render = Remark.join t.remarks :=
  renderPart_eq_join t.toDiagnostic t.position

/-- A tree in words is its remarks, one below the other. Less the origins
they are what the tree holds, from left to right: all of its messages,
each once and at the position of the tree that it is a part of, and among
them the positions of the trees without parts. A chain is its message at
the innermost position, and the way back: each position that has a line
and is not the next one inside. -/
theorem render_shows_outline :
    (∀ t : Tree, t.render = Remark.join t.remarks
        ∧ t.remarks.filter (!·.isOrigin) = t.outline
        ∧ t.outline.filterMap Remark.message? = t.content
        ∧ t.outline.filterMap Remark.bare?
          = (t.toDiagnostic.trees.filter (·.parts.isEmpty)).map position)
      ∧ ∀ (m : String) (p : Position) (ps : List Position),
        (chain m p ps).render
          = Remark.join (.message (ps.getLastD p) m
            :: (stations (p :: ps)).reverse.map .origin) := by
  refine ⟨fun t => ⟨t.render_eq_join, filter_remarks _ _,
    filterMap_message_outline _ _, filterMap_bare_outline _ _⟩, ?_⟩
  intro m p ps
  rw [render_eq_join]
  exact congrArg Remark.join (remarks_chain m p ps p)

/-- A message reached by way of two places, the outer of which has no
line. -/
example :
    (chain "no such target" ⟨"BUILD", 0, 0, 0⟩
        [⟨"BUILD", 4, 1, 5⟩, ⟨"rules", 9, 2, 3⟩]).render
      = "rules:2:3: no such target\nBUILD:1:5: ...from here" := by
  decide +kernel

end Tree

end BuildLexer
