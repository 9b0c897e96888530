/-
Merging diagnostics into a tree.

A message is added unless the tree already has it as a part. A tree at
the position of one of the parts goes into that part, piece by piece;
any other tree becomes a part, and parts that it carries itself are
dropped for it. A tree keeps a limited number of parts, and the oldest
go first.

What is still to be merged stands in a list, each piece with the path
to the tree it is meant for, by the numbers of the parts on the way.
The pieces of a tree go to the front, so a tree is finished before what
came after it. A path is followed when its turn comes: where parts were
dropped in between, it leads to what stands there now, and a piece
whose path leads to no tree is dropped.
-/
import BuildLexer.Diagnostic.Basic

namespace BuildLexer

/-- The number of parts that is kept where nothing else is said. -/
def defaultLimit : Nat := 120

/-- The limit that keeps everything. -/
def noLimit : Nat := 0

/-- What remains of a list when at most `limit` items are kept, the
newest ones. -/
def newest {α : Type} (limit : Nat) (items : List α) : List α :=
  if limit = noLimit then items else items.drop (items.length - limit)

/-- A diagnostic to be merged, and the path to the tree it goes to. -/
structure Incoming where
  path : List Nat
  item : Diagnostic

namespace Incoming

/-- The sizes of all that is to be merged. -/
def totalSize : List Incoming → Nat
  | [] => 0
  | new :: items => new.item.size + totalSize items

/-- The parts of a tree, all for the same path. -/
def ofParts (path : List Nat) (parts : List Diagnostic) : List Incoming :=
  parts.map (⟨path, ·⟩)

theorem totalSize_ofParts (path : List Nat) (parts : List Diagnostic) :
    totalSize (ofParts path parts) = Diagnostic.totalSize parts := by
  induction parts with
  | nil => rfl
  | cons d ds ih =>
    rw [Diagnostic.totalSize, ← ih]
    rfl

theorem totalSize_append (a b : List Incoming) :
    totalSize (a ++ b) = totalSize a + totalSize b := by
  induction a with
  | nil => simp [totalSize]
  | cons new items ih => simp [totalSize, ih, Nat.add_assoc]

end Incoming

namespace Tree

-- ============================================================== paths

/-- The tree that a path leads to. -/
def get? : List Nat → Tree → Option Tree
  | [], t => some t
  | i :: path, t =>
    match t.parts[i]? with
    | some (.node p parts) => get? path ⟨p, parts⟩
    | _ => none

/-- Changes the tree that a path leads to. -/
def modify (change : Tree → Tree) : List Nat → Tree → Tree
  | [], t => change t
  | i :: path, t =>
    match t.parts[i]? with
    | some (.node p parts) =>
      let part := modify change path ⟨p, parts⟩
      { t with parts := t.parts.set i part.toDiagnostic }
    | _ => t

-- ============================================================ changes

/-- Drops the oldest parts above a limit. -/
def truncate (limit : Nat) (t : Tree) : Tree :=
  { t with parts := newest limit t.parts }

/-- Adds a message that is not yet a part. -/
def addMessage (m : String) (t : Tree) : Tree :=
  if t.hasMessage m then t else { t with parts := t.parts ++ [.leaf m] }

/-- Whether a tree has a part at the position of a diagnostic. -/
def carries (t : Tree) (d : Diagnostic) : Bool :=
  d.position?.any fun p => (t.find? p).isSome

/-- Adds a tree as a part, in place of the parts that it carries. -/
def adopt (t new : Tree) : Tree :=
  { t with
    parts := t.parts.filter (!new.carries ·) ++ [new.toDiagnostic] }

-- ============================================================ merging

/-- Merges one piece: the tree afterwards, and the pieces it left. -/
def mergeOne (limit : Nat) (new : Incoming) (t : Tree) :
    Tree × List Incoming :=
  match t.get? new.path with
  | none => (t, [])
  | some target =>
    match new.item with
    | .leaf m =>
      (t.modify (fun u => (u.addMessage m).truncate limit) new.path, [])
    | .node p parts =>
      match target.find? p with
      | some i =>
        (t.modify (truncate limit) new.path,
          Incoming.ofParts (new.path ++ [i]) parts)
      | none =>
        (t.modify (fun u => (u.adopt ⟨p, parts⟩).truncate limit) new.path,
          [])

/-- The pieces left are smaller than the piece they come from. -/
theorem totalSize_mergeOne (limit : Nat) (new : Incoming) (t : Tree) :
    Incoming.totalSize (t.mergeOne limit new).2 < new.item.size := by
  unfold mergeOne
  split
  · exact new.item.size_pos
  · split
    · rename_i h
      rw [h]
      exact Diagnostic.size_pos _
    · rename_i h
      rw [h]
      split
      · simp [Incoming.totalSize_ofParts, Diagnostic.size]
      · exact Diagnostic.size_pos _

/-- Merges pieces from the front of a list until none is left. -/
def mergeAll (limit : Nat) : List Incoming → Tree → Tree
  | [], t => t
  | new :: rest, t =>
    let step := t.mergeOne limit new
    mergeAll limit (step.2 ++ rest) step.1
termination_by items => Incoming.totalSize items
decreasing_by
  have := totalSize_mergeOne limit new t
  rw [Incoming.totalSize_append]
  rw [Incoming.totalSize]
  omega

/-- Merges diagnostics into a tree, in order. -/
def merge (limit : Nat) (items : List Diagnostic) (t : Tree) : Tree :=
  mergeAll limit (Incoming.ofParts [] items) t

end Tree

end BuildLexer
