/-
Diagnostics as trees.

A message belongs to the position it was found at. When a problem was
reached from somewhere else, say from the place that included a file,
the diagnostic at the one position becomes a part of the diagnostic at
the other. So a tree is a position with parts, and a part is a plain
message or a tree in its turn; the order of parts is the order they
came in and is kept.
-/
import BuildLexer.Source.Position

namespace BuildLexer

/-- A message, or the diagnostics of a position. -/
inductive Diagnostic where
  | leaf (message : String)
  | node (position : Position) (parts : List Diagnostic)

/-- The diagnostics of a position. -/
structure Tree where
  position : Position
  parts : List Diagnostic

/-- A tree as a part of another. -/
def Tree.toDiagnostic (t : Tree) : Diagnostic := .node t.position t.parts

namespace Diagnostic

-- =========================================================== equality

mutual

/-- Whether two diagnostics are the same in every part. -/
def decEq : (a b : Diagnostic) → Decidable (a = b)
  | leaf m, leaf m' =>
    if h : m = m' then isTrue (h ▸ rfl)
    else isFalse fun e => h (leaf.inj e)
  | leaf _, node _ _ => isFalse nofun
  | node _ _, leaf _ => isFalse nofun
  | node p ds, node p' ds' =>
    match decEqAll ds ds' with
    | isTrue hd =>
      if hp : p = p' then isTrue (hp ▸ hd ▸ rfl)
      else isFalse fun e => hp (node.inj e).1
    | isFalse hd => isFalse fun e => hd (node.inj e).2

/-- Whether two lists of diagnostics are the same. -/
def decEqAll : (as bs : List Diagnostic) → Decidable (as = bs)
  | [], [] => isTrue rfl
  | [], _ :: _ => isFalse nofun
  | _ :: _, [] => isFalse nofun
  | a :: as, b :: bs =>
    match decEq a b, decEqAll as bs with
    | isTrue h, isTrue hs => isTrue (h ▸ hs ▸ rfl)
    | isFalse h, _ => isFalse fun e => h (List.cons.inj e).1
    | _, isFalse hs => isFalse fun e => hs (List.cons.inj e).2

end

instance : DecidableEq Diagnostic := decEq

-- =============================================================== size

mutual

/-- How many messages and trees a diagnostic is made of. -/
def size : Diagnostic → Nat
  | leaf _ => 1
  | node _ parts => totalSize parts + 1

/-- How many messages and trees some diagnostics are made of. -/
def totalSize : List Diagnostic → Nat
  | [] => 0
  | d :: ds => size d + totalSize ds

end

theorem size_pos (d : Diagnostic) : 0 < d.size := by
  cases d <;> simp [size]

-- ============================================================ looking

/-- The message of a plain message. -/
def message? : Diagnostic → Option String
  | leaf m => some m
  | node _ _ => none

/-- The position of a tree. -/
def position? : Diagnostic → Option Position
  | leaf _ => none
  | node p _ => some p

/-- Whether a diagnostic is a tree. -/
def isNode : Diagnostic → Bool
  | leaf _ => false
  | node _ _ => true

/-- The first plain message of a list. -/
def firstLeaf (ds : List Diagnostic) : Option String :=
  ds.findSome? message?

mutual

/-- The first message of a diagnostic: of a tree, its first plain
message before those of the trees in it. -/
def firstMessage : Diagnostic → Option String
  | leaf m => some m
  | node _ parts => (firstLeaf parts).or (firstInNodes parts)

/-- The first message of the trees in a list. -/
def firstInNodes : List Diagnostic → Option String
  | [] => none
  | leaf _ :: rest => firstInNodes rest
  | node p parts :: rest =>
    (firstMessage (node p parts)).or (firstInNodes rest)

end

end Diagnostic

namespace Tree

instance : DecidableEq Tree := fun a b =>
  if h : a.position = b.position ∧ a.parts = b.parts then
    isTrue (by cases a; cases b; simp_all)
  else isFalse fun e => h (e ▸ ⟨rfl, rfl⟩)

/-- A tree of one message. -/
def single (position : Position) (message : String) : Tree :=
  ⟨position, [.leaf message]⟩

/-- Whether one of the parts is a tree. -/
def hasNodes (t : Tree) : Bool := t.parts.any Diagnostic.isNode

/-- Which of the parts is the first tree at a position. -/
def find? (t : Tree) (p : Position) : Option Nat :=
  t.parts.findIdx? (·.position? == some p)

/-- Whether a message is one of the parts. -/
def hasMessage (t : Tree) (m : String) : Bool :=
  t.parts.any (·.message? == some m)

/-- The first message: a plain one among the parts before those of the
trees among them. -/
def firstMessage (t : Tree) : Option String := t.toDiagnostic.firstMessage

end Tree

end BuildLexer
