/-
Diagnostics in words.

A message stands behind its position, a tree without parts is its
position alone, and several parts stand one on a line. A tree that was
reached from elsewhere is followed by a line that says from where: the
position that holds it, when that is another one. A tree of one part
thus reads as the part, and a chain of them as its message and the way
back.
-/
import BuildLexer.Diagnostic.Basic

namespace BuildLexer

namespace Diagnostic

/-- A message with the position it belongs to, where that says anything
at all. -/
def labelled (p : Position) (message : String) : String :=
  if p.isValid || !p.filename.isEmpty then p.render ++ ": " ++ message
  else message

/-- The line that says from where the text before it was reached. -/
def fromHere (p : Position) : String := "\n" ++ p.render ++ ": ...from here"

/-- Whether the only part of a tree at a position is followed by that
position. -/
def tellsOrigin (p : Position) (part : Diagnostic) : Bool :=
  part.position?.any (· != p) && p.isValid

/-- The text of a part with its origin, given the part's own text. -/
def withOrigin (p : Position) (part : Diagnostic) (text : String) :
    String :=
  if tellsOrigin p part then text ++ fromHere p else text

/-- The text of a tree, given the texts of its parts. -/
def assemble (p : Position) (parts : List Diagnostic)
    (texts : List String) : String :=
  match parts, texts with
  | [], _ => p.render
  | [part], [text] => withOrigin p part text
  | _, _ =>
    let lines := "\n".intercalate texts
    if p.isValid && !p.filename.isEmpty then lines ++ fromHere p else lines

mutual

/-- The text of a part of a tree at a position. -/
def renderPart (p : Position) : Diagnostic → String
  | leaf m => labelled p m
  | node q parts => assemble q parts (renderParts q parts)

/-- The texts of the parts of a tree at a position. -/
def renderParts (p : Position) : List Diagnostic → List String
  | [] => []
  | d :: ds => renderPart p d :: renderParts p ds

end

end Diagnostic

namespace Tree

/-- A tree in words. -/
def render (t : Tree) : String :=
  Diagnostic.renderPart t.position t.toDiagnostic

/-- The first part of a tree in words, and how many there are besides. -/
def brief (t : Tree) : String :=
  match t.parts with
  | [] => t.position.render
  | first :: others =>
    let text := Diagnostic.withOrigin t.position first
      (Diagnostic.renderPart t.position first)
    if others.isEmpty then text
    else text ++ " (and " ++ toString others.length ++ " more)"

end Tree

end BuildLexer
