/-
Raw strings, in single quotes.

A raw string ends at the next quote on its line; a backslash keeps the
quote after it from ending it, and does nothing else. Two quotes alone
are the empty string. Three quotes open a string that runs over lines
to the next three quotes, whatever stands between. A string with no end
stops where its line does, or the source.
-/
import BuildLexer.Text.Glyph

namespace BuildLexer

/-- How far a raw string reaches, and whether it was ended. -/
structure RawString where
  length : Nat
  closed : Bool
  deriving DecidableEq

namespace RawString

/-- The same string with some glyphs before it. -/
def extend (count : Nat) (s : RawString) : RawString :=
  { s with length := s.length + count }

/-- The rest of a string on one line. -/
def single : List Glyph → RawString
  | [] => ⟨0, false⟩
  | .scalar '\n' :: _ => ⟨0, false⟩
  | .scalar '\x27' :: _ => ⟨1, true⟩
  | .scalar '\\' :: .scalar '\x27' :: rest => (single rest).extend 2
  | _ :: rest => (single rest).extend 1

/-- The rest of a string in three quotes. -/
def triple : List Glyph → RawString
  | [] => ⟨0, false⟩
  | .scalar '\x27' :: .scalar '\x27' :: .scalar '\x27' :: _ => ⟨3, true⟩
  | _ :: rest => (triple rest).extend 1

/-- What follows the first quote of a raw string. -/
def read : List Glyph → RawString
  | .scalar '\x27' :: .scalar '\x27' :: rest => (triple rest).extend 2
  | .scalar '\x27' :: _ => ⟨1, true⟩
  | src => single src

end RawString

end BuildLexer
