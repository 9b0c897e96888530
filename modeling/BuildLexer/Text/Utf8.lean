/-
Reading one character at the front of some bytes.

A character is written in one to four bytes. The first byte tells how
many more follow and holds the highest bits; each that follows lies in
80..BF and holds six bits. `decode?` assembles the number and accepts
it when the form was the shortest one and the number is a character:
neither a surrogate nor above 10FFFF. Where it accepts, the bytes taken
are the encoding of the character, so their number is the character's
own size and need not be returned.
-/
namespace BuildLexer.Utf8

/-- A byte that continues a character. -/
def isContinuation (b : UInt8) : Bool := 0x80 ≤ b && b < 0xC0

/-- Appends the bits of `count` following bytes to the bits so far. -/
def assemble? : (count bits : Nat) → List UInt8 → Option Nat
  | 0, bits, _ => some bits
  | _ + 1, _, [] => none
  | count + 1, bits, b :: rest =>
    if isContinuation b then
      assemble? count (bits * 64 + (b.toNat - 0x80)) rest
    else none

/-- The character of a number that was written in a form for numbers
from `least` on. -/
def scalar? (least n : Nat) : Option Char :=
  if least ≤ n ∧ n.isValidChar then some (Char.ofNat n) else none

/-- The well-formed character at the front, if there is one. -/
def decode? : List UInt8 → Option Char
  | [] => none
  | b :: rest =>
    let n := b.toNat
    if n < 0x80 then some (Char.ofNat n)
    else if n < 0xC0 then none
    else if n < 0xE0 then (assemble? 1 (n - 0xC0) rest).bind (scalar? 0x80)
    else if n < 0xF0 then (assemble? 2 (n - 0xE0) rest).bind (scalar? 0x800)
    else if n < 0xF8 then (assemble? 3 (n - 0xF0) rest).bind (scalar? 0x10000)
    else none

end BuildLexer.Utf8
