/-
What can be wrong in a source, and how each fault is worded.

A fault is a cause; its words are given once, by `Fault.message`. The
scanner notes a fault as a finding, at an offset from where it stands,
and files it as a report, at a position in the file.
-/
import BuildLexer.Source.Position
import BuildLexer.Token.Spelling

namespace BuildLexer

/-- Something wrong in a source. -/
inductive Fault where
  | nulCharacter
  | illFormedByte
  | strayByteOrderMark
  | illegalCharacter (c : Char)
  | unexpectedToken (token : Token)
  | openColonCall
  | openString
  | openRawString
  | unknownEscape
  | openEscape
  | brokenEscape
  | escapeOutOfRange
  | noBinaryDigits
  | noHexadecimalDigits
  | notBinaryDigit
  | notOctalDigit
  | misplacedSeparator
  | invalidMonth
  | invalidDay
  | invalidHour
  | invalidMinute
  | invalidSecond
  | invalidZoneHour
  | invalidZoneMinute
  deriving DecidableEq

namespace Fault

/-- The number of a character in capital hexadecimal digits, at least
four of them. -/
def codePoint (c : Char) : String :=
  let digits := (Nat.toDigits 16 c.toNat).map Char.toUpper
  String.ofList (List.replicate (4 - digits.length) '0' ++ digits)

/-- The words for a fault. -/
def message : Fault → String
  | nulCharacter => "illegal character NUL"
  | illFormedByte => "illegal UTF-8 encoding"
  | strayByteOrderMark => "illegal byte order mark"
  | illegalCharacter c =>
    "illegal character U+" ++ codePoint c ++ " '" ++ String.singleton c ++ "'"
  | unexpectedToken token => "unexpected token " ++ token.spelling
  | openColonCall => "colon call not terminated"
  | openString => "string literal not terminated"
  | openRawString => "raw string literal not terminated"
  | unknownEscape => "unknown escape sequence"
  | openEscape => "escape sequence not terminated"
  | brokenEscape => "illegal character in escape sequence"
  | escapeOutOfRange => "escape sequence is invalid Unicode code point"
  | noBinaryDigits => "binary literal has no digits"
  | noHexadecimalDigits => "hexadecimal literal has no digits"
  | notBinaryDigit => "invalid digit in binary literal"
  | notOctalDigit => "illegal octal number"
  | misplacedSeparator => "'_' must separate successive digits"
  | invalidMonth => "invalid month"
  | invalidDay => "invalid day"
  | invalidHour => "invalid hour"
  | invalidMinute => "invalid minute"
  | invalidSecond => "invalid second"
  | invalidZoneHour => "invalid time zone hour"
  | invalidZoneMinute => "invalid time zone minute"

end Fault

/-- A fault at an offset from some starting place. -/
structure Finding where
  offset : Nat
  fault : Fault
  deriving DecidableEq

/-- The same finding, seen from a place that lies further back. -/
def Finding.shift (distance : Nat) (f : Finding) : Finding :=
  { f with offset := distance + f.offset }

/-- A fault at a position. -/
structure Report where
  position : Position
  fault : Fault
  deriving DecidableEq

/-- The words of a report. -/
def Report.message (r : Report) : String := r.fault.message

end BuildLexer
