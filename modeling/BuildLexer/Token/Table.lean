/-
All token kinds in order, and the ways to find one.

The kinds are numbered: the special ones first, then the families one
after the other. Within the references every closure comes before every
delegate, and both run through the suffixes in the same order, so the
two halves of the list are parallel.
-/
import BuildLexer.Token.Spelling

namespace BuildLexer

-- ============================================================== lists

/-- The kinds of literal in order. -/
def Literal.all : List Literal :=
  [bareword, binary, octal, integer, hexadecimal, float, date, time,
    dateTime, string, compound, raw, escape, composed, recipe]

/-- The marks in order. -/
def Punct.all : List Punct :=
  [space, comma, lineEnd, leftParen, rightParen, leftBracket,
    rightBracket, leftBrace, rightBrace, dot, doubleDot, semicolon,
    atSign, bar, bang, question, percent, plus, minus, doubleMinus,
    arrow, minusPlus, slash, backslash, star, fatArrow, tilde,
    tildeArrow, hash]

/-- The rule delimiters in order. -/
def RuleDelim.all : List RuleDelim :=
  [colon, doubleColon, colonBracket, colonBangBracket,
    colonQuestionBracket, bracketColon]

/-- The suffixes in order. -/
def Suffix.all : List Suffix :=
  [slash, dot, atSign, bar, less, caret, star, minus, plus, question,
    one, two, three, four, five, six, seven, eight, nine, underscore]

/-- The assignments in order. -/
def Assign.all : List Assign :=
  [plain, plainPlus, add, question, bang, colon, doubleColon, sub,
    subPlus, plusAfterSub]

/-- The keywords in order. -/
def Keyword.all : List Keyword :=
  [project, package, module, configure, configuration, use, eval,
    exportWord, includeWord, importWord, instanceWord, files]

/-- The constants in order. -/
def Constant.all : List Constant :=
  [trueWord, falseWord, yesWord, noWord]

namespace Token

/-- The references by one sigil: the bare one, then by suffix. -/
def references (sigil : Sigil) : List Token :=
  (none :: Suffix.all.map some).map (reference sigil)

/-- The reserved words in order. -/
def words : List Token :=
  Keyword.all.map keyword ++ Constant.all.map constant

/-- All token kinds in order. -/
def all : List Token :=
  [illegal, endOfFile, comment] ++ Literal.all.map literal
    ++ Punct.all.map punct ++ RuleDelim.all.map rule
    ++ references .closure ++ references .delegate
    ++ Assign.all.map assign ++ words

-- ============================================================ finding

/-- The kind with a number, if there are so many. -/
def ofIndex? (n : Nat) : Option Token := all[n]?

/-- The kind of a word: the reserved word so spelled, or a name. -/
def ofWord (text : String) : Token :=
  (words.find? (·.spelling == text)).getD (literal .bareword)

end Token

/-- The suffix that a character is, if it is one. -/
def Suffix.ofChar? (c : Char) : Option Suffix :=
  all.find? (·.symbol == c)

end BuildLexer
