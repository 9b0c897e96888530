/-
The kinds of token, by family.

A token kind is one of a few special ones or a member of a family:
literals, whose text matters; punctuation; the delimiters of rules; the
references that a sigil makes; assignments; keywords and constants. The
families are types of their own, so to ask for a family is to look at
the constructor, and a reference is its sigil and its suffix, so that
closures and delegates correspond without any table.
-/
namespace BuildLexer

-- =========================================================== families

/-- Tokens that carry the text they were read from. -/
inductive Literal where
  /-- A name, such as `a-b` or `lib+x`. -/
  | bareword
  | binary
  | octal
  | integer
  | hexadecimal
  | float
  | date
  | time
  | dateTime
  /-- A raw string, in single quotes. -/
  | string
  /-- The opening quote of a string with references in it. -/
  | compound
  /-- Plain text inside such a string or a recipe line. -/
  | raw
  /-- An escape inside such a string or a recipe line. -/
  | escape
  /-- The closing quote of such a string. -/
  | composed
  /-- The start of a recipe line, with its first plain text. -/
  | recipe
  deriving DecidableEq

/-- Marks that stand for themselves. -/
inductive Punct where
  | space
  | comma
  | lineEnd
  | leftParen
  | rightParen
  | leftBracket
  | rightBracket
  | leftBrace
  | rightBrace
  | dot
  | doubleDot
  | semicolon
  | atSign
  | bar
  | bang
  | question
  | percent
  | plus
  | minus
  | doubleMinus
  | arrow
  | minusPlus
  | slash
  | backslash
  | star
  | fatArrow
  | tilde
  | tildeArrow
  | hash
  deriving DecidableEq

/-- Marks between the parts of a rule. -/
inductive RuleDelim where
  | colon
  | doubleColon
  | colonBracket
  | colonBangBracket
  | colonQuestionBracket
  | bracketColon
  deriving DecidableEq

/-- What starts a reference: `&` a closure, `$` a delegate. -/
inductive Sigil where
  | closure
  | delegate
  deriving DecidableEq

/-- The character after a sigil that makes a reference complete. -/
inductive Suffix where
  | slash
  | dot
  | atSign
  | bar
  | less
  | caret
  | star
  | minus
  | plus
  | question
  | one
  | two
  | three
  | four
  | five
  | six
  | seven
  | eight
  | nine
  | underscore
  deriving DecidableEq

/-- The assignments. -/
inductive Assign where
  | plain
  | plainPlus
  | add
  | question
  | bang
  | colon
  | doubleColon
  | sub
  | subPlus
  | plusAfterSub
  deriving DecidableEq

/-- The words that are not names. -/
inductive Keyword where
  | project
  | package
  | module
  | configure
  | configuration
  | use
  | eval
  | exportWord
  | includeWord
  | importWord
  | instanceWord
  | files
  deriving DecidableEq

/-- The words that are values. -/
inductive Constant where
  | trueWord
  | falseWord
  | yesWord
  | noWord
  deriving DecidableEq

/-- A kind of token. -/
inductive Token where
  /-- Text that is no token. A fault was reported, but for a replacement
  character that is written out. -/
  | illegal
  /-- The end of the source. -/
  | endOfFile
  | comment
  | literal (kind : Literal)
  | punct (mark : Punct)
  | rule (delimiter : RuleDelim)
  /-- A sigil, alone or completed by a suffix. -/
  | reference (sigil : Sigil) (suffix : Option Suffix)
  | assign (operator : Assign)
  | keyword (word : Keyword)
  | constant (word : Constant)
  deriving DecidableEq

-- ========================================================= membership

namespace Token

/-- Whether the token is one that carries text by its kind. -/
def isLiteral : Token → Bool
  | literal _ => true
  | _ => false

/-- Whether the token is a mark of any sort: punctuation, a delimiter,
a reference or an assignment. -/
def isOperator : Token → Bool
  | punct _ | rule _ | reference _ _ | assign _ => true
  | _ => false

/-- Whether the token separates the items of a list. -/
def isListDelim : Token → Bool
  | punct .space | punct .comma => true
  | _ => false

/-- Whether the token separates the parts of a rule. -/
def isRuleDelim : Token → Bool
  | rule _ => true
  | _ => false

/-- Whether the token is a reference by `&`. -/
def isClosure : Token → Bool
  | reference .closure _ => true
  | _ => false

/-- Whether the token is a reference by `$`. -/
def isDelegate : Token → Bool
  | reference .delegate _ => true
  | _ => false

/-- Whether the token assigns. -/
def isAssign : Token → Bool
  | assign _ => true
  | _ => false

/-- Whether the token is a reserved word; the constants are. -/
def isKeyword : Token → Bool
  | keyword _ | constant _ => true
  | _ => false

/-- Whether the token is a reserved word that is a value. -/
def isConstant : Token → Bool
  | constant _ => true
  | _ => false

/-- The delegate with the suffix of a closure. -/
def toDelegate? : Token → Option Token
  | reference .closure suffix => some (reference .delegate suffix)
  | _ => none

/-- The closure with the suffix of a delegate. -/
def toClosure? : Token → Option Token
  | reference .delegate suffix => some (reference .closure suffix)
  | _ => none

end Token

end BuildLexer
