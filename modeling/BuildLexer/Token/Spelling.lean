/-
How each kind of token is written.

Marks, references and words are spelled as they stand in a source;
a kind whose text varies is named in capitals. The names serve messages
and are not read back, but reserved words are recognised by exactly
these spellings (`Token.ofWord`).
-/
import BuildLexer.Token.Kind

namespace BuildLexer

/-- The name of a kind of literal. -/
def Literal.spelling : Literal → String
  | bareword => "BAREWORD"
  | binary => "BIN"
  | octal => "OCT"
  | integer => "INT"
  | hexadecimal => "HEX"
  | float => "FLOAT"
  | date => "DATE"
  | time => "TIME"
  | dateTime => "DATETIME"
  | string => "STRING"
  | compound => "COMPOUND"
  | raw => "RAW"
  | escape => "ESCAPE"
  | composed => "COMPOSED"
  | recipe => "RECIPE"

/-- A mark as written; blanks and line ends are named. -/
def Punct.spelling : Punct → String
  | space => "SPACE"
  | comma => ","
  | lineEnd => "LINEND"
  | leftParen => "("
  | rightParen => ")"
  | leftBracket => "["
  | rightBracket => "]"
  | leftBrace => "\x7b"
  | rightBrace => "\x7d"
  | dot => "."
  | doubleDot => ".."
  | semicolon => ";"
  | atSign => "@"
  | bar => "|"
  | bang => "!"
  | question => "?"
  | percent => "%"
  | plus => "+"
  | minus => "-"
  | doubleMinus => "--"
  | arrow => "->"
  | minusPlus => "-+"
  | slash => "/"
  | backslash => "\\"
  | star => "*"
  | fatArrow => "=>"
  | tilde => "~"
  | tildeArrow => "~>"
  | hash => "#"

/-- A rule delimiter as written. -/
def RuleDelim.spelling : RuleDelim → String
  | colon => ":"
  | doubleColon => "::"
  | colonBracket => ":["
  | colonBangBracket => ":!["
  | colonQuestionBracket => ":?["
  | bracketColon => "]:"

/-- The character that starts a reference. -/
def Sigil.symbol : Sigil → Char
  | closure => '&'
  | delegate => '$'

/-- The character that completes a reference. -/
def Suffix.symbol : Suffix → Char
  | slash => '/'
  | dot => '.'
  | atSign => '@'
  | bar => '|'
  | less => '<'
  | caret => '^'
  | star => '*'
  | minus => '-'
  | plus => '+'
  | question => '?'
  | one => '1'
  | two => '2'
  | three => '3'
  | four => '4'
  | five => '5'
  | six => '6'
  | seven => '7'
  | eight => '8'
  | nine => '9'
  | underscore => '_'

/-- An assignment as written. -/
def Assign.spelling : Assign → String
  | plain => "="
  | plainPlus => "=+"
  | add => "+="
  | question => "?="
  | bang => "!="
  | colon => ":="
  | doubleColon => "::="
  | sub => "-="
  | subPlus => "-+="
  | plusAfterSub => "-=+"

/-- A keyword as written. -/
def Keyword.spelling : Keyword → String
  | project => "project"
  | package => "package"
  | module => "module"
  | configure => "configure"
  | configuration => "configuration"
  | use => "use"
  | eval => "eval"
  | exportWord => "export"
  | includeWord => "include"
  | importWord => "import"
  | instanceWord => "instance"
  | files => "files"

/-- A constant as written. -/
def Constant.spelling : Constant → String
  | trueWord => "true"
  | falseWord => "false"
  | yesWord => "yes"
  | noWord => "no"

/-- The written form of a token kind, or its name. -/
def Token.spelling : Token → String
  | illegal => "ILLEGAL"
  | endOfFile => "EOF"
  | comment => "COMMENT"
  | literal kind => kind.spelling
  | punct mark => mark.spelling
  | rule delimiter => delimiter.spelling
  | reference sigil suffix =>
    String.ofList (sigil.symbol :: suffix.toList.map Suffix.symbol)
  | assign operator => operator.spelling
  | keyword word => word.spelling
  | constant word => word.spelling

end BuildLexer
