/-
Punctuation: operators, colons and brackets.

Operators take as many characters as make one, so `-+=` is one mark.
Brackets and colons depend on what is open: a colon can separate the
parts of a call, and a closing bracket followed by a colon ends the
bracketed part of a rule.
-/
import BuildLexer.Plan.Basic

namespace BuildLexer.Plan

-- ========================================================== operators

/-- The longest operator at the front, with the number of characters
behind its first. -/
def operator? : List Char → Option (Token × Nat)
  | '-' :: '-' :: _ => some (.punct .doubleMinus, 1)
  | '-' :: '>' :: _ => some (.punct .arrow, 1)
  | '-' :: '+' :: '=' :: _ => some (.assign .subPlus, 2)
  | '-' :: '+' :: _ => some (.punct .minusPlus, 1)
  | '-' :: '=' :: '+' :: _ => some (.assign .plusAfterSub, 2)
  | '-' :: '=' :: _ => some (.assign .sub, 1)
  | '-' :: _ => some (.punct .minus, 0)
  | '+' :: '=' :: _ => some (.assign .add, 1)
  | '+' :: _ => some (.punct .plus, 0)
  | '!' :: '=' :: _ => some (.assign .bang, 1)
  | '!' :: _ => some (.punct .bang, 0)
  | '?' :: '=' :: _ => some (.assign .question, 1)
  | '?' :: _ => some (.punct .question, 0)
  | '~' :: '>' :: _ => some (.punct .tildeArrow, 1)
  | '~' :: _ => some (.punct .tilde, 0)
  | '.' :: '.' :: _ => some (.punct .doubleDot, 1)
  | '.' :: _ => some (.punct .dot, 0)
  | '=' :: '>' :: _ => some (.punct .fatArrow, 1)
  | '=' :: '+' :: _ => some (.assign .plainPlus, 1)
  | '=' :: _ => some (.assign .plain, 0)
  | '@' :: _ => some (.punct .atSign, 0)
  | '|' :: _ => some (.punct .bar, 0)
  | '%' :: _ => some (.punct .percent, 0)
  | '*' :: _ => some (.punct .star, 0)
  | '/' :: _ => some (.punct .slash, 0)
  | ',' :: _ => some (.punct .comma, 0)
  | ';' :: _ => some (.punct .semicolon, 0)
  | '[' :: _ => some (.punct .leftBracket, 0)
  | _ => none

-- ============================================================= colons

/-- A colon outside calls: an assignment, the opening of a rule's
brackets, or a delimiter of rules. -/
def ruleColon (n : Nesting) : List Char → Plan
  | '=' :: _ => mark (.assign .colon) 1 n
  | ':' :: '=' :: _ => mark (.assign .doubleColon) 2 n
  | ':' :: _ => mark (.rule .doubleColon) 1 n.afterRule
  | '[' :: _ => mark (.rule .colonBracket) 1 (n.enter {.colonCallLeft})
  | '!' :: '[' :: _ =>
    mark (.rule .colonBangBracket) 2 (n.enter {.colonCallLeft})
  | '?' :: '[' :: _ =>
    mark (.rule .colonQuestionBracket) 2 (n.enter {.colonCallLeft})
  | _ => mark (.rule .colon) 0 n.afterRule

/-- A colon. The one that opens a call's arguments changes nothing else,
the next leads from the first part to the second, and one there ends
the call. -/
def colon (n : Nesting) (next : List Char) : Plan :=
  if n.has .colonCallLeft then
    if n.openerNext then mark (.rule .colon) 0 n.passOpener
    else
      mark (.rule .colon) 0
        { n with
          stack := n.stack.replace {.colonCallLeft} {.colonCallRight} }
  else if n.has .colonCallRight then
    mark (.rule .colon) 0 (n.leave {.colonCallRight})
  else ruleColon n next

-- =========================================================== brackets

/-- A closing bracket; with a colon behind it, it ends what a colon
opened. -/
def rightBracket (n : Nesting) (next : List Char) : Plan :=
  if next.head? = some ':' && n.meets Context.colonCall then
    mark (.rule .bracketColon) 1 (n.leave Context.colonCall).afterRule
  else mark (.punct .rightBracket) 0 n

/-- An opening parenthesis: of a call's arguments, or of a group. -/
def leftParen (n : Nesting) : Plan :=
  mark (.punct .leftParen) 0 <|
    if n.openerNext && n.has .parenCall then n.passOpener
    else n.enter {.group}

/-- A closing parenthesis. -/
def rightParen (n : Nesting) : Plan :=
  mark (.punct .rightParen) 0 (n.leave {.parenCall, .group})

/-- An opening brace: of a call's arguments, of a group inside a call,
or a mark that opens nothing. -/
def leftBrace (n : Nesting) : Plan :=
  mark (.punct .leftBrace) 0 <|
    if n.openerNext && n.has .braceCall then n.passOpener
    else if n.meets Context.call then n.enter {.group}
    else n

/-- A closing brace. -/
def rightBrace (n : Nesting) : Plan :=
  mark (.punct .rightBrace) 0 (n.leave {.braceCall, .group})

end BuildLexer.Plan
