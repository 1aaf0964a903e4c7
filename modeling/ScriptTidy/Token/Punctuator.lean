import ScriptTidy.Text.Bytes

/-!
# Punctuators

Brackets, separators and operators. `Punctuator.label` is the text of each one, and
`Punctuator.read?` takes the punctuator off the front of a text by looking at up to four
characters.
-/

namespace ScriptTidy

/-- A punctuator or operator. -/
inductive Punctuator
  | bracketL | bracketR | braceL | braceR | parenL | parenR | comma | semi | colon | dot
  | question | questionDot | arrow | ellipsis | backQuote | dollarBraceL | eq | plusEq
  | minusEq | starEq | slashEq | percentEq | shlEq | shrEq | ushrEq | andEq | orEq | xorEq
  | starStarEq | andAndEq | orOrEq | coalesceEq | plusPlus | minusMinus | not | tilde | plus
  | minus | star | slash | percent | starStar | orOr | coalesce | andAnd | bitOr | bitXor
  | bitAnd | equal | notEqual | strictEqual | strictNotEqual | less | greater | lessEq
  | greaterEq | shl | shr | ushr
deriving DecidableEq, Repr

namespace Punctuator

/-- The text of the punctuator. -/
def label : Punctuator → String
  | bracketL => "["
  | bracketR => "]"
  | braceL => "\x7b"
  | braceR => "\x7d"
  | parenL => "("
  | parenR => ")"
  | comma => ","
  | semi => ";"
  | colon => ":"
  | dot => "."
  | question => "?"
  | questionDot => "?."
  | arrow => "=>"
  | ellipsis => "..."
  | backQuote => "`"
  | dollarBraceL => "$\x7b"
  | eq => "="
  | plusEq => "+="
  | minusEq => "-="
  | starEq => "*="
  | slashEq => "/="
  | percentEq => "%="
  | shlEq => "<<="
  | shrEq => ">>="
  | ushrEq => ">>>="
  | andEq => "&="
  | orEq => "|="
  | xorEq => "^="
  | starStarEq => "**="
  | andAndEq => "&&="
  | orOrEq => "||="
  | coalesceEq => "??="
  | plusPlus => "++"
  | minusMinus => "--"
  | not => "!"
  | tilde => "~"
  | plus => "+"
  | minus => "-"
  | star => "*"
  | slash => "/"
  | percent => "%"
  | starStar => "**"
  | orOr => "||"
  | coalesce => "??"
  | andAnd => "&&"
  | bitOr => "|"
  | bitXor => "^"
  | bitAnd => "&"
  | equal => "=="
  | notEqual => "!="
  | strictEqual => "==="
  | strictNotEqual => "!=="
  | less => "<"
  | greater => ">"
  | lessEq => "<="
  | greaterEq => ">="
  | shl => "<<"
  | shr => ">>"
  | ushr => ">>>"

/-- All punctuators. -/
def all : List Punctuator :=
  [.bracketL, .bracketR, .braceL, .braceR, .parenL, .parenR, .comma, .semi, .colon, .dot,
   .question, .questionDot, .arrow, .ellipsis, .backQuote, .dollarBraceL, .eq, .plusEq, .minusEq,
   .starEq, .slashEq, .percentEq, .shlEq, .shrEq, .ushrEq, .andEq, .orEq, .xorEq, .starStarEq,
   .andAndEq, .orOrEq, .coalesceEq, .plusPlus, .minusMinus, .not, .tilde, .plus, .minus, .star,
   .slash, .percent, .starStar, .orOr, .coalesce, .andAnd, .bitOr, .bitXor, .bitAnd, .equal,
   .notEqual, .strictEqual, .strictNotEqual, .less, .greater, .lessEq, .greaterEq, .shl, .shr,
   .ushr]

/-- The operator assigns to its left operand. -/
def isAssign : Punctuator → Bool
  | .eq | .plusEq | .minusEq | .starEq | .slashEq | .percentEq | .shlEq | .shrEq | .ushrEq
  | .andEq | .orEq | .xorEq | .starStarEq | .andAndEq | .orOrEq | .coalesceEq => true
  | _ => false

/-- The precedence as a binary operator, zero for all others. The power operator has none, so
it never counts as a binary operator for spacing. -/
def precedence : Punctuator → Nat
  | .orOr | .coalesce => 1
  | .andAnd => 2
  | .bitOr => 3
  | .bitXor => 4
  | .bitAnd => 5
  | .equal | .notEqual | .strictEqual | .strictNotEqual => 6
  | .less | .greater | .lessEq | .greaterEq => 7
  | .shl | .shr | .ushr => 8
  | .plus | .minus => 9
  | .star | .slash | .percent => 10
  | _ => 0

/-- An expression may follow the punctuator, so a slash after it starts a regular expression. -/
def beforeExpr (p : Punctuator) : Bool :=
  p.isAssign || p.precedence != 0 ||
    match p with
    | .bracketL | .braceL | .parenL | .comma | .semi | .colon | .question | .arrow | .ellipsis
    | .dollarBraceL | .not | .tilde | .starStar => true
    | _ => false

/-- The punctuator can start an expression. -/
def startsExpr : Punctuator → Bool
  | .bracketL | .braceL | .parenL | .backQuote | .dollarBraceL | .plusPlus | .minusMinus
  | .not | .tilde | .plus | .minus => true
  | _ => false

/-- The operator can stand before its only operand. -/
def isUnaryBefore : Punctuator → Bool
  | .plusPlus | .minusMinus | .not | .tilde | .plus | .minus => true
  | _ => false

/-- The operator can stand after its only operand. -/
def isUnaryAfter : Punctuator → Bool
  | .plusPlus | .minusMinus => true
  | _ => false

/-- Whether a text starts with an ASCII digit. -/
def startsWithDigit : List Char → Bool
  | c :: _ => '0' ≤ c && c ≤ '9'
  | [] => false

/-- The operator `plain`, or the one for `plain` followed by an equals sign. -/
def orAssign (plain assign : Punctuator) (rest : List Char) : Punctuator :=
  if rest.head? = some '=' then assign else plain

/-- The punctuator at the front of a text, if there is one. A substitution's opening belongs to
template literals and is not read here. `?.` is no punctuator in front of a digit. -/
def read? : List Char → Option Punctuator
  | '(' :: _ => some .parenL
  | ')' :: _ => some .parenR
  | ';' :: _ => some .semi
  | ',' :: _ => some .comma
  | '[' :: _ => some .bracketL
  | ']' :: _ => some .bracketR
  | '\x7b' :: _ => some .braceL
  | '\x7d' :: _ => some .braceR
  | ':' :: _ => some .colon
  | '\x60' :: _ => some .backQuote
  | '~' :: _ => some .tilde
  | '.' :: '.' :: '.' :: _ => some .ellipsis
  | '.' :: _ => some .dot
  | '?' :: '.' :: r => some (if startsWithDigit r then .question else .questionDot)
  | '?' :: '?' :: r => some (orAssign .coalesce .coalesceEq r)
  | '?' :: _ => some .question
  | '/' :: r => some (orAssign .slash .slashEq r)
  | '%' :: r => some (orAssign .percent .percentEq r)
  | '^' :: r => some (orAssign .bitXor .xorEq r)
  | '*' :: '*' :: r => some (orAssign .starStar .starStarEq r)
  | '*' :: r => some (orAssign .star .starEq r)
  | '|' :: '|' :: r => some (orAssign .orOr .orOrEq r)
  | '|' :: r => some (orAssign .bitOr .orEq r)
  | '&' :: '&' :: r => some (orAssign .andAnd .andAndEq r)
  | '&' :: r => some (orAssign .bitAnd .andEq r)
  | '+' :: '+' :: _ => some .plusPlus
  | '+' :: r => some (orAssign .plus .plusEq r)
  | '-' :: '-' :: _ => some .minusMinus
  | '-' :: r => some (orAssign .minus .minusEq r)
  | '<' :: '<' :: r => some (orAssign .shl .shlEq r)
  | '<' :: r => some (orAssign .less .lessEq r)
  | '>' :: '>' :: '>' :: r => some (orAssign .ushr .ushrEq r)
  | '>' :: '>' :: r => some (orAssign .shr .shrEq r)
  | '>' :: r => some (orAssign .greater .greaterEq r)
  | '=' :: '>' :: _ => some .arrow
  | '=' :: '=' :: r => some (orAssign .equal .strictEqual r)
  | '=' :: _ => some .eq
  | '!' :: '=' :: r => some (orAssign .notEqual .strictNotEqual r)
  | '!' :: _ => some .not
  | _ => none

end Punctuator

end ScriptTidy
