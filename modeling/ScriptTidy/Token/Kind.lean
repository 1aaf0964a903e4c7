import ScriptTidy.Token.Keyword
import ScriptTidy.Token.Punctuator

/-!
# Kinds of tokens

A token is a name, a literal, a reserved word, a punctuator, the end of the input, or one of
the three kinds of comment. What the formatter has to know about a kind, its label and its part
in expressions, is computed from it here.
-/

namespace ScriptTidy

/-- What a token is. -/
inductive Kind
  | num | regexp | string | name | privateName | template
  | eof
  | lineComment | blockComment | hashbang
  | keyword (k : Keyword)
  | punct (p : Punctuator)
deriving DecidableEq, Repr

namespace Kind

/-- How the kind is named in messages; punctuators and reserved words by their own text. -/
def label : Kind → String
  | num => "num"
  | regexp => "regexp"
  | string => "string"
  | name => "name"
  | privateName => "privateId"
  | template => "template"
  | eof => "eof"
  | lineComment => "//"
  | blockComment => "/*"
  | hashbang => "#!"
  | keyword k => k.word
  | punct p => p.label

/-- Every kind once. -/
def all : List Kind :=
  [num, regexp, string, name, privateName, template, eof, lineComment, blockComment, hashbang]
    ++ Keyword.all.map keyword ++ Punctuator.all.map punct

/-- The kind with this label. -/
def ofLabel? (label : String) : Option Kind := all.find? fun k => k.label == label

/-- The reserved word, if the kind is one. -/
def keyword? : Kind → Option Keyword
  | keyword k => some k
  | _ => none

/-- Whether the kind is a reserved word. -/
def isKeyword (k : Kind) : Bool := k.keyword?.isSome

/-- The kinds that carry no meaning for the program. -/
def isComment : Kind → Bool
  | lineComment | blockComment | hashbang => true
  | _ => false

/-- An expression may follow, so a slash starts a regular expression. -/
def beforeExpr : Kind → Bool
  | keyword k => k.beforeExpr
  | punct p => p.beforeExpr
  | _ => false

/-- The token can start an expression. -/
def startsExpr : Kind → Bool
  | num | regexp | string | name | privateName => true
  | keyword k => k.startsExpr
  | punct p => p.startsExpr
  | _ => false

/-- The token opens a loop. -/
def isLoop : Kind → Bool
  | keyword k => k.isLoop
  | _ => false

/-- The token is an assignment operator. -/
def isAssign : Kind → Bool
  | punct p => p.isAssign
  | _ => false

/-- The token is an operator that can stand before its only operand. -/
def isUnaryBefore : Kind → Bool
  | keyword k => k.isUnary
  | punct p => p.isUnaryBefore
  | _ => false

/-- The token is an operator that can stand after its only operand. -/
def isUnaryAfter : Kind → Bool
  | punct p => p.isUnaryAfter
  | _ => false

/-- The precedence as a binary operator, zero for all others. -/
def precedence : Kind → Nat
  | keyword k => k.precedence
  | punct p => p.precedence
  | _ => 0

end Kind

end ScriptTidy
