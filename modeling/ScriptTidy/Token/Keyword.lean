import ScriptTidy.Text.Bytes

/-!
# Reserved words

The reserved words of the language and what each of them tells about the tokens around it.
Contextual words such as `let`, `yield`, `async` and `of` are plain names.
-/

namespace ScriptTidy

/-- A reserved word. -/
inductive Keyword
  | breakKw | caseKw | catchKw | continueKw | debuggerKw | defaultKw | doKw | elseKw
  | finallyKw | forKw | functionKw | ifKw | returnKw | switchKw | throwKw | tryKw | varKw
  | constKw | whileKw | withKw | newKw | thisKw | superKw | classKw | extendsKw | exportKw
  | importKw | nullKw | trueKw | falseKw | inKw | instanceofKw | typeofKw | voidKw | deleteKw
deriving DecidableEq, Repr

namespace Keyword

/-- The spelling of the word. -/
def word : Keyword → String
  | breakKw => "break"
  | caseKw => "case"
  | catchKw => "catch"
  | continueKw => "continue"
  | debuggerKw => "debugger"
  | defaultKw => "default"
  | doKw => "do"
  | elseKw => "else"
  | finallyKw => "finally"
  | forKw => "for"
  | functionKw => "function"
  | ifKw => "if"
  | returnKw => "return"
  | switchKw => "switch"
  | throwKw => "throw"
  | tryKw => "try"
  | varKw => "var"
  | constKw => "const"
  | whileKw => "while"
  | withKw => "with"
  | newKw => "new"
  | thisKw => "this"
  | superKw => "super"
  | classKw => "class"
  | extendsKw => "extends"
  | exportKw => "export"
  | importKw => "import"
  | nullKw => "null"
  | trueKw => "true"
  | falseKw => "false"
  | inKw => "in"
  | instanceofKw => "instanceof"
  | typeofKw => "typeof"
  | voidKw => "void"
  | deleteKw => "delete"

/-- All reserved words. -/
def all : List Keyword :=
  [.breakKw, .caseKw, .catchKw, .continueKw, .debuggerKw, .defaultKw, .doKw, .elseKw, .finallyKw,
   .forKw, .functionKw, .ifKw, .returnKw, .switchKw, .throwKw, .tryKw, .varKw, .constKw,
   .whileKw, .withKw, .newKw, .thisKw, .superKw, .classKw, .extendsKw, .exportKw, .importKw,
   .nullKw, .trueKw, .falseKw, .inKw, .instanceofKw, .typeofKw, .voidKw, .deleteKw]

/-- The reserved word with this spelling. -/
def ofWord? (text : Bytes) : Option Keyword := all.find? fun k => utf8 k.word == text

/-- An expression may follow the word, so a slash after it starts a regular expression. -/
def beforeExpr : Keyword → Bool
  | .caseKw | .defaultKw | .doKw | .elseKw | .returnKw | .throwKw | .newKw | .extendsKw
  | .inKw | .instanceofKw | .typeofKw | .voidKw | .deleteKw => true
  | _ => false

/-- The word can start an expression. -/
def startsExpr : Keyword → Bool
  | .functionKw | .newKw | .thisKw | .superKw | .classKw | .importKw | .nullKw | .trueKw
  | .falseKw | .typeofKw | .voidKw | .deleteKw => true
  | _ => false

/-- The word opens a loop. -/
def isLoop : Keyword → Bool
  | .doKw | .forKw | .whileKw => true
  | _ => false

/-- The word is an operator written before its operand. -/
def isUnary : Keyword → Bool
  | .typeofKw | .voidKw | .deleteKw => true
  | _ => false

/-- The precedence of the word as a binary operator, zero if it is none. -/
def precedence : Keyword → Nat
  | .inKw | .instanceofKw => 7
  | _ => 0

end Keyword

end ScriptTidy
