import ScriptTidy.Layout.Frame
import ScriptTidy.Token.Basic

/-!
# Spacing rules

Which white space stands between two neighbouring tokens, as far as the two of them decide it.
-/

namespace ScriptTidy

/-- What the formatter remembers about the token before the current one. -/
structure LastToken where
  kind : Kind
  value : Bytes
  stopLine : Int
deriving DecidableEq, Repr

namespace Rules

/-- The binary operators that join the lines around them. -/
def isJoiningOperator : Kind → Bool
  | .punct .star | .punct .slash | .punct .percent | .punct .starStar | .punct .shl | .punct .shr
  | .punct .ushr | .punct .less | .punct .greater | .punct .lessEq | .punct .greaterEq
  | .punct .equal | .punct .notEqual | .punct .strictEqual | .punct .strictNotEqual
  | .punct .bitAnd | .punct .bitXor | .punct .bitOr | .punct .andAnd | .punct .orOr
  | .punct .coalesce | .keyword .instanceofKw | .keyword .inKw => true
  | k => k.isAssign

/-- The tokens that cannot end a statement. -/
def cannotEndStatement : Kind → Bool
  | .punct .plus | .punct .minus | .punct .dot | .punct .tilde | .punct .not | .punct .parenL
  | .punct .comma | .keyword .deleteKw | .keyword .voidKw | .keyword .typeofKw
  | .keyword .newKw => true
  | k => isJoiningOperator k

/-- The tokens that cannot start a statement. Plus and minus may be signs, so they can. -/
def cannotStartStatement : Kind → Bool
  | .punct .dot | .punct .parenL | .punct .comma => true
  | k => isJoiningOperator k

/-- The tokens after which a bracket opens an array literal, and not an index or a computed
property. -/
def precedesArrayLiteral : Kind → Bool
  | .keyword .typeofKw | .keyword .voidKw | .keyword .deleteKw | .keyword .caseKw | .keyword .doKw
  | .keyword .inKw | .keyword .elseKw | .keyword .instanceofKw
  | .punct .braceL | .punct .braceR | .punct .semi | .punct .comma | .punct .colon
  | .punct .question | .punct .star | .punct .slash | .punct .percent | .punct .plusPlus
  | .punct .minusMinus | .punct .plus | .punct .minus | .punct .tilde | .punct .not | .punct .shr
  | .punct .ushr | .punct .shl | .punct .orOr | .punct .andAnd | .punct .less | .punct .greater
  | .punct .lessEq | .punct .greaterEq | .punct .bitAnd | .punct .bitXor | .punct .bitOr
  | .punct .equal | .punct .notEqual | .punct .strictEqual | .punct .strictNotEqual => true
  | k => k.isAssign

/-- Whether a token of this kind opens an array literal. -/
def isArrayLiteral (kind : Kind) (last : Option LastToken) : Bool :=
  kind = .punct .bracketL &&
    match last with
    | none => true
    | some l => precedesArrayLiteral l.kind

/-- Whether a statement is taken to end between the last token and one of this kind that starts
on the line `startLine`: there is a line break, and either the last token ends its statement at
a line break or nothing joins the two lines. -/
def endsStatement (kind : Kind) (startLine : Int) (last : Option LastToken) : Bool :=
  match last with
  | none => false
  | some l =>
    if startLine ≤ l.stopLine then false
    else if l.kind = .keyword .returnKw ∨ (l.kind = .name ∧ l.value = utf8 "yield") then true
    else !(cannotEndStatement l.kind || cannotStartStatement kind)

/-- Whether a new line starts behind the token. -/
def endsLine (kind : Kind) (arrayLiteral : Bool) (frames : List Frame) : Bool :=
  arrayLiteral ||
    match kind with
    | .punct .semi | .punct .comma => frames.head? != some .paren
    | .punct .braceL => true
    | .punct .colon =>
      match frames.head? with
      | some .caseLabel | some .defaultLabel => true
      | _ => false
    | _ => false

/-- The tokens that would run together if written without a space between them. -/
def isWordLike : Kind → Bool
  | .name | .num | .privateName => true
  | k => k.isKeyword

/-- Whether the token always has a space behind it. -/
def wantsSpaceBehind (kind : Kind) : Bool :=
  kind.isLoop || kind.isAssign || kind.precedence != 0 ||
    match kind with
    | .punct .question | .punct .colon | .punct .comma | .punct .semi
    | .punct .dollarBraceL => true
    | _ => false

/-- The tokens written directly behind a closing parenthesis. -/
def hugsParen : Kind → Bool
  | .punct .parenR | .punct .bracketR | .punct .semi | .punct .comma | .punct .dot => true
  | _ => false

/-- Whether the reserved word `last` by itself puts a space in front of a token that is not a
dot; nothing if other rules decide. -/
def spaceBehindKeyword? (last : Keyword) (kind : Kind) : Option Bool :=
  match last with
  | .breakKw | .continueKw | .returnKw => some (kind != .punct .semi)
  | .debuggerKw | .nullKw | .trueKw | .falseKw | .thisKw | .defaultKw => none
  | _ => some true

/-- Whether the kinds of two neighbouring tokens put a space between them. -/
def spaceBetween (last kind : Kind) : Bool :=
  wantsSpaceBehind last
    || (last == .num && kind == .punct .dot)
    || match (if kind = .punct .dot then none
          else last.keyword?.bind (spaceBehindKeyword? · kind)) with
      | some answer => answer
      | none =>
        (last == .punct .parenR && !hugsParen kind)
          || (isWordLike kind && isWordLike last)
          || (kind == .punct .braceL && last == .name)

/-- Whether a space is written in front of a token if nothing else was. -/
def needsSpace (kind : Kind) (last : Option LastToken) : Bool :=
  (match last with
    | some l => spaceBetween l.kind kind || kind.precedence != 0
    | none => false)
    || kind.isAssign || kind == .punct .question

/-- The words that stay on the line of a closing brace. -/
def continuesAfterBrace : Kind → Bool
  | .keyword .elseKw | .keyword .catchKw | .keyword .finallyKw => true
  | _ => false

/-- The tokens that continue an expression which ends with a brace. -/
def hugsBrace : Kind → Bool
  | .punct .parenL | .punct .semi | .punct .comma | .punct .parenR | .punct .dot | .template
  | .punct .backQuote => true
  | _ => false

end Rules

end ScriptTidy
