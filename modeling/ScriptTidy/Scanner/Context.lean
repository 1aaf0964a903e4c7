import ScriptTidy.Token.Kind

/-!
# The syntactic context of a token

A slash can start a regular expression or be a division, and a closing brace can end a block,
an object literal or a template substitution. Which one it is depends on the open brackets and
functions around it, which the scanner tracks without parsing: `Situation.after` says how one
token changes what is open and whether an expression may come next.

The outermost context of a program is always a block, so the stack of a `Situation` lists only
what is open inside of it, innermost first.
-/

namespace ScriptTidy

/-- Something open around a token. -/
inductive Context
  /-- A block of statements in braces. -/
  | block
  /-- An expression in braces: an object literal or a pattern. -/
  | object
  /-- A substitution in a template literal. -/
  | substitution
  /-- The parentheses of a statement's head, as after `if`. -/
  | head
  /-- Any other parentheses. -/
  | group
  /-- The text of a template literal. -/
  | template
  /-- A function or class declaration up to the end of its body. -/
  | declaration
  /-- A function or class expression up to the end of its body. -/
  | functionExpr
deriving DecidableEq, Repr

namespace Context

/-- What has ended with the context is an expression, so an operator may follow. -/
def isExpr : Context → Bool
  | object | group | template | functionExpr => true
  | _ => false

/-- The context was opened by a function or class. -/
def isFunction : Context → Bool
  | declaration | functionExpr => true
  | _ => false

end Context

/-- What the scanner knows about the surroundings of the next token. -/
structure Situation where
  /-- What is open inside the outermost block, innermost first. -/
  opened : List Context := []
  /-- Whether an expression may start, so that a slash starts a regular expression. -/
  exprAllowed : Bool := true
  /-- Whether a line ended between the last two tokens. -/
  newlineBefore : Bool := false
deriving DecidableEq, Repr

namespace Situation

/-- The innermost context. -/
def innermost (s : Situation) : Context := s.opened.headD .block

/-- The situation with one more context open. -/
def opening (s : Situation) (c : Context) : Situation := { s with opened := c :: s.opened }

/-- Whether an opening brace after a token of kind `prev` starts a block, rather than an
expression. -/
def braceIsBlock (s : Situation) (prev : Kind) : Bool :=
  let parent := s.innermost
  if parent.isFunction then true
  else if prev = .punct .colon && (parent = .block || parent = .object) then !parent.isExpr
  else if prev = .keyword .returnKw || (prev = .name && s.exprAllowed) then s.newlineBefore
  else match prev with
    | .keyword .elseKw | .punct .semi | .eof | .punct .parenR | .punct .arrow => true
    | .punct .braceL => parent = .block
    | .keyword .varKw | .keyword .constKw | .name => false
    | _ => !s.exprAllowed

/-- Whether `function` or `class` after a token of kind `prev` is part of an expression. -/
def functionIsExpr (s : Situation) (prev : Kind) : Bool :=
  prev.beforeExpr && prev != .keyword .elseKw
    && !(prev == .punct .semi && s.innermost != .head)
    && !(prev == .keyword .returnKw && s.newlineBefore)
    && !((prev == .punct .colon || prev == .punct .braceL) && s.innermost == .block)

/-- The situation after a closing parenthesis or brace. It closes the innermost context, and a
block that was the body of a function closes the function with it. -/
def closing (s : Situation) : Situation :=
  match s.opened with
  | [] => { s with exprAllowed := true }
  | .block :: outer :: rest =>
    if outer.isFunction then { s with opened := rest, exprAllowed := !outer.isExpr }
    else { s with opened := outer :: rest, exprAllowed := true }
  | closed :: rest => { s with opened := rest, exprAllowed := !closed.isExpr }

/-- The situation after a token of kind `kind` and value `value` that follows one of kind
`prev`. A reserved word after a dot is a property name and opens nothing. -/
def after (s : Situation) (kind prev : Kind) (value : Bytes) : Situation :=
  if kind.isKeyword && prev = .punct .dot then { s with exprAllowed := false }
  else match kind with
    | .punct .parenR | .punct .braceR => s.closing
    | .punct .braceL =>
      { s.opening (if s.braceIsBlock prev then .block else .object) with exprAllowed := true }
    | .punct .dollarBraceL => { s.opening .substitution with exprAllowed := true }
    | .punct .parenL =>
      let isHead := match prev with
        | .keyword .ifKw | .keyword .forKw | .keyword .withKw | .keyword .whileKw => true
        | _ => false
      { s.opening (if isHead then .head else .group) with exprAllowed := true }
    | .punct .plusPlus | .punct .minusMinus => s
    | .keyword .functionKw | .keyword .classKw =>
      { s.opening (if s.functionIsExpr prev then .functionExpr else .declaration) with
        exprAllowed := false }
    | .punct .backQuote =>
      if s.innermost = .template then { s with opened := s.opened.tail, exprAllowed := false }
      else { s.opening .template with exprAllowed := false }
    | .name =>
      -- `yield` and `await` take an operand, and so does `of` in the head of a loop
      let takesOperand :=
        (value == utf8 "of" && !s.exprAllowed) || value == utf8 "yield" || value == utf8 "await"
      { s with exprAllowed := prev != .punct .dot && takesOperand }
    | _ => { s with exprAllowed := kind.beforeExpr }

end Situation

end ScriptTidy
