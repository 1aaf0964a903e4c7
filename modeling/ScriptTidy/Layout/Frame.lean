import ScriptTidy.Token.Kind

/-!
# Frames of the layout

The formatter keeps a stack of what is open around a token: brackets, conditional operators and
the statements whose parts are laid out on lines of their own. The stack is a list with the
innermost frame first; closing a frame of an empty stack changes nothing.
-/

namespace ScriptTidy

/-- Something open around a token that changes its layout. -/
inductive Frame
  | brace
  | paren
  | bracket
  /-- A bracket that opens an array literal, with each element on its own line. -/
  | arrayLiteral
  /-- A conditional operator before its colon. -/
  | ternary
  /-- A substitution in a template literal. -/
  | substitution
  /-- The body of a `do` loop up to its `while`. -/
  | doBody
  /-- A `switch` up to the end of its body. -/
  | switchBody
  /-- A `case` label up to its colon. -/
  | caseLabel
  /-- A `default` label up to its colon. -/
  | defaultLabel
deriving DecidableEq, Repr

namespace Frame

/-- The frame that a token opens. -/
def opened? (kind : Kind) (arrayLiteral : Bool) : Option Frame :=
  match kind with
  | .punct .braceL => some brace
  | .punct .parenL => some paren
  | .punct .bracketL => some (if arrayLiteral then .arrayLiteral else bracket)
  | .punct .question => some ternary
  | .punct .dollarBraceL => some substitution
  | .keyword .doKw => some doBody
  | .keyword .switchKw => some switchBody
  | .keyword .caseKw => some caseLabel
  | .keyword .defaultKw => some defaultLabel
  | _ => none

/-- Whether the token closes the innermost frame. -/
def closes (kind : Kind) (frames : List Frame) : Bool :=
  match kind with
  | .punct .bracketR | .punct .parenR | .punct .braceR => true
  | .punct .colon =>
    match frames.head? with
    | some caseLabel | some defaultLabel | some ternary => true
    | _ => false
  | .keyword .whileKw => frames.head? == some doBody
  | _ => false

/-- Whether the token goes back one level before it is written. -/
def dedents (kind : Kind) (frames : List Frame) : Bool :=
  match kind with
  | .punct .braceR => frames.head? != some substitution
  | .punct .bracketR => frames.head? == some .arrayLiteral
  | _ => false

/-- Whether what follows the token is one level deeper. -/
def indents (kind : Kind) (arrayLiteral : Bool) : Bool :=
  match kind with
  | .punct .braceL | .keyword .switchKw => true
  | _ => arrayLiteral

/-- The stack after a token. The brace that closes the body of a `switch` closes the `switch`
too. -/
def afterToken (kind : Kind) (frames : List Frame) : List Frame :=
  if closes kind frames then
    match kind, frames.tail with
    | .punct .braceR, switchBody :: outer => outer
    | _, outer => outer
  else frames

end Frame

end ScriptTidy
