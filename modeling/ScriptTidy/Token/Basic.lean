import ScriptTidy.Text.Quoted
import ScriptTidy.Token.Kind

/-!
# Tokens

A token is a kind, a value and the span of the source it was read from. Positions count lines
from one and columns from zero, in UTF-16 units, so that they line up with what browsers report.
-/

namespace ScriptTidy

/-- A place in a source: line from one, column from zero in UTF-16 units, and byte offset. -/
structure Position where
  line : Int
  column : Int
  offset : Int
deriving DecidableEq, Repr, Inhabited

/-- The line and the column, as messages show them. -/
def Position.render (p : Position) : Bytes :=
  intDecimal p.line ++ utf8 ":" ++ intDecimal p.column

/-- One token or comment. The value is the word of a name or reserved word, the raw text of a
number, regular expression or template chunk, the decoded contents of a string, a private name
without its hash, and a comment without its delimiters; punctuators have none. -/
structure Token where
  kind : Kind
  value : Bytes
  start : Position
  stop : Position
deriving DecidableEq, Repr

namespace Token

/-- Whether the token is a comment. -/
def isComment (t : Token) : Bool := t.kind.isComment

theorem isComment_of_kind {t : Token} {kind : Kind} (h : t.kind = kind) :
    t.isComment = kind.isComment := congrArg Kind.isComment h

/-- The token as messages show it: position, kind and, unless empty, the quoted value. A token
without a value shows its kind in quotes. -/
def render (t : Token) : Bytes :=
  let label := utf8 t.kind.label
  if t.value.isEmpty then t.start.render ++ utf8 " " ++ Quoted.quote label
  else t.start.render ++ utf8 " " ++ label ++ utf8 " " ++ Quoted.quote t.value

end Token

/-- An error at a position in a source. -/
structure PositionedError where
  pos : Position
  message : Bytes
deriving DecidableEq, Repr

/-- The message with the line and column in front. -/
def PositionedError.render (e : PositionedError) : Bytes :=
  e.pos.render ++ utf8 ": " ++ e.message

end ScriptTidy
