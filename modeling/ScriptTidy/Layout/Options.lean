import ScriptTidy.SourceMap.Basic
import ScriptTidy.Token.Basic

/-!
# Options of the formatter

What is written for one level of indentation, how the input is named, and where input and
output lie in the files they are parts of.
-/

namespace ScriptTidy

/-- How to format a script. -/
structure Options where
  /-- Written once per level of indentation. -/
  indent : Bytes
  /-- The name of the input in the source map. -/
  url : Bytes := []
  /-- Whether the output starts with an empty line. -/
  leadingNewline : Bool := false
  /-- The line, from one, on which the input starts in the file it is part of; zero shifts
  nothing. -/
  originalStartLine : Int := 0
  /-- The column of the input's first character in the file it is part of. -/
  originalStartColumn : Int := 0
  /-- The line, from one, at which the output will be placed; zero shifts nothing. -/
  generatedStartLine : Int := 0
deriving DecidableEq, Repr

namespace Options

/-- A line of a part of a file as a line of the file. -/
def shiftLine (startLine line : Int) : Int :=
  if 0 < startLine then wrap64 (line + wrap64 (startLine - 1)) else line

/-- Where a token of the input lies in the file that the input is part of. Only the first line
of the input does not start at a line's start. -/
def originalPlace (o : Options) (start : Position) : Place :=
  { line := shiftLine o.originalStartLine start.line
    column :=
      if start.line = 1 ∧ 0 < o.originalStartColumn then
        wrap64 (start.column + o.originalStartColumn)
      else start.column }

/-- Where a place of the output lies in the file it is put into. -/
def generatedPlace (o : Options) (p : Place) : Place :=
  { p with line := shiftLine o.generatedStartLine p.line }

end Options

end ScriptTidy
