import ScriptTidy.Failure
import ScriptTidy.Layout.Options

/-!
# The configuration

What a configuration file can set, which settings are refused, and the formatting options that
follow from the rest.
-/

namespace ScriptTidy

/-- The settings of a configuration file. -/
structure Config where
  /-- Spaces per level of indentation. -/
  indentSize : Int := 0
  /-- Whether to indent with tabs instead. -/
  tabs : Bool := false
  url : Bytes := []
  leadingNewline : Bool := false
  originalStartLine : Int := 0
  originalStartColumn : Int := 0
  generatedStartLine : Int := 0
deriving DecidableEq, Repr

namespace Config

/-- Two spaces per level, and nothing else set. -/
def standard : Config := { indentSize := 2 }

/-- The settings that must not be negative, in the order in which they are checked. -/
def counts (c : Config) : List (String × Int) := [
  ("indent_size", c.indentSize),
  ("original_start_line", c.originalStartLine),
  ("original_start_column", c.originalStartColumn),
  ("generated_start_line", c.generatedStartLine)]

/-- What is wrong with a configuration: the first setting that is negative. -/
def fault? (c : Config) : Option Failure :=
  (c.counts.find? fun entry => entry.2 < 0).map fun entry =>
    .plain (utf8 entry.1 ++ utf8 " must not be negative, got " ++ intDecimal entry.2)

/-- The largest number of bytes that can be addressed. -/
def addressable : Int := 0x1000000000000

/-- What is written for one level of indentation. There is nothing to write for a negative
number of spaces, or for more than can be addressed. -/
def indent? (c : Config) : Option Bytes :=
  if c.tabs then some [0x09]
  else if c.indentSize < 0 ∨ addressable < c.indentSize then none
  else some (List.replicate c.indentSize.toNat 0x20)

/-- The formatting options that a configuration describes, with the given indentation. -/
def optionsWith (c : Config) (indent : Bytes) : Options :=
  { indent, url := c.url, leadingNewline := c.leadingNewline
    originalStartLine := c.originalStartLine, originalStartColumn := c.originalStartColumn
    generatedStartLine := c.generatedStartLine }

/-- The formatting options that a configuration describes. -/
def options? (c : Config) : Option Options := c.indent?.map c.optionsWith

end Config

end ScriptTidy
