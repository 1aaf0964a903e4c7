import ScriptTidy.EditScript.LineDiff
import ScriptTidy.Markup.Token
import ScriptTidy.SourceMap.Lookup
import ScriptTidy.Token.Dump

/-!
# Tools

Splitting a document into tokens, finding the edits between two texts, reading a source map again
and showing a token are left to tools. A task or a service works with any of them.
-/

namespace ScriptTidy

/-- The tools that tasks and services work with. -/
structure Tools where
  /-- Splits a document into tokens. -/
  split : Bytes → List Markup.MarkupToken
  /-- Finds edits of whole lines that turn one text into another. -/
  edits : (before after : Bytes) → List (Edit UInt8)
  /-- Says where a place of generated text came from, by the name of the file with the text and by
  the text of its map. -/
  consult : (file text : Bytes) → Place → Reading
  /-- Shows a token to people who look for errors. -/
  dump : Token → Bytes

/-- The tools of this library. -/
def Tools.standard : Tools where
  split := Markup.tokens
  edits := lineScript
  consult := readOrigin
  dump := Token.dump

end ScriptTidy
