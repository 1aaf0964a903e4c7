import ScriptTidy.Failure
import ScriptTidy.Layout.Basic
import ScriptTidy.Scanner.Basic

/-!
# Formatting a source
-/

namespace ScriptTidy

/-- How an input is called in messages. -/
def displayName (url : Bytes) : Bytes := if url.isEmpty then utf8 "<input>" else url

/-- Splits a source into tokens and writes them with regular white space and indentation. -/
def format (o : Options) (source : Bytes) : Except Failure Formatted :=
  match tokenize source with
  | .ok tokens => .ok (formatTokens o tokens)
  | .error e =>
    .error (.within (utf8 "tokenizing " ++ displayName o.url) (.positioned e.toPositioned))

end ScriptTidy
