import ScriptTidy.Yaml.Cursor

/-!
# The tokens of YAML
-/

namespace ScriptTidy.Yaml

/-- What a token is. -/
inductive TokenKind
  | streamEnd
  | versionDirective (major minor : Nat)
  | tagDirective (handle uri : Bytes)
  | documentStart
  | documentEnd
  | blockSequenceStart
  | blockMappingStart
  | blockEnd
  | flowSequenceStart
  | flowSequenceEnd
  | flowMappingStart
  | flowMappingEnd
  | blockEntry
  | flowEntry
  | key
  | value
  | alias (name : List Char)
  | anchor (name : List Char)
  | tag (handle suffix : Bytes)
  /-- A scalar; `plain` tells whether it stands without quotes or block indicators. -/
  | scalar (text : List Char) (plain : Bool)
deriving DecidableEq, Repr

/-- A token with its place in the text. -/
structure Token where
  kind : TokenKind
  start : Mark
  stop : Mark
deriving DecidableEq, Repr

end ScriptTidy.Yaml
