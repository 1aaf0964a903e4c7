import ScriptTidy.Layout.Emission
import ScriptTidy.SourceMap.Basic

/-!
# Formatting a token list

The output is what is written for the tokens one after the other, and each token's mapping
starts where its text does. The place in the output is counted along with the writing: lines by
line feeds, columns in UTF-16 units.
-/

namespace ScriptTidy

/-- The place behind a piece of output. Only a line feed starts a new line. -/
def Place.behind (p : Place) (piece : Bytes) : Place :=
  (Utf8.chars piece).foldl (fun p c =>
    if c == '\n' then ⟨p.line + 1, 0⟩ else ⟨p.line, p.column + utf16Width c⟩) p

/-- The place behind several pieces of output. -/
def Place.behindAll (p : Place) (pieces : List Bytes) : Place := pieces.foldl Place.behind p

namespace Layout

/-- The mappings of the emissions, the first of which is written at `p`. -/
def mappingsFrom (o : Options) : Place → List Emission → List Mapping
  | _, [] => []
  | p, e :: rest =>
    let textStart := p.behindAll e.gap
    let mapped : List Mapping :=
      match e.original with
      | some start => [⟨o.generatedPlace textStart, o.originalPlace start, o.url, []⟩]
      | none => []
    mapped ++ mappingsFrom o ((textStart.behind e.text).behindAll e.after) rest

end Layout

/-- A formatted script. -/
structure Formatted where
  code : Bytes
  /-- The number of tokens, comments included. -/
  tokens : Nat
  /-- Where each token came from, in order. -/
  mappings : List Mapping

/-- The source map of a formatted script, for a generated file of the given name. -/
def Formatted.sourceMap (f : Formatted) (file : Bytes) : SourceMap :=
  ({ file := file } : SourceMap).addAll f.mappings

/-- Formats a list of tokens, with comments between the others in the order of the source. -/
def formatTokens (o : Options) (tokens : List Token) : Formatted :=
  let leading : Bytes := if o.leadingNewline then [0x0A] else []
  let emissions := Layout.emissions o.indent tokens
  { code := leading ++ emissions.flatMap Emission.bytes
    tokens := tokens.length
    mappings := Layout.mappingsFrom o (Place.behind ⟨1, 0⟩ leading) emissions }

end ScriptTidy
