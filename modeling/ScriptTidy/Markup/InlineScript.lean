import ScriptTidy.Layout.Format
import ScriptTidy.LineMap
import ScriptTidy.Markup.Token
import ScriptTidy.Metric
import ScriptTidy.Text.LowerCase

/-!
# Formatting the scripts of a document

A document is copied with the text of every inline script formatted. A script is inline if its
start tag names no source and a type of script that is formatted. The mappings of all scripts
lie in one source map, with positions in the whole document; an error in a script is reported
at its position in the document.
-/

namespace ScriptTidy

namespace InlineScript

/-- The types of scripts that are formatted. -/
def scriptTypes : List String :=
  ["", "module", "text/javascript", "application/javascript", "text/ecmascript",
   "application/ecmascript", "application/x-javascript", "text/jsx"]

/-- Whether the value of a type attribute names a type that is formatted. Parameters behind a
semicolon, white space around the name and case play no part. -/
def isScriptType (value : Bytes) : Bool :=
  let name := trimBlank (value.takeWhile (· != 0x3B))
  scriptTypes.any fun t => utf8 t == lowerText name

/-- The value of the last type attribute, empty if there is none. -/
def typeOf (attributes : List Markup.Attribute) : Bytes :=
  match (attributes.filter fun a => a.key == utf8 "type").getLast? with
  | some a => a.value
  | none => []

/-- Whether the tag opens an inline script. -/
def opensScript (tag : Markup.Tag) : Bool :=
  tag.name == utf8 "script"
    && !tag.attributes.any (fun a => a.key == utf8 "src")
    && isScriptType (typeOf tag.attributes)

/-- Whether a text behind the token is the text of an inline script, given whether one behind
the token before it is. -/
def opensAfter (inside : Bool) : Markup.TokenKind → Bool
  | .startTag tag => opensScript tag
  | .endTag | .selfClosingTag _ => false
  | _ => inside

/-- A position in a script as a position in the document, given where the script starts. -/
def shiftPosition (pos start : Position) : Position :=
  { line := pos.line + (start.line - 1)
    column := if pos.line = 1 then pos.column + start.column else pos.column
    offset := pos.offset + start.offset }

/-- How a document is called in messages. -/
def documentName (url : Bytes) : Bytes := if url.isEmpty then utf8 "<document>" else url

/-- What is counted when a script was formatted or could not be. -/
def formatMetrics : Except Failure Formatted → List Metric
  | .ok _ => [.inputRecorded, .tokensRecorded, .prettified]
  | .error _ => [.inputRecorded, .tokenizeError, .prettified]

/-- The part of a document that is done. -/
structure Progress where
  /-- What is written, in pieces, the latest first. -/
  written : List Bytes := []
  /-- The line of the output, from one, that the next piece starts on. -/
  line : Nat := 1
  /-- The offset of the next token in the document. -/
  offset : Nat := 0
  scripts : Nat := 0
  mappings : List Mapping := []
  /-- Whether the next text is the text of an inline script. -/
  inside : Bool := false
  metrics : List Metric := [.document]

/-- The number of line feeds in a text. -/
def countLines (text : Bytes) : Nat := text.count 0x0A

/-- Copies a text to the output. -/
def Progress.write (p : Progress) (text : Bytes) : Progress :=
  { p with written := text :: p.written, line := p.line + countLines text }

/-- Where the next token lies in the document. -/
def Progress.start (p : Progress) (lines : LineMap) : Position :=
  let (line, column) := lines.lineColumn p.offset
  ⟨line + 1, column, p.offset⟩

/-- The options for a script that starts at a position of the document and is written on a line
of the output. -/
def scriptOptions (o : Options) (start : Position) (line : Nat) : Options :=
  { o with
    leadingNewline := true
    originalStartLine := start.line
    originalStartColumn := start.column
    generatedStartLine := line }

/-- The failure of a script as a failure of the document. -/
def documentFailure (o : Options) (start : Position) (f : Failure) : Failure :=
  match f.positioned? with
  | some e =>
    .within (utf8 "tokenizing inline script in " ++ documentName o.url)
      (.positioned { e with pos := shiftPosition e.pos start })
  | none => f

/-- Formats a script. -/
def Progress.script (p : Progress) (o : Options) (lines : LineMap) (body : Bytes) :
    Except Failure Progress × List Metric :=
  let start := p.start lines
  let result := format (scriptOptions o start p.line) body
  let metrics := p.metrics ++ formatMetrics result
  match result with
  | .ok f =>
    let p := p.write f.code
    let metrics := metrics ++ [.inlineScript]
    (.ok { p with
      scripts := p.scripts + 1, mappings := p.mappings ++ f.mappings, metrics := metrics },
      metrics)
  | .error f => (.error (documentFailure o start f), metrics ++ [.inlineScriptError])

/-- Whether a text is a script to format. -/
def isScriptText (inside : Bool) (t : Markup.MarkupToken) : Bool :=
  inside && t.kind == .text && !(trimBlank t.raw).isEmpty

/-- Copies or formats tokens. -/
def run (o : Options) (lines : LineMap) :
    Progress → List Markup.MarkupToken → Except Failure Progress × List Metric
  | p, [] => (.ok p, p.metrics)
  | p, t :: rest =>
    let next := fun (p : Progress) =>
      { p with offset := p.offset + t.raw.length, inside := opensAfter p.inside t.kind }
    if isScriptText p.inside t then
      match p.script o lines t.raw with
      | (.ok p, _) => run o lines (next p) rest
      | (.error f, metrics) => (.error f, metrics)
    else run o lines (next (p.write t.raw)) rest

end InlineScript

/-- A document with its scripts formatted. -/
structure FormattedDocument where
  code : Bytes
  /-- The number of scripts that were formatted. -/
  scripts : Nat
  /-- Where each token of the scripts came from. -/
  mappings : List Mapping

/-- Formats the inline scripts of a document that is split into tokens, and tells what is counted
on the way. -/
def formatSplit (o : Options) (document : Bytes) (tokens : List Markup.MarkupToken) :
    Except Failure FormattedDocument × List Metric :=
  match InlineScript.run o (LineMap.ofText document) {} tokens with
  | (.ok p, metrics) => (.ok ⟨p.written.reverse.flatten, p.scripts, p.mappings⟩, metrics)
  | (.error f, metrics) => (.error f, metrics)

/-- Formats the inline scripts of a document. -/
def formatDocument (o : Options) (document : Bytes) :
    Except Failure FormattedDocument × List Metric :=
  formatSplit o document (Markup.tokens document)

end ScriptTidy
