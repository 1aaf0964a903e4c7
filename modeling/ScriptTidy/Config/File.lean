import ScriptTidy.Config.Basic
import ScriptTidy.Yaml.Node
import ScriptTidy.Yaml.Scalar

/-!
# Configuration files

A configuration file is a YAML mapping of settings. Unknown and repeated settings and values of
the wrong kind are faults. They are collected, so that they are reported together; a fault of
the text itself ends the reading at once. A file with nothing in it keeps the standard
configuration.
-/

namespace ScriptTidy.Config

/-- A setting of the file. -/
inductive Setting
  | indentSize
  | tabs
  | url
  | leadingNewline
  | originalStartLine
  | originalStartColumn
  | generatedStartLine
deriving DecidableEq, Repr

namespace Setting

/-- All settings. -/
def all : List Setting := [indentSize, tabs, url, leadingNewline, originalStartLine,
  originalStartColumn, generatedStartLine]

/-- The key of a setting. -/
def key : Setting → Bytes
  | indentSize => utf8 "indent_size"
  | tabs => utf8 "tabs"
  | url => utf8 "url"
  | leadingNewline => utf8 "prefix_newline"
  | originalStartLine => utf8 "original_start_line"
  | originalStartColumn => utf8 "original_start_column"
  | generatedStartLine => utf8 "generated_start_line"

/-- The setting with a key. -/
def ofKey? (key : Bytes) : Option Setting := all.find? fun s => s.key = key

/-- The kind of value that a setting takes, as messages name it. -/
def typeName : Setting → Bytes
  | tabs | leadingNewline => utf8 "bool"
  | url => utf8 "string"
  | _ => utf8 "int"

end Setting

/-- The configuration with a setting changed to a number. -/
def setInt (c : Config) (n : Int) : Setting → Option Config
  | .indentSize => some { c with indentSize := n }
  | .originalStartLine => some { c with originalStartLine := n }
  | .originalStartColumn => some { c with originalStartColumn := n }
  | .generatedStartLine => some { c with generatedStartLine := n }
  | _ => none

/-- The configuration with a setting changed to a truth value. -/
def setBool (c : Config) (b : Bool) : Setting → Option Config
  | .tabs => some { c with tabs := b }
  | .leadingNewline => some { c with leadingNewline := b }
  | _ => none

/-- The configuration with a setting changed back to nothing. -/
def unset (c : Config) : Setting → Config
  | .indentSize => { c with indentSize := 0 }
  | .tabs => { c with tabs := false }
  | .url => { c with url := [] }
  | .leadingNewline => { c with leadingNewline := false }
  | .originalStartLine => { c with originalStartLine := 0 }
  | .originalStartColumn => { c with originalStartColumn := 0 }
  | .generatedStartLine => { c with generatedStartLine := 0 }

open Yaml (Node Scalar Fault)

/-- A configuration on its way out of a file, with the faults found so far. -/
structure Reading where
  config : Config
  faults : List Bytes := []
  /-- How many nodes have been visited, counting a node as often as it is. -/
  visits : Nat := 0
  /-- How many of them have been reached through an alias. -/
  aliased : Nat := 0

/-- Whether too many of the visits to nodes go through aliases. Small files may have 99 of 100
there, very large ones 10 of 100, and those between them a share that falls evenly. -/
def isExcessive (visits aliased : Nat) : Bool :=
  let low := 400000
  let span := 3600000
  let beyond := min (visits - low) span
  100 < aliased && 1000 < visits && visits * (99 * span - 89 * beyond) < 100 * span * aliased

/-- One more visit to a node. -/
def Reading.visit (r : Reading) (throughAlias : Bool) : Except Fault Reading :=
  let visits := r.visits + 1
  let aliased := if throughAlias then r.aliased + 1 else r.aliased
  if isExcessive visits aliased then .error (.ofText "document contains excessive aliasing")
  else .ok { r with visits, aliased }

/-- One more fault, at a line from zero. -/
def Reading.addFault (r : Reading) (line : Nat) (text : Bytes) : Reading :=
  { r with faults := r.faults ++ [utf8 "line " ++ natDecimal (line + 1) ++ utf8 ": " ++ text] }

/-- Whether a tag is that of a sequence or of a mapping. -/
def isCollectionTag (tag : Bytes) : Bool :=
  tag == Yaml.standardTag ++ utf8 "seq" || tag == Yaml.standardTag ++ utf8 "map"

/-- The text of a scalar as messages show it: long ones are cut. If the tag is that of a
collection, the text stands directly behind it. -/
def excerpt (tag text : Bytes) : Bytes :=
  if isCollectionTag tag then text
  else utf8 " \x60" ++ (if 10 < text.length then text.take 7 ++ utf8 "..." else text) ++ utf8 "\x60"

/-- The fault of a value of the wrong kind. -/
def wrongKind (kind shown target : Bytes) : Bytes :=
  utf8 "cannot unmarshal " ++ kind ++ shown ++ utf8 " into " ++ target

/-- The fault of a collection where something else belongs. -/
def wrongCollection (isMapping : Bool) (target : Bytes) : Bytes :=
  wrongKind (utf8 (if isMapping then "!!map" else "!!seq")) [] target

/-- The name of the whole configuration in messages. -/
def typeName : Bytes := utf8 "prettyfast.Config"

/-- The meaning of a scalar node, and the tag by which messages call its kind. -/
def scalarMeaning (tag : Bytes) (implicit : Bool) (text : List Char) :
    Except Fault (Scalar × Bytes) := do
  let text := Utf8.encodeChars text
  if tag.isEmpty then
    let meaning := if implicit then Scalar.ofPlain true text else .text text
    return (meaning, meaning.kindTag)
  return (← Scalar.ofTagged tag text, Yaml.shortTag tag)

/-- The value that a scalar gives to a setting; none if it is of the wrong kind. -/
def setScalar (c : Config) (s : Setting) (meaning : Scalar) (text : Bytes) : Option Config :=
  match meaning, s with
  | .null, _ => some (c.unset s)
  | .text value, .url => some { c with url := value }
  | _, .url => some { c with url := text }
  | .int n, _ => if n < halfWord then c.setInt n s else none
  | .real x, _ => (Scalar.truncated? x).bind fun n => c.setInt n s
  | .bool b, _ => c.setBool b s
  | _, _ => none

/-- Gives a setting the value of a node. -/
def readSetting (throughAlias : Bool) (r : Reading) (s : Setting) : Node → Except Fault Reading
  | .scalar line tag implicit text => do
    let r ← r.visit throughAlias
    let (meaning, kind) ← scalarMeaning tag implicit text
    let text := Utf8.encodeChars text
    match r.config.setScalar s meaning text with
    | some config => return { r with config }
    | none => return r.addFault line (wrongKind kind (excerpt tag text) s.typeName)
  | .sequence line _ => do
    return (← r.visit throughAlias).addFault line (wrongCollection false s.typeName)
  | .mapping line _ => do
    return (← r.visit throughAlias).addFault line (wrongCollection true s.typeName)
  | .alias _ _ target => do readSetting true (← r.visit throughAlias) s target
  | .enclosing _ _ isMapping line => do
    let r ← (← r.visit throughAlias).visit true
    return r.addFault line (wrongCollection isMapping s.typeName)

/-- The text of a key; none, with a fault, for a key that is a collection. -/
def readKey (throughAlias : Bool) (r : Reading) : Node → Except Fault (Option Bytes × Reading)
  | .scalar _ tag implicit text => do
    let r ← r.visit throughAlias
    let (meaning, _) ← scalarMeaning tag implicit text
    match meaning with
    | .null => return (some [], r)
    | .text value => return (some value, r)
    | _ => return (some (Utf8.encodeChars text), r)
  | .sequence line _ => do
    return (none, (← r.visit throughAlias).addFault line (wrongCollection false (utf8 "string")))
  | .mapping line _ => do
    return (none, (← r.visit throughAlias).addFault line (wrongCollection true (utf8 "string")))
  | .alias _ _ target => do readKey true (← r.visit throughAlias) target
  | .enclosing _ _ isMapping line => do
    let r ← (← r.visit throughAlias).visit true
    return (none, r.addFault line (wrongCollection isMapping (utf8 "string")))

/-- Whether a key asks to merge other mappings into this one. -/
def isMerge : Node → Bool
  | .scalar _ tag implicit text =>
    text == ['<', '<'] && (implicit || tag == Yaml.standardTag ++ utf8 "merge")
  | _ => false

/-- The line of a node, from zero. -/
def lineOf : Node → Nat
  | .scalar line .. | .sequence line _ | .mapping line _ | .alias line .. | .enclosing line .. =>
    line

/-- The fault of a merge with something that is no mapping. -/
def mergeFault : Fault := .ofText "map merge requires map or sequence of maps as the value"

/-- The fault of a merge of a mapping with itself. -/
def cycleFault (name : List Char) : Fault :=
  { problem := utf8 "anchor '" ++ Utf8.encodeChars name ++ utf8 "' value contains itself" }

/-- Gives the setting with the given key the value of a node, unless it is among those that
were set before. -/
def readEntry (throughAlias : Bool) (r : Reading) (done : List Setting) (line : Nat) (key : Bytes)
    (value : Node) : Except Fault (Reading × List Setting) :=
  match Setting.ofKey? key with
  | none =>
    .ok (r.addFault line (utf8 "field " ++ key ++ utf8 " not found in type " ++ typeName), done)
  | some s =>
    if done.contains s then
      .ok (r.addFault line (utf8 "field " ++ key ++ utf8 " already set in type " ++ typeName), done)
    else do return (← readSetting throughAlias r s value, s :: done)

mutual

/-- The entries of a mapping; `done` are the settings that it has set so far. -/
def readEntries (throughAlias : Bool) (r : Reading) (done : List Setting) :
    List (Node × Node) → Except Fault Reading
  | [] => .ok r
  | (key, value) :: rest => do
    if isMerge key then
      readEntries throughAlias (← mergeNode throughAlias r value) done rest
    else
      let (name, r) ← readKey throughAlias r key
      match name with
      | none => readEntries throughAlias r done rest
      | some name =>
        let (r, done) ← readEntry throughAlias r done (lineOf key) name value
        readEntries throughAlias r done rest
termination_by entries => (sizeOf entries, 0)

/-- Merges a mapping, or a sequence of mappings of which the first wins. -/
def mergeNode (throughAlias : Bool) (r : Reading) : Node → Except Fault Reading
  | .sequence _ items => mergeItems throughAlias r items
  | node => mergeMapping throughAlias r node
termination_by node => (sizeOf node, 1)

/-- Merges the mappings of a sequence, the last one first. -/
def mergeItems (throughAlias : Bool) (r : Reading) : List Node → Except Fault Reading
  | [] => .ok r
  | node :: rest => do mergeMapping throughAlias (← mergeItems throughAlias r rest) node
termination_by items => (sizeOf items, 0)

/-- Merges a mapping that stands here or that an alias names. -/
def mergeMapping (throughAlias : Bool) (r : Reading) : Node → Except Fault Reading
  | .mapping _ entries => do readEntries throughAlias (← r.visit throughAlias) [] entries
  | .alias _ _ (.mapping _ entries) => do
    let r ← (← r.visit throughAlias).visit true
    readEntries true r [] entries
  | .enclosing _ name true _ => .error (cycleFault name)
  | _ => .error mergeFault
termination_by node => (sizeOf node, 0)

end

/-- The configuration that a document describes. The document counts as a node of its own. -/
def readRoot (r : Reading) (root : Node) : Except Fault Reading := do
  let r ← (← r.visit false).visit false
  match root with
  | .scalar line tag implicit text =>
    let (meaning, kind) ← scalarMeaning tag implicit text
    if meaning = .null then return { r with config := {} }
    return r.addFault line (wrongKind kind (excerpt tag (Utf8.encodeChars text)) typeName)
  | .sequence line _ => return r.addFault line (wrongCollection false typeName)
  | .mapping _ entries => readEntries false r [] entries
  | .alias _ _ _ | .enclosing _ _ _ _ => return r

/-- The message of the collected faults. -/
def faultsMessage (faults : List Bytes) : Bytes :=
  utf8 "yaml: unmarshal errors:\n  " ++ Bytes.joinWith (utf8 "\n  ") faults

/-- The configuration that a YAML text describes, not yet checked. -/
def parse (text : Bytes) : Except Bytes Config :=
  let reading : Except Fault Reading := do
    match ← Yaml.document? text with
    | none => return { config := standard }
    | some root => readRoot { config := standard } root
  match reading with
  | .error fault => .error fault.message
  | .ok r => if r.faults.isEmpty then .ok r.config else .error (faultsMessage r.faults)

/-- The configuration in a file, given the file's text or the reason why it cannot be read. -/
def load (file : Except Bytes Bytes) : Except Failure Config :=
  match file with
  | .error reason => .error (.within (utf8 "reading config") (.plain reason))
  | .ok text =>
    match parse text with
    | .error message => .error (.within (utf8 "parsing config") (.plain message))
    | .ok config =>
      match config.fault? with
      | some failure => .error failure
      | none => .ok config

end ScriptTidy.Config
