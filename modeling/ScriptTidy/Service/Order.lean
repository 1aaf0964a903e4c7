import ScriptTidy.Json.Read
import ScriptTidy.Text.Integer

/-!
# Orders

An order asks the service to format a source. It is read from a JSON object whose fields have
names without case. Fields with other names play no part, a field without a value changes
nothing, and of equal fields the last one counts. Orders that ask for the same have the same
canonical form, in which settings that are left to the service do not occur.
-/

namespace ScriptTidy.Service

/-- What a client asks for. Zero and empty values leave a setting to the service. -/
structure Order where
  source : Bytes := []
  url : Bytes := []
  indent : Bytes := []
  html : Bool := false
  originalStartLine : Int := 0
  originalStartColumn : Int := 0
  generatedStartLine : Int := 0
deriving DecidableEq, Repr

namespace Order

/-- The settings of an order. -/
inductive Setting
  | source
  | url
  | indent
  | html
  | originalStartLine
  | originalStartColumn
  | generatedStartLine
deriving DecidableEq, Repr

namespace Setting

/-- The name of the field with a setting. -/
def label : Setting → String
  | source => "source"
  | url => "url"
  | indent => "indent"
  | html => "html"
  | originalStartLine => "original_start_line"
  | originalStartColumn => "original_start_column"
  | generatedStartLine => "generated_start_line"

/-- All settings. -/
def all : List Setting :=
  [source, url, indent, html, originalStartLine, originalStartColumn, generatedStartLine]

/-- The character that stands for all forms of a letter. -/
def foldChar (c : Char) : Char :=
  if c.toNat = 0x17F then 's' else if c.toNat = 0x212A then 'k' else c.toLower

/-- The setting that a field name stands for. -/
def ofName? (name : Bytes) : Option Setting :=
  let folded := (Utf8.chars name).map foldChar
  all.find? fun s => s.label.toList = folded

/-- The name of the kind of values that a setting takes. -/
def kindName : Setting → String
  | source | url | indent => "string"
  | html => "bool"
  | _ => "int"

end Setting

/-- The name of the kind of a value. -/
def valueKind : JsonValue → String
  | .null => "null"
  | .bool _ => "bool"
  | .num _ => "number"
  | .str _ => "string"
  | .arr _ => "array"
  | .obj _ => "object"

/-- The integer that the text of a number spells, if it fits in a signed 64-bit word. -/
def integer? (text : Bytes) : Option Int := (readInteger text).toOption

/-- The order with a setting changed, if the value suits it. -/
def set? (o : Order) (s : Setting) (v : JsonValue) : Option Order :=
  match s, v with
  | .source, .str t => some { o with source := t }
  | .url, .str t => some { o with url := t }
  | .indent, .str t => some { o with indent := t }
  | .html, .bool b => some { o with html := b }
  | .originalStartLine, .num n => (integer? n).map fun i => { o with originalStartLine := i }
  | .originalStartColumn, .num n => (integer? n).map fun i => { o with originalStartColumn := i }
  | .generatedStartLine, .num n => (integer? n).map fun i => { o with generatedStartLine := i }
  | _, .null => some o
  | _, _ => none

/-- A value as a message about its setting shows it: an integer that cannot be taken is shown as
a whole. -/
def shownValue (s : Setting) (v : JsonValue) : Bytes :=
  match v with
  | .num text => if s.kindName = "int" then utf8 "number " ++ text else utf8 "number"
  | v => utf8 (valueKind v)

/-- The message for a value that does not suit its setting. -/
def settingFault (name : Bytes) (s : Setting) (v : JsonValue) : Bytes :=
  utf8 "json: cannot unmarshal " ++ shownValue s v ++ utf8 " into Go struct field Request."
    ++ name ++ utf8 " of type " ++ utf8 s.kindName

/-- Takes over one field. The first message is kept; a field that cannot be taken over changes
nothing. -/
def addField (st : Order × Option Bytes) (f : Bytes × JsonValue) : Order × Option Bytes :=
  match Setting.ofName? f.1 with
  | none => st
  | some s =>
    match st.1.set? s f.2 with
    | some o => (o, st.2)
    | none => (st.1, st.2 <|> some (settingFault f.1 s f.2))

/-- The order that a JSON value describes, or what is wrong with it. -/
def ofJson : JsonValue → Except Bytes Order
  | .null => .ok {}
  | .obj fields =>
    match fields.foldl addField ({}, none) with
    | (o, none) => .ok o
    | (_, some message) => .error message
  | v =>
    .error (utf8 "json: cannot unmarshal " ++ utf8 (valueKind v)
      ++ utf8 " into Go value of type prettyfastserver.Request")

/-- Reads an order. -/
def read (text : Bytes) : Except Bytes Order :=
  match JsonValue.read text with
  | .error f => .error f.message
  | .ok v => ofJson v

/-! ## The canonical form -/

/-- The value of a setting. -/
def valueOf (o : Order) : Setting → JsonValue
  | .source => .str o.source
  | .url => .str o.url
  | .indent => .str o.indent
  | .html => .bool o.html
  | .originalStartLine => .int o.originalStartLine
  | .originalStartColumn => .int o.originalStartColumn
  | .generatedStartLine => .int o.generatedStartLine

/-- Whether the order leaves a setting to the service. It never leaves out the source. -/
def leavesOut (o : Order) : Setting → Bool
  | .source => false
  | .url => o.url.isEmpty
  | .indent => o.indent.isEmpty
  | .html => !o.html
  | .originalStartLine => o.originalStartLine = 0
  | .originalStartColumn => o.originalStartColumn = 0
  | .generatedStartLine => o.generatedStartLine = 0

/-- The fields of the canonical form. -/
def fields (o : Order) : List (Bytes × JsonValue) :=
  (Setting.all.filter fun s => !o.leavesOut s).map fun s => (utf8 s.label, o.valueOf s)

/-- The canonical form of an order, with whether the differences are asked for. -/
def encode (o : Order) (check : Bool) : Bytes :=
  (JsonValue.obj (o.fields ++ [JsonValue.field "check" (.bool check)])).render

end Order

end ScriptTidy.Service
