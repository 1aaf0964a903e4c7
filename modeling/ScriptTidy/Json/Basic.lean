import ScriptTidy.Text.Decimal
import ScriptTidy.Text.Utf8

/-!
# JSON values and their text

The values that source maps, answers and log lines consist of, and the compact text they are
written as. Fields keep their order. Texts are escaped so that they can be placed inside a
script element: besides quotes, backslashes and control characters, the angle brackets, the
ampersand and the two Unicode line ends are written as numbers. A stray byte is written as the
replacement character.
-/

namespace ScriptTidy

/-- A JSON value. Numbers are kept as the text that is written. -/
inductive JsonValue
  | null
  | bool (b : Bool)
  | num (text : Bytes)
  | str (text : Bytes)
  | arr (items : List JsonValue)
  | obj (fields : List (Bytes × JsonValue))
deriving Repr

namespace JsonValue

/-- An integer. -/
def int (n : Int) : JsonValue := num (intDecimal n)

/-- A natural number. -/
def nat (n : Nat) : JsonValue := num (natDecimal n)

/-- A text that the program itself writes. -/
def ascii (s : String) : JsonValue := str (utf8 s)

/-- A field whose key the program itself chooses. -/
def field (key : String) (value : JsonValue) : Bytes × JsonValue := (utf8 key, value)

/-- The letter that escapes a control character. -/
def escapeLetter? (n : Nat) : Option UInt8 :=
  match n with
  | 0x08 => some 0x62
  | 0x09 => some 0x74
  | 0x0A => some 0x6E
  | 0x0C => some 0x66
  | 0x0D => some 0x72
  | 0x22 => some 0x22
  | 0x5C => some 0x5C
  | _ => none

/-- Whether the character is written as a number. -/
def needsNumber (n : Nat) : Bool :=
  n < 0x20 || n == 0x3C || n == 0x3E || n == 0x26 || n == 0x2028 || n == 0x2029

/-- One glyph of a text in its written form. -/
def escapeGlyph (g : Glyph) : Bytes :=
  let n := g.char.toNat
  match escapeLetter? n with
  | some letter => [0x5C, letter]
  | none =>
    if needsNumber n then utf8 "\\u" ++ hexPadded lowerHexDigit 4 n
    else Utf8.encodeChar g.char

/-- A text in quotes. -/
def renderText (text : Bytes) : Bytes :=
  [0x22] ++ (Utf8.glyphs text).flatMap escapeGlyph ++ [0x22]

mutual

/-- The compact text of a value. -/
def render : JsonValue → Bytes
  | null => utf8 "null"
  | bool b => utf8 (if b then "true" else "false")
  | num text => text
  | str text => renderText text
  | arr items => [0x5B] ++ renderItems items ++ [0x5D]
  | obj fields => [0x7B] ++ renderFields fields ++ [0x7D]

/-- The items of an array with commas between them. -/
def renderItems : List JsonValue → Bytes
  | [] => []
  | [v] => v.render
  | v :: rest => v.render ++ [0x2C] ++ renderItems rest

/-- The fields of an object with commas between them. -/
def renderFields : List (Bytes × JsonValue) → Bytes
  | [] => []
  | [(k, v)] => renderText k ++ [0x3A] ++ v.render
  | (k, v) :: rest => renderText k ++ [0x3A] ++ v.render ++ [0x2C] ++ renderFields rest

end

mutual

/-- The value with the fields of all objects sorted by key. -/
def sortKeys : JsonValue → JsonValue
  | arr items => arr (sortItems items)
  | obj fields => obj ((sortFields fields).mergeSort fun a b => !Bytes.lt b.1 a.1)
  | v => v

/-- The items with the fields of all objects sorted by key. -/
def sortItems : List JsonValue → List JsonValue
  | [] => []
  | v :: rest => v.sortKeys :: sortItems rest

/-- The fields with the fields of all objects in them sorted by key. -/
def sortFields : List (Bytes × JsonValue) → List (Bytes × JsonValue)
  | [] => []
  | (k, v) :: rest => (k, v.sortKeys) :: sortFields rest

end

end JsonValue

end ScriptTidy
