import ScriptTidy.Text.Dyadic
import ScriptTidy.Text.Digit
import ScriptTidy.Text.Integer
import ScriptTidy.Text.LowerCase
import ScriptTidy.Text.Space

/-!
# Settings from the environment

Variables that hold a text, an integer or a size in bytes, each with a value to use where the
variable is not set. A value that cannot be read is a fault, which says what was expected.
-/

namespace ScriptTidy

/-- The variables of an environment and their values. -/
abbrev Environment := List (Bytes × Bytes)

/-- The units of size and the number of bytes that each stands for. -/
def byteUnits : List (String × Nat) :=
  [("b", 1), ("kib", Nat.pow 1024 1), ("kb", Nat.pow 1000 1), ("mib", Nat.pow 1024 2),
    ("mb", Nat.pow 1000 2), ("gib", Nat.pow 1024 3), ("gb", Nat.pow 1000 3),
    ("tib", Nat.pow 1024 4), ("tb", Nat.pow 1000 4), ("pib", Nat.pow 1024 5),
    ("pb", Nat.pow 1000 5), ("eib", Nat.pow 1024 6), ("eb", Nat.pow 1000 6), ("", 1),
    ("ki", Nat.pow 1024 1), ("k", Nat.pow 1000 1), ("mi", Nat.pow 1024 2), ("m", Nat.pow 1000 2),
    ("gi", Nat.pow 1024 3), ("g", Nat.pow 1000 3), ("ti", Nat.pow 1024 4), ("t", Nat.pow 1000 4),
    ("pi", Nat.pow 1024 5), ("p", Nat.pow 1000 5), ("ei", Nat.pow 1024 6), ("e", Nat.pow 1000 6)]

/-- The number of bytes that a unit stands for. -/
def unitBytes? (name : Bytes) : Option Nat :=
  (byteUnits.find? fun u => utf8 u.1 = name).map (·.2)

/-- The number in front of a size, and the rest. As many bytes belong to the number as the
text has digits, points and commas at its start. -/
def splitSize (text : Bytes) : Bytes × Bytes :=
  let isPart := fun (g : Glyph) => isAnyDigit g.char || g.char == '.' || g.char == ','
  let n := ((Utf8.glyphs text).takeWhile isPart).length
  (text.take n, text.drop n)

/-- A size such as `512KB` or `2MiB` as a number of bytes, or what is wrong with it. -/
def readSize (text : Bytes) : Except Bytes Nat :=
  let (number, rest) := splitSize text
  let digits := number.filter (· != 0x2C)
  match Dyadic.ofDecimal? digits with
  | none => .error (IntegerFault.malformed.message "strconv.ParseFloat" digits)
  | some none => .error (IntegerFault.outOfRange.message "strconv.ParseFloat" digits)
  | some (some x) =>
    let unit := lowerText (trimBlank rest)
    match unitBytes? unit with
    | none => .error (utf8 "unhandled size name: " ++ unit)
    | some scale =>
      match x.scaleBy? scale with
      | some y =>
        if y.floor < wordSpan then .ok y.floor else .error (utf8 "too large: " ++ text)
      | none => .error (utf8 "too large: " ++ text)

namespace Environment

/-- A variable's value. -/
def text (env : Environment) (name fallback : Bytes) : Bytes := (env.lookup name).getD fallback

/-- What is wrong with a variable. -/
def fault (name : Bytes) (expected : String) (reason : Bytes) : Bytes :=
  utf8 "environment variable " ++ name ++ utf8 " should be " ++ utf8 expected ++ utf8 ": "
    ++ reason

/-- A variable's value as an integer. -/
def integer (env : Environment) (name : Bytes) (fallback : Int) : Except Bytes Int :=
  match env.lookup name with
  | none => .ok fallback
  | some value =>
    match readInteger value with
    | .ok n => .ok n
    | .error f => .error (fault name "an integer" (f.message "strconv.Atoi" value))

/-- A variable's value as a size in bytes, kept in a signed word. -/
def size (env : Environment) (name : Bytes) (fallback : Int) : Except Bytes Int :=
  match env.lookup name with
  | none => .ok fallback
  | some value =>
    match readSize value with
    | .ok n => .ok (wrap64 n)
    | .error reason => .error (fault name "a size in bytes" reason)

end Environment

end ScriptTidy
