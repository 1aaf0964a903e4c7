import ScriptTidy.Text.Base64
import ScriptTidy.Text.Dyadic
import ScriptTidy.Yaml.Encoding
import ScriptTidy.Yaml.Timestamp

/-!
# What a scalar means

A scalar without quotes is null, a boolean, a number or a date if it is written like one, and
a text otherwise. A tag can demand a kind, or say that the text is base64.
-/

namespace ScriptTidy.Yaml

/-- A number in floating point. -/
inductive Real
  | finite (negative : Bool) (magnitude : Dyadic)
  | infinite (negative : Bool)
  | notANumber
deriving DecidableEq, Repr

/-- The meaning of a scalar. -/
inductive Scalar
  | null
  | bool (b : Bool)
  | int (n : Int)
  | real (x : Real)
  | timestamp
  | text (value : Bytes)
deriving DecidableEq, Repr

/-- The address in front of the standard tags. -/
def standardTag : Bytes := utf8 "tag:yaml.org,2002:"

/-- The short form of a tag: two exclamation marks stand for the address of standard tags. -/
def shortTag (tag : Bytes) : Bytes :=
  match Bytes.dropHead? standardTag tag with
  | some name => utf8 "!!" ++ name
  | none => tag

namespace Scalar

/-- The short tag of the kind of a scalar. -/
def kindTag : Scalar → Bytes
  | null => utf8 "!!null"
  | bool _ => utf8 "!!bool"
  | int _ => utf8 "!!int"
  | real _ => utf8 "!!float"
  | timestamp => utf8 "!!timestamp"
  | text _ => utf8 "!!str"

/-- The words that have a meaning of their own. -/
def words : List (List String × Scalar) := [
  (["y", "Y", "yes", "Yes", "YES", "true", "True", "TRUE", "on", "On", "ON"], bool true),
  (["n", "N", "no", "No", "NO", "false", "False", "FALSE", "off", "Off", "OFF"], bool false),
  (["", "~", "null", "Null", "NULL"], null),
  ([".nan", ".NaN", ".NAN"], real .notANumber),
  ([".inf", ".Inf", ".INF", "+.inf", "+.Inf", "+.INF"], real (.infinite false)),
  (["-.inf", "-.Inf", "-.INF"], real (.infinite true))]

/-- The meaning of a word that has one. -/
def ofWord? (text : Bytes) : Option Scalar :=
  (words.find? fun entry => entry.1.any fun w => utf8 w = text).map (·.2)

/-- The value of digits in a base; none if there are no digits or others. -/
def digitsIn? (base : Nat) (digits : Bytes) : Option Nat :=
  if digits.isEmpty then none
  else digits.foldl (fun acc b => do
    let n ← acc
    let d ← hexValue? (Char.ofNat b.toNat)
    if d < base then some (n * base + d) else none) (some 0)

/-- A natural number with the base told by how it starts: `0x`, `0b` and `0o` in either case,
octal after any other zero, decimal otherwise. -/
def natural? : Bytes → Option Nat
  | 0x30 :: letter :: rest =>
    if letter = 0x78 ∨ letter = 0x58 then digitsIn? 16 rest
    else if letter = 0x62 ∨ letter = 0x42 then digitsIn? 2 rest
    else if letter = 0x6F ∨ letter = 0x4F then digitsIn? 8 rest
    else digitsIn? 8 (letter :: rest)
  | digits => digitsIn? 10 digits

/-- The sign of a number and the text after it. -/
def takeSign : Bytes → Bool × Bytes
  | 0x2D :: rest => (true, rest)
  | 0x2B :: rest => (false, rest)
  | rest => (false, rest)

/-- An integer that fits in 64 bits, signed or, without any sign, unsigned. -/
def integer? (text : Bytes) : Option Int := do
  let (negative, digits) := takeSign text
  let n ← natural? digits
  if negative then if n ≤ halfWord then some (-n) else none
  else if n < halfWord ∨ (digits = text ∧ n < wordSpan) then some n
  else none

/-- A binary number whose sign stands after the letter. -/
def signedBinary? (text : Bytes) : Option Int := do
  let (negative, digits) := takeSign (← Bytes.dropHead? (utf8 "0b") text)
  let n ← digitsIn? 2 digits
  if negative then if n ≤ halfWord then some (-n) else none
  else if n < halfWord then some n
  else none

/-- A number with a point or an exponent. -/
def real? (text : Bytes) : Option Real := do
  let (negative, digits) := takeSign text
  let x ← (← Dyadic.ofDecimal? digits)
  return .finite negative x

/-- Whether underscores stand only between digits. `afterDigit` tells whether a digit has come
just before. -/
def separatesDigits (afterDigit : Bool) : Bytes → Bool
  | [] => true
  | 0x5F :: rest => afterDigit && rest.head?.any isDigitByte && separatesDigits false rest
  | b :: rest => separatesDigits (isDigitByte b) rest

/-- A number that starts with its point. Underscores may stand between its digits. -/
def pointed? (text : Bytes) : Option Real :=
  if separatesDigits false text then real? (text.filter (· != 0x5F)) else none

/-- The meaning of a text that starts like a number or a date. -/
def ofNumeral (mayBeDate : Bool) (text : Bytes) : Scalar :=
  if mayBeDate && isTimestamp text then timestamp
  else
    let plain := text.filter (· != 0x5F)
    match integer? plain, real? plain, signedBinary? plain with
    | some n, _, _ => int n
    | none, some x, _ => real x
    | none, none, some n => int n
    | none, none, none => .text text

/-- The meaning of a text by itself, with or without dates. -/
def ofPlain (mayBeDate : Bool) (text : Bytes) : Scalar :=
  match text with
  | [] => null
  | b :: _ =>
    if isDigitByte b || b = 0x2B || b = 0x2D then
      (ofWord? text).getD (ofNumeral mayBeDate text)
    else if b = 0x2E then
      (ofWord? text).getD (((pointed? text).map real).getD (.text text))
    else if (utf8 "yYnNtTfFoO~").elem b then (ofWord? text).getD (.text text)
    else .text text

/-- The tags that say what a scalar has to mean; any other tag makes it a text. -/
def kindTags : List Bytes :=
  ["!!bool", "!!int", "!!float", "!!null", "!!timestamp"].map utf8

/-- An integer as a floating point number. -/
def realOfInt (n : Int) : Real := .finite (n < 0) ((Dyadic.ofNat? n.natAbs).getD ⟨0, 0⟩)

/-- The meaning of a scalar with a tag. -/
def ofTagged (tag : Bytes) (text : Bytes) : Except Fault Scalar :=
  let demanded := shortTag tag
  if !standardTag.isPrefixOf tag then .ok (.text text)
  else if demanded = utf8 "!!binary" then
    match Base64.decode? text with
    | some bytes => .ok (.text bytes)
    | none => .error (.ofText "!!binary value contains invalid base64 data")
  else if !kindTags.contains demanded then .ok (.text text)
  else
    let found := ofPlain (demanded = utf8 "!!timestamp") text
    let failure := .error (mismatch found demanded text)
    if found.kindTag = demanded then .ok found
    else if demanded ≠ utf8 "!!float" then failure
    else match found with
      | int n => if n < halfWord then .ok (real (realOfInt n)) else failure
      | _ => failure
where
  /-- The fault of a scalar that does not mean what its tag says. -/
  mismatch (found : Scalar) (demanded text : Bytes) : Fault :=
    { problem := utf8 "cannot decode " ++ found.kindTag ++ utf8 " \x60" ++ text
        ++ utf8 "\x60 as a " ++ demanded }

/-- The integer that is kept of a floating point number in a 64-bit word: its integer part,
and the least integer if that is out of range. None for what is no number at all or too large
to be compared with an integer. -/
def truncated? : Real → Option Int
  | .notANumber => none
  | .infinite negative => if negative then some (-halfWord) else none
  | .finite negative x =>
    let n := x.floor
    if negative then some (if n ≤ halfWord then -n else -halfWord)
    else if n < halfWord then some n
    else if x.toFraction.1 = halfWord * x.toFraction.2 then some (-halfWord)
    else none

end Scalar

end ScriptTidy.Yaml
