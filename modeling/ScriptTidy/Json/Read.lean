import ScriptTidy.Json.Basic
import ScriptTidy.Text.Quoted

/-!
# Reading JSON

A reader of JSON texts that says what is wrong with a text that is none. Stray bytes in strings
and escapes of lone surrogates are read as the replacement character. Of an object all fields
are kept, in their order, also those with equal names.
-/

namespace ScriptTidy

/-- What was being read when a character did not fit. -/
inductive JsonContext
  | value
  | key
  | afterKey
  | afterPair
  | afterElement
  | afterAll
  | string
  | number
  /-- A word, of which `expected` was the next letter. -/
  | literal (word : String) (expected : UInt8)
deriving DecidableEq, Repr

/-- The context in words. -/
def JsonContext.message : JsonContext → Bytes
  | value => utf8 "looking for beginning of value"
  | key => utf8 "looking for beginning of object key string"
  | afterKey => utf8 "after object key"
  | afterPair => utf8 "after object key:value pair"
  | afterElement => utf8 "after array element"
  | afterAll => utf8 "after top-level value"
  | string => utf8 "in string"
  | number => utf8 "in numeric literal"
  | literal word expected =>
    utf8 "in literal " ++ utf8 word ++ utf8 " (expecting "
      ++ Quoted.quoteChar (Char.ofNat expected.toNat) ++ utf8 ")"

/-- Why a text is no JSON. -/
inductive JsonFault
  | unexpectedEnd
  /-- The text from a character on that does not fit. -/
  | badCharacter (rest : Bytes) (context : JsonContext)
  | badEscape (escape : Bytes)
  | tooDeep
deriving DecidableEq, Repr

namespace JsonFault

/-- The first character of a text in quotes; a stray byte is shown by its number. -/
def firstQuoted (text : Bytes) : Bytes :=
  match Utf8.glyphs text with
  | [] => []
  | g :: _ =>
    match g.char == replacementChar, g.bytes with
    | true, [b] => utf8 "'\\x" ++ hexPadded lowerHexDigit 2 b.toNat ++ utf8 "'"
    | _, _ => Quoted.quoteChar g.char

/-- Whether a text is shown in double quotes rather than between two back quotes. -/
def needsQuotes (text : Bytes) : Bool :=
  (Utf8.chars text).any fun c =>
    c == '\x60' || c == replacementChar || c == ' ' || !isPrintable c.toNat

/-- The fault in words. -/
def message : JsonFault → Bytes
  | unexpectedEnd => utf8 "unexpected end of JSON input"
  | badCharacter rest context =>
    utf8 "invalid character " ++ firstQuoted rest ++ utf8 " " ++ context.message
  | badEscape escape =>
    utf8 "invalid escape sequence "
      ++ (if needsQuotes escape then Quoted.quote escape else [0x60] ++ escape ++ [0x60])
      ++ utf8 " in string"
  | tooDeep => utf8 "exceeded max depth"

end JsonFault

namespace JsonValue

/-- The text without white space in front. -/
def skipBlank (text : Bytes) : Bytes :=
  text.dropWhile fun b => b == 0x20 || b == 0x09 || b == 0x0A || b == 0x0D

/-- The value of a hexadecimal digit. -/
def hexByte? (b : UInt8) : Option Nat := hexValue? (Char.ofNat b.toNat)

/-- The number spelled by the four digits after `\u` at the start of a text. -/
def unicodeEscape? : Bytes → Option Nat
  | 0x5C :: 0x75 :: a :: b :: c :: d :: _ =>
    match hexByte? a, hexByte? b, hexByte? c, hexByte? d with
    | some a, some b, some c, some d => some (((a * 16 + b) * 16 + c) * 16 + d)
    | _, _, _, _ => none
  | _ => none

/-- Whether the text may be the start of an escape by number. -/
def startsUnicodeEscape : Bytes → Bool
  | 0x5C :: 0x75 :: digits => digits.all fun b => (hexByte? b).isSome
  | _ => false

/-- The character of a number, followed by a text, and whether the text starts with the second
half of it. -/
def escapedChar (n : Nat) (rest : Bytes) : Char × Bool :=
  if 0xD800 ≤ n ∧ n < 0xE000 then
    match unicodeEscape? rest with
    | some m =>
      if n < 0xDC00 ∧ 0xDC00 ≤ m ∧ m < 0xE000 then
        (Char.ofNat (0x10000 + (n - 0xD800) * 0x400 + (m - 0xDC00)), true)
      else (replacementChar, false)
    | none => (replacementChar, false)
  else (Char.ofNat n, false)

/-- The byte that a letter after a backslash stands for. -/
def escapedByte? (b : UInt8) : Option UInt8 :=
  match b with
  | 0x22 | 0x5C | 0x2F => some b
  | 0x62 => some 0x08
  | 0x66 => some 0x0C
  | 0x6E => some 0x0A
  | 0x72 => some 0x0D
  | 0x74 => some 0x09
  | _ => none

/-- The contents of a string after its opening quote, and the text behind its closing quote. -/
def stringBody (text : Bytes) : Except JsonFault (Bytes × Bytes) :=
  match text with
  | [] => .error .unexpectedEnd
  | 0x22 :: rest => .ok ([], rest)
  | 0x5C :: rest =>
    match rest with
    | [] => .error .unexpectedEnd
    | letter :: after =>
      if letter = 0x75 then
        match unicodeEscape? (0x5C :: rest) with
        | some n =>
          let (c, paired) := escapedChar n (after.drop 4)
          (stringBody (after.drop (if paired then 10 else 4))).map fun (s, r) =>
            (Utf8.encodeChar c ++ s, r)
        | none =>
          if rest.length < 5 ∧ startsUnicodeEscape (0x5C :: rest) then .error .unexpectedEnd
          else .error (.badEscape (0x5C :: rest.take 5))
      else match escapedByte? letter with
        | some b => (stringBody after).map fun (s, r) => (b :: s, r)
        | none => .error (.badEscape [0x5C, letter])
  | b :: rest =>
    if b < 0x20 then .error (.badCharacter (b :: rest) .string)
    else
      let d := Utf8.decode b rest
      (stringBody (rest.drop d.2)).map fun (s, r) => (Utf8.encodeChar d.1 ++ s, r)
termination_by text.length
decreasing_by all_goals simp only [List.length_cons, List.length_drop]; omega

/-- Reads at least one digit: the digits and the text behind them. -/
def digits (text : Bytes) : Except JsonFault (Bytes × Bytes) :=
  match text with
  | [] => .error .unexpectedEnd
  | b :: _ =>
    if isDigitByte b then .ok (text.takeWhile isDigitByte, text.dropWhile isDigitByte)
    else .error (.badCharacter text .number)

/-- Reads the whole part of a number: a single zero, or digits that start with no zero. -/
def wholePart (text : Bytes) : Except JsonFault (Bytes × Bytes) :=
  match text with
  | 0x30 :: rest => .ok ([0x30], rest)
  | _ => digits text

/-- Reads what may follow the whole part of a number: a point and digits. -/
def fraction (text : Bytes) : Except JsonFault (Bytes × Bytes) :=
  match text with
  | 0x2E :: rest => (digits rest).map fun (ds, r) => (0x2E :: ds, r)
  | _ => .ok ([], text)

/-- Reads what may end a number: the letter for an exponent, perhaps a sign, and digits. -/
def exponent (text : Bytes) : Except JsonFault (Bytes × Bytes) :=
  match text with
  | e :: rest =>
    if e = 0x65 ∨ e = 0x45 then
      match rest with
      | sign :: after =>
        if sign = 0x2B ∨ sign = 0x2D then
          (digits after).map fun (ds, r) => (e :: sign :: ds, r)
        else (digits rest).map fun (ds, r) => (e :: ds, r)
      | [] => .error .unexpectedEnd
    else .ok ([], text)
  | [] => .ok ([], text)

/-- Reads a number: its text and the text behind it. -/
def number (text : Bytes) : Except JsonFault (Bytes × Bytes) := do
  let (sign, rest) := match text with
    | 0x2D :: rest => ([0x2D], rest)
    | _ => (([] : Bytes), text)
  let (whole, rest) ← wholePart rest
  let (part, rest) ← fraction rest
  let (power, rest) ← exponent rest
  return (sign ++ whole ++ part ++ power, rest)

/-- Reads a word letter by letter. -/
def word (name : String) : (letters text : Bytes) → Except JsonFault Bytes
  | [], text => .ok text
  | _ :: _, [] => .error .unexpectedEnd
  | l :: letters, b :: rest =>
    if l = b then word name letters rest
    else .error (.badCharacter (b :: rest) (.literal name l))

/-- Reads a word that stands for a value. -/
def literal (name : String) (v : JsonValue) (text : Bytes) : Except JsonFault (JsonValue × Bytes) :=
  (word name (utf8 name) text).map fun rest => (v, rest)

/-- How deep values may lie in one another. -/
def maxDepth : Nat := 10000

mutual

/-- Reads a value at the start of a text that is not blank: the value and the text behind it.
Of two calls inside one another at least one takes a byte, so that twice the length of the text
is fuel enough. -/
def value (fuel depth : Nat) (text : Bytes) : Except JsonFault (JsonValue × Bytes) :=
  match fuel with
  | 0 => .error .unexpectedEnd
  | fuel + 1 =>
    match text with
    | [] => .error .unexpectedEnd
    | 0x6E :: _ => literal "null" .null text
    | 0x74 :: _ => literal "true" (.bool true) text
    | 0x66 :: _ => literal "false" (.bool false) text
    | 0x22 :: rest => (stringBody rest).map fun (s, r) => (.str s, r)
    | 0x5B :: rest =>
      if maxDepth ≤ depth then .error .tooDeep
      else match skipBlank rest with
        | 0x5D :: r => .ok (.arr [], r)
        | r => (elements fuel (depth + 1) r).map fun (vs, r) => (.arr vs, r)
    | 0x7B :: rest =>
      if maxDepth ≤ depth then .error .tooDeep
      else match skipBlank rest with
        | 0x7D :: r => .ok (.obj [], r)
        | r => (members fuel (depth + 1) r).map fun (fs, r) => (.obj fs, r)
    | b :: _ =>
      if b == 0x2D || isDigitByte b then (number text).map fun (n, r) => (.num n, r)
      else .error (.badCharacter text .value)

/-- Reads the elements of an array up to its closing bracket. -/
def elements (fuel depth : Nat) (text : Bytes) : Except JsonFault (List JsonValue × Bytes) :=
  match fuel with
  | 0 => .error .unexpectedEnd
  | fuel + 1 =>
    match value fuel depth text with
    | .error f => .error f
    | .ok (v, rest) =>
      match skipBlank rest with
      | 0x2C :: r => (elements fuel depth (skipBlank r)).map fun (vs, r) => (v :: vs, r)
      | 0x5D :: r => .ok ([v], r)
      | [] => .error .unexpectedEnd
      | r => .error (.badCharacter r .afterElement)

/-- Reads the fields of an object up to its closing brace. -/
def members (fuel depth : Nat) (text : Bytes) :
    Except JsonFault (List (Bytes × JsonValue) × Bytes) :=
  match fuel with
  | 0 => .error .unexpectedEnd
  | fuel + 1 =>
    match text with
    | [] => .error .unexpectedEnd
    | 0x22 :: rest =>
      match stringBody rest with
      | .error f => .error f
      | .ok (key, rest) =>
        match skipBlank rest with
        | [] => .error .unexpectedEnd
        | 0x3A :: r =>
          match value fuel depth (skipBlank r) with
          | .error f => .error f
          | .ok (v, rest) =>
            match skipBlank rest with
            | 0x2C :: r =>
              (members fuel depth (skipBlank r)).map fun (fs, r) => ((key, v) :: fs, r)
            | 0x7D :: r => .ok ([(key, v)], r)
            | [] => .error .unexpectedEnd
            | r => .error (.badCharacter r .afterPair)
        | r => .error (.badCharacter r .afterKey)
    | _ => .error (.badCharacter text .key)

end

/-- Reads a text that is one JSON value. -/
def read (text : Bytes) : Except JsonFault JsonValue :=
  match value (2 * text.length + 2) 0 (skipBlank text) with
  | .error f => .error f
  | .ok (v, rest) =>
    match skipBlank rest with
    | [] => .ok v
    | r => .error (.badCharacter r .afterAll)

end JsonValue

end ScriptTidy
