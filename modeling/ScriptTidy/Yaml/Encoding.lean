import ScriptTidy.Text.Decimal
import ScriptTidy.Text.Space

/-!
# From bytes to the characters of a YAML text

A YAML text is UTF-8, or UTF-16 if a byte order mark says so, with only printable characters and
line breaks in it. It is decoded in portions of a fixed size, and a portion as a whole before
any of its characters is looked at: `Decoded.ofText` gives the portions up to the first one that
cannot be decoded. Whoever reads only the first portions never learns of a fault in a later one.
-/

namespace ScriptTidy.Yaml

/-- What is wrong with a YAML text, and the line, from one, at which it shows. Line zero stands
for no line. -/
structure Fault where
  line : Nat := 0
  problem : Bytes
deriving DecidableEq, Repr

/-- The fault as a message. -/
def Fault.message (f : Fault) : Bytes :=
  utf8 "yaml: "
    ++ (if f.line = 0 then [] else utf8 "line " ++ natDecimal f.line ++ utf8 ": ")
    ++ f.problem

/-- A fault with a fixed text and no line. -/
def Fault.ofText (s : String) : Fault := { problem := utf8 s }

/-- How characters are written as bytes. -/
inductive Encoding
  | octets
  /-- Two bytes to a unit, the low or the high one first. -/
  | units (lowFirst : Bool)
deriving DecidableEq, Repr

/-- What the first bytes of a text stand for. -/
inductive Glimpse
  | char (c : Char) (width : Nat)
  /-- The bytes end within a character. -/
  | cut (fault : Fault)
  | bad (fault : Fault)

/-- Whether the character may stand in a YAML text. -/
def isAllowed (c : Char) : Bool :=
  let n := c.toNat
  n == 0x09 || n == 0x0A || n == 0x0D || (0x20 ≤ n && n ≤ 0x7E) || n == 0x85
    || (0xA0 ≤ n && n ≤ 0xFFFD) || 0x10000 ≤ n

/-- A character, if it may stand in a YAML text. -/
def glimpseChar (code width : Nat) : Glimpse :=
  let c := Char.ofNat code
  if isAllowed c then .char c width else .bad (.ofText "control characters are not allowed")

/-- How many bytes a character takes by its first byte. -/
def widthOf? (b : UInt8) : Option Nat :=
  if b < 0x80 then some 1
  else if 0xC0 ≤ b && b < 0xE0 then some 2
  else if 0xE0 ≤ b && b < 0xF0 then some 3
  else if 0xF0 ≤ b && b < 0xF8 then some 4
  else none

/-- The part of the first byte that counts, and the least character, by the number of bytes. -/
def widthLimits (width : Nat) : Nat × Nat :=
  [(0x80, 0), (0x80, 0), (0x20, 0x80), (0x10, 0x800), (0x08, 0x10000)].getD width (0x80, 0)

/-- The first character in UTF-8. -/
def glimpseOctets (b : UInt8) (rest : Bytes) : Glimpse :=
  match widthOf? b with
  | none => .bad (.ofText "invalid leading UTF-8 octet")
  | some width =>
    let tail := rest.take (width - 1)
    let (span, least) := widthLimits width
    let code := tail.foldl (fun n t => n * 0x40 + Utf8.tailBits t) (b.toNat % span)
    if tail.length < width - 1 then .cut (.ofText "incomplete UTF-8 octet sequence")
    else if !tail.all Utf8.isTail then .bad (.ofText "invalid trailing UTF-8 octet")
    else if code < least then .bad (.ofText "invalid length of a UTF-8 sequence")
    else if (0xD800 ≤ code && code ≤ 0xDFFF) || 0x10FFFF < code then
      .bad (.ofText "invalid Unicode character")
    else glimpseChar code width

/-- The number of a unit of two bytes. -/
def unitOf (lowFirst : Bool) (a b : UInt8) : Nat :=
  if lowFirst then a.toNat + 0x100 * b.toNat else 0x100 * a.toNat + b.toNat

/-- Whether a unit is the first of a pair. -/
def isHighUnit (n : Nat) : Bool := 0xD800 ≤ n && n ≤ 0xDBFF

/-- Whether a unit is the second of a pair. -/
def isLowUnit (n : Nat) : Bool := 0xDC00 ≤ n && n ≤ 0xDFFF

/-- The first character in UTF-16. -/
def glimpseUnits (lowFirst : Bool) : Bytes → Glimpse
  | a :: b :: rest =>
    let first := unitOf lowFirst a b
    if isLowUnit first then .bad (.ofText "unexpected low surrogate area")
    else if !isHighUnit first then glimpseChar first 2
    else match rest with
      | c :: d :: _ =>
        let second := unitOf lowFirst c d
        if isLowUnit second then
          glimpseChar (0x10000 + 0x400 * (first - 0xD800) + (second - 0xDC00)) 4
        else .bad (.ofText "expected low surrogate area")
      | _ => .cut (.ofText "incomplete UTF-16 surrogate pair")
  | _ => .cut (.ofText "incomplete UTF-16 character")

/-- What a text in an encoding starts with. -/
def Encoding.glimpse (e : Encoding) (b : UInt8) (rest : Bytes) : Glimpse :=
  match e with
  | octets => glimpseOctets b rest
  | units lowFirst => glimpseUnits lowFirst (b :: rest)

/-- The encoding of a text by its byte order mark, and the width of that mark. -/
def Encoding.detect : Bytes → Encoding × Nat
  | 0xFF :: 0xFE :: _ => (units true, 2)
  | 0xFE :: 0xFF :: _ => (units false, 2)
  | 0xEF :: 0xBB :: 0xBF :: _ => (octets, 3)
  | _ => (octets, 0)

/-- The characters of a portion, with the bytes at its end that are too few for a character and
what is wrong with them if no more follow. The fuel is the number of bytes. -/
def decodePortion (e : Encoding) :
    Nat → Bytes → Except Fault (List Char × Bytes × Option Fault)
  | 0, text => .ok ([], text, none)
  | _, [] => .ok ([], [], none)
  | fuel + 1, b :: rest =>
    match e.glimpse b rest with
    | .bad fault => .error fault
    | .cut fault => .ok ([], b :: rest, some fault)
    | .char c width => do
      let (more, left, fault) ← decodePortion e fuel (rest.drop (width - 1))
      return (c :: more, left, fault)

/-- A text as it is decoded. -/
structure Decoded where
  /-- The characters of the portions that can be decoded. -/
  portions : List (List Char) := []
  /-- What is wrong with the portion after them, if there is one. -/
  ending : Option Fault := none

/-- The number of bytes of a portion. -/
def portionSize : Nat := 512

/-- Decodes a text from a portion of the given size on. What is left of a portion is the start
of the next one. The fuel bounds the number of portions. -/
def Decoded.ofBytes (e : Encoding) : Nat → Nat → Bytes → Decoded
  | 0, _, _ => {}
  | fuel + 1, size, text =>
    let portion := text.take size
    let later := text.drop size
    match decodePortion e portion.length portion with
    | .error fault => { ending := some fault }
    | .ok (chars, left, fault) =>
      if later.isEmpty then { portions := [chars], ending := fault }
      else
        let rest := Decoded.ofBytes e fuel portionSize (left ++ later)
        { rest with portions := chars :: rest.portions }

/-- Decodes a text. The byte order mark belongs to the first portion, but is no character. An
empty text is an empty line. -/
def Decoded.ofText (text : Bytes) : Decoded :=
  let (e, width) := Encoding.detect text
  if text.isEmpty then { portions := [['\n']] }
  else Decoded.ofBytes e (text.length + 1) (portionSize - width) (text.drop width)

end ScriptTidy.Yaml
