import ScriptTidy.Text.Decimal
import ScriptTidy.Yaml.Token

/-!
# Directives, anchors, aliases and tags

The tokens of YAML that say something about nodes and documents. Each reader starts at the
first character of the token and gives the token with the place after it. Tags are byte strings:
they can be written with escapes, and what is escaped need not be a character.
-/

namespace ScriptTidy.Yaml

/-- A token that was read from `start` to where the cursor is now. -/
def Cursor.tokenFrom (c : Cursor) (start : Mark) (kind : TokenKind) : Token :=
  { kind, start, stop := c.mark }

/-- The digits of a version number after digits of value `n`, of which there may be as many as
there is fuel. -/
def readVersionDigits (n : Nat) : Nat → Cursor → Except Fault (Nat × Cursor)
  | fuel, c => do
    let c ← c.demand 1
    match c.rest.head?.filter Char.isDigit, fuel with
    | none, _ => return (n, c)
    | some _, 0 => throw (c.fault "found extremely long version number")
    | some d, fuel + 1 => readVersionDigits (10 * n + (d.toNat - 0x30)) fuel c.skip

/-- A number of a version directive: one or two digits. -/
def readVersionNumber (c : Cursor) : Except Fault (Nat × Cursor) := do
  let (n, after) ← readVersionDigits 0 2 c
  if after.mark = c.mark then throw (after.fault "did not find expected version number")
  return (n, after)

/-- An escaped byte of an address: a percent sign and two hexadecimal digits. -/
def readEscapedOctet (c : Cursor) : Except Fault (UInt8 × Cursor) := do
  let c ← c.demand 3
  match c.rest with
  | '%' :: a :: b :: _ =>
    match hexValue? a, hexValue? b with
    | some x, some y => return ((x * 16 + y).toUInt8, c.advance 3)
    | _, _ => throw (c.fault "did not find URI escaped octet")
  | _ => throw (c.fault "did not find URI escaped octet")

/-- The bytes after the first one of a character in an address, each as an escape. -/
def readEscapedTail : Nat → Cursor → Except Fault (Bytes × Cursor)
  | 0, c => .ok ([], c)
  | n + 1, c => do
    let (octet, after) ← readEscapedOctet c
    if !Utf8.isTail octet then throw (after.fault "found an incorrect trailing UTF-8 octet")
    let (more, after) ← readEscapedTail n after
    return (octet :: more, after)

/-- The bytes of a character of an address written as escapes. Whether there is such a character
is not asked. -/
def readEscapedChar (c : Cursor) : Except Fault (Bytes × Cursor) := do
  let (octet, after) ← readEscapedOctet c
  match widthOf? octet with
  | none => throw (after.fault "found an incorrect leading UTF-8 octet")
  | some width =>
    let (tail, after) ← readEscapedTail (width - 1) after
    return (octet :: tail, after)

/-- The characters of an address. -/
def isAddressChar (c : Char) : Bool := isNameChar c || ";/?:@&=+$,.!~*'()[]%".toList.contains c

/-- The longest address, decoded, at the cursor. The fuel bounds the number of characters. -/
def readAddressLoop : Nat → Cursor → Except Fault (Bytes × Cursor)
  | 0, c => .ok ([], c)
  | fuel + 1, c => do
    let c ← c.demand 1
    if !c.seesAny isAddressChar then return ([], c)
    let (front, after) ← if c.sees '%' then readEscapedChar c
      else pure (Utf8.encodeChars (c.rest.take 1), c.skip)
    let (more, after) ← readAddressLoop fuel after
    return (front ++ more, after)

/-- An address, which is empty only if something stood `before` it. -/
def readAddress (before : Bytes) (c : Cursor) : Except Fault (Bytes × Cursor) := do
  let (address, after) ← readAddressLoop c.limit c
  if before.isEmpty && address.isEmpty then throw (after.fault "did not find expected tag URI")
  return (before.drop 1 ++ address, after)

/-- A tag handle: an exclamation mark, perhaps a name and a second exclamation mark. In a
directive the second one may be missing only if there is no name. -/
def readHandle (inDirective : Bool) (c : Cursor) : Except Fault (Bytes × Cursor) := do
  let c ← c.demand 1
  if !c.sees '!' then throw (c.fault "did not find expected '!'")
  let (name, after) ← c.skip.takeWhile isNameChar
  let handle := utf8 "!" ++ Utf8.encodeChars name
  if after.sees '!' then return (handle ++ utf8 "!", after.skip)
  if inDirective && !name.isEmpty then throw (after.fault "did not find expected '!'")
  return (handle, after)

/-- The rest of a directive's line. -/
def endDirective (c : Cursor) : Except Fault Cursor := do
  let after ← c.skipToLineEnd
  if !after.endsLineAt 0 then throw (after.fault "did not find expected comment or line break")
  after.skipBreak

/-- The values of a version directive. -/
def readVersion (c : Cursor) : Except Fault (TokenKind × Cursor) := do
  let (major, c) ← readVersionNumber (← c.skipWhile isGap)
  if !c.sees '.' then throw (c.fault "did not find expected digit or '.' character")
  let (minor, c) ← readVersionNumber c.skip
  return (.versionDirective major minor, c)

/-- The values of a tag directive. -/
def readTagDirective (c : Cursor) : Except Fault (TokenKind × Cursor) := do
  let (handle, c) ← readHandle true (← c.skipWhile isGap)
  let c ← c.demand 1
  if !c.seesAny isGap then throw (c.fault "did not find expected whitespace")
  let (uri, c) ← readAddress [] (← c.skipWhile isGap)
  let c ← c.demand 1
  if !c.endsWordAt 0 then throw (c.fault "did not find expected whitespace or line break")
  return (.tagDirective handle uri, c)

/-- A directive, which takes its whole line. -/
def readDirective (c : Cursor) : Except Fault (Token × Cursor) := do
  let start := c.mark
  let (name, after) ← c.skip.takeWhile isNameChar
  if name.isEmpty then throw (after.fault "could not find expected directive name")
  if !after.endsWordAt 0 then
    throw (after.fault "found unexpected non-alphabetical character")
  let (kind, after) ←
    if name = "YAML".toList then readVersion after
    else if name = "TAG".toList then readTagDirective after
    else throw (after.fault "found unknown directive name")
  return (after.tokenFrom start kind, ← endDirective after)

/-- The name of an anchor, after its indicator. -/
def readAnchorName (c : Cursor) : Except Fault (List Char × Cursor) := do
  let (name, after) ← c.skip.takeWhile isNameChar
  let ended := after.endsWordAt 0 || after.seesAny ("?:,]\x7d%@\x60".toList.contains ·)
  if name.isEmpty || !ended then
    throw (after.fault "did not find expected alphabetic or numeric character")
  return (name, after)

/-- The handle and the suffix of a tag. -/
def readTagParts (c : Cursor) : Except Fault ((Bytes × Bytes) × Cursor) := do
  let c ← c.demand 2
  if c.peek? 1 = some '<' then
    let (suffix, after) ← readAddress [] (c.advance 2)
    if !after.sees '>' then throw (after.fault "did not find the expected '>'")
    return (([], suffix), after.skip)
  let (handle, after) ← readHandle false c
  if 1 < handle.length && handle.getLast? == some 0x21 then
    let (suffix, after) ← readAddress [] after
    return ((handle, suffix), after)
  let (suffix, after) ← readAddress handle after
  return (if suffix.isEmpty then ([], utf8 "!") else (utf8 "!", suffix), after)

/-- A tag. -/
def readTag (c : Cursor) : Except Fault (Token × Cursor) := do
  let ((handle, suffix), after) ← readTagParts c
  let after ← after.demand 1
  if !after.endsWordAt 0 then
    throw (after.fault "did not find expected whitespace or line break")
  return (after.tokenFrom c.mark (.tag handle suffix), after)

end ScriptTidy.Yaml
