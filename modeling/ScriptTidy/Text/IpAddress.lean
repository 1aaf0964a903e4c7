import ScriptTidy.Text.Decimal

/-!
# Written addresses of the internet protocol

An address of version six is eight groups of hexadecimal digits with colons between them. Two
colons stand for one or more groups of zeros, once at most. The last two groups may be written
as an address of version four: four decimal numbers with points between them. A percent sign
and the name of a zone may follow.
-/

namespace ScriptTidy.IpAddress

/-- Whether a text is a number of version four: at most 255, and without zeros in front. -/
def isOctet (text : Bytes) : Bool :=
  !text.isEmpty && text.length ≤ 3 && text.all isDigitByte
    && (text.length == 1 || text.head? != some 0x30)
    && text.foldl (fun n b => 10 * n + (b.toNat - 0x30)) 0 ≤ 255

/-- Whether a text is an address of version four. -/
def isV4 (text : Bytes) : Bool :=
  let octets := Bytes.splitOn 0x2E text
  octets.length == 4 && octets.all isOctet

/-- Whether a text is a group of one to four hexadecimal digits. -/
def isGroup (text : Bytes) : Bool :=
  !text.isEmpty && text.length ≤ 4 && text.all fun b => (hexValue? (Char.ofNat b.toNat)).isSome

/-- The number of groups that a text with single colons stands for, if it is well formed. An
address of version four at its end counts for two; only the last part of an address may have
one. -/
def countGroups? (last : Bool) (text : Bytes) : Option Nat :=
  let parts := Bytes.splitOn 0x3A text
  if text.isEmpty then some 0
  else if parts.all isGroup then some parts.length
  else if last && parts.dropLast.all isGroup && parts.getLast?.any isV4 then
    some (parts.length + 1)
  else none

/-- The text before the first two colons in a row and the text after them. -/
def cutAtGap? : Bytes → Option (Bytes × Bytes)
  | 0x3A :: 0x3A :: rest => some ([], rest)
  | b :: rest => (cutAtGap? rest).map fun (front, back) => (b :: front, back)
  | [] => none

/-- Whether a text without a zone is an address of version six. -/
def isUnzonedV6 (text : Bytes) : Bool :=
  match cutAtGap? text with
  | none => countGroups? true text == some 8
  | some (front, back) =>
    match countGroups? false front, countGroups? true back with
    | some m, some n => m + n ≤ 7
    | _, _ => false

/-- Whether a text is an address of version six. The name of a zone may not be empty. -/
def isV6 (text : Bytes) : Bool :=
  let address := text.takeWhile (· != 0x25)
  isUnzonedV6 address && text.length != address.length + 1

end ScriptTidy.IpAddress
