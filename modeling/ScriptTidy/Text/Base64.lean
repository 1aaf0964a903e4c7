import ScriptTidy.Text.Bytes

/-!
# Base64

Four letters of an alphabet of sixty-four stand for three bytes; at the end, equals signs fill
up an incomplete group.
-/

namespace ScriptTidy.Base64

/-- The value of a letter of the alphabet. -/
def value? (b : UInt8) : Option Nat :=
  if 0x41 ≤ b && b ≤ 0x5A then some (b.toNat - 0x41)
  else if 0x61 ≤ b && b ≤ 0x7A then some (b.toNat - 0x61 + 26)
  else if 0x30 ≤ b && b ≤ 0x39 then some (b.toNat - 0x30 + 52)
  else if b = 0x2B then some 62
  else if b = 0x2F then some 63
  else none

/-- The bytes of groups of four letters, the last of which may be filled up. -/
def decodeGroups? : Bytes → Option Bytes
  | [] => some []
  | a :: b :: c :: d :: rest => do
    let high := (← value? a) * 0x40 + (← value? b)
    if c = 0x3D ∧ d = 0x3D ∧ rest.isEmpty then return [(high / 0x10).toUInt8]
    let high := high * 0x40 + (← value? c)
    if d = 0x3D ∧ rest.isEmpty then
      return [(high / 0x400).toUInt8, (high / 4).toUInt8]
    let high := high * 0x40 + (← value? d)
    return [(high / 0x10000).toUInt8, (high / 0x100).toUInt8, high.toUInt8]
      ++ (← decodeGroups? rest)
  | _ => none

/-- The bytes that a text stands for; line breaks in it mean nothing. -/
def decode? (text : Bytes) : Option Bytes :=
  decodeGroups? (text.filter fun b => b != 0x0A && b != 0x0D)

end ScriptTidy.Base64
