import ScriptTidy.Text.Decimal

/-!
# Variable length numbers in base 64

A signed number becomes a natural one with the sign in its lowest bit, and that is written in
groups of five bits, lowest first. Each group is one character of the base 64 alphabet, with
the bit of value 32 set on every group but the last.
-/

namespace ScriptTidy.Vlq

/-- The base 64 alphabet. -/
def alphabet : Bytes :=
  utf8 "ABCDEFGHIJKLMNOPQRSTUVWXYZabcdefghijklmnopqrstuvwxyz0123456789+/"

/-- The character of a number below 64. -/
def digit (n : Nat) : UInt8 := alphabet.getD n 0x41

/-- The number of a character of the alphabet. -/
def digitValue? (b : UInt8) : Option Nat :=
  let i := alphabet.idxOf b
  if i < alphabet.length then some i else none

/-- The number with its sign in the lowest bit, as far as it fits a 64-bit word. -/
def fold (v : Int) : Nat := (if v < 0 then 2 * v.natAbs + 1 else 2 * v.natAbs) % wordSpan

/-- The signed number behind one with the sign in its lowest bit. -/
def unfold (n : Nat) : Int := if n % 2 = 1 then -((n / 2 : Nat) : Int) else ((n / 2 : Nat) : Int)

/-- The groups of five bits of a natural number, lowest first. -/
def encodeNat (n : Nat) : Bytes :=
  if n < 32 then [digit n] else digit (n % 32 + 32) :: encodeNat (n / 32)
termination_by n

/-- The written form of a signed number. -/
def encode (v : Int) : Bytes := encodeNat (fold v)

/-! ## The loop over a word

The groups are written by a loop over a signed word. A number that needs more than 62 bits turns
into a negative word, and an arithmetic shift never brings that down to zero. -/

/-- The word that the loop starts with. -/
def shifted (v : Int) : Int := if v < 0 then wrap64 (2 * wrap64 (-v)) + 1 else wrap64 (2 * v)

/-- What the loop writes for a word. A round takes off the lowest five bits by an arithmetic shift,
and marks the digit as one that others follow while the rest is positive. -/
inductive Loop : Int → Bytes → Prop
  | last {w} (h : w / 32 = 0) : Loop w [digit (w % 32).toNat]
  | more {w rest} (h : w / 32 ≠ 0) (hrest : Loop (w / 32) rest) :
    Loop w (digit ((w % 32).toNat + if 0 < w / 32 then 32 else 0) :: rest)

/-- Whether the loop for a number comes to an end. -/
def ends (v : Int) : Bool := 0 ≤ shifted v

/-! ## Reading -/

/-- Reads groups up to one without continuation bit: the number and what follows it. -/
def decodeNat? : Bytes → Option (Nat × Bytes)
  | [] => none
  | b :: rest =>
    match digitValue? b with
    | none => none
    | some d =>
      if d < 32 then some (d, rest)
      else match decodeNat? rest with
        | some (high, rest) => some (d - 32 + 32 * high, rest)
        | none => none

/-- Reads one signed number and returns what follows it. -/
def decode? (text : Bytes) : Option (Int × Bytes) :=
  match decodeNat? text with
  | some (n, rest) => some (unfold n, rest)
  | none => none

end ScriptTidy.Vlq
