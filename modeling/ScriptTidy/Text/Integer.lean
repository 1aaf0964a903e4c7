import ScriptTidy.Text.Decimal
import ScriptTidy.Text.Quoted

/-!
# Reading integers

Integers as people write them on command lines and in the environment: decimal digits after an
optional sign. They have to fit in a signed 64-bit word.
-/

namespace ScriptTidy

/-- Why a text is not an integer. -/
inductive IntegerFault
  | malformed
  | outOfRange
deriving DecidableEq, Repr

/-- The fault in words, for a text that `reader` was to read. -/
def IntegerFault.message (reader : String) (text : Bytes) (fault : IntegerFault) : Bytes :=
  utf8 reader ++ utf8 ": parsing " ++ Quoted.quote text ++ utf8 ": "
    ++ utf8 (match fault with
      | malformed => "invalid syntax"
      | outOfRange => "value out of range")

/-- The number spelled by decimal digits, after digits of value `acc`. Reading stops as soon as
64 bits are exceeded. -/
def readDigits (acc : Nat) : Bytes → Except IntegerFault Nat
  | [] => .ok acc
  | b :: rest =>
    let n := 10 * acc + (b.toNat - 0x30)
    if !isDigitByte b then .error .malformed
    else if wordSpan ≤ n then .error .outOfRange
    else readDigits n rest

/-- The sign of a text and what follows it. -/
def splitSign : Bytes → Bool × Bytes
  | 0x2D :: rest => (true, rest)
  | 0x2B :: rest => (false, rest)
  | rest => (false, rest)

/-- A magnitude with its sign, if it fits in a signed 64-bit word. -/
def signed (negative : Bool) (n : Nat) : Except IntegerFault Int :=
  if negative then if n ≤ halfWord then .ok (-n) else .error .outOfRange
  else if n < halfWord then .ok n else .error .outOfRange

/-- An integer in decimal digits. -/
def readInteger (text : Bytes) : Except IntegerFault Int := do
  let (negative, digits) := splitSign text
  if digits.isEmpty then throw .malformed
  signed negative (← readDigits 0 digits)

end ScriptTidy
