import ScriptTidy.Text.Bytes

/-!
# Integers as digits

Decimal and hexadecimal digits, written and read.
-/

namespace ScriptTidy

/-- The value of a hexadecimal digit. -/
def hexValue? (c : Char) : Option Nat :=
  if '0' ≤ c ∧ c ≤ '9' then some (c.toNat - 0x30)
  else if 'a' ≤ c ∧ c ≤ 'f' then some (c.toNat - 0x61 + 10)
  else if 'A' ≤ c ∧ c ≤ 'F' then some (c.toNat - 0x41 + 10)
  else none

/-- Whether `c` is a digit in the given base, which is at most sixteen. -/
def isDigitIn (base : Nat) (c : Char) : Bool :=
  match hexValue? c with
  | some d => d < base
  | none => false

/-- The lower case hexadecimal digit of a number below sixteen. -/
def lowerHexDigit (d : Nat) : UInt8 := (if d < 10 then 0x30 + d else 0x57 + d).toUInt8

/-- The upper case hexadecimal digit of a number below sixteen. -/
def upperHexDigit (d : Nat) : UInt8 := (if d < 10 then 0x30 + d else 0x37 + d).toUInt8

/-- The lowest `width` hexadecimal digits of `n`, highest first. -/
def hexPadded (digit : Nat → UInt8) : (width n : Nat) → Bytes
  | 0, _ => []
  | w + 1, n => hexPadded digit w (n / 16) ++ [digit (n % 16)]

/-- The decimal digits of a natural number, without leading zeros. -/
def natDecimal (n : Nat) : Bytes :=
  if n < 10 then [(0x30 + n).toUInt8] else natDecimal (n / 10) ++ [(0x30 + n % 10).toUInt8]
termination_by n

/-- The decimal digits of an integer, with a minus sign in front of a negative one. -/
def intDecimal : Int → Bytes
  | .ofNat n => natDecimal n
  | .negSucc n => 0x2D :: natDecimal (n + 1)

/-- Whether the byte is an ASCII decimal digit. -/
def isDigitByte (b : UInt8) : Bool := 0x30 ≤ b && b ≤ 0x39

/-- The number that a sequence of decimal digits spells, read from the left. -/
def digitsValue (digits : Bytes) : Nat :=
  digits.foldl (fun n b => 10 * n + (b.toNat - 0x30)) 0

/-- The number of values of a 64-bit word, `2^64`. -/
abbrev wordSpan : Nat := 0x10000000000000000

/-- Half of that number, `2^63`: a signed word is at least `-halfWord` and below `halfWord`. -/
abbrev halfWord : Nat := 0x8000000000000000

/-- The number modulo `2^64`, taken between `-2^63` and `2^63 - 1`: what remains of an integer
that is kept in a 64-bit word. -/
def wrap64 (n : Int) : Int := n.bmod wordSpan

/-- A number that fits the word is kept. -/
theorem wrap64_eq_self {n : Int} (h : -0x8000000000000000 ≤ n ∧ n < 0x8000000000000000) :
    wrap64 n = n := by
  have hspan : (wordSpan : Int) = 0x10000000000000000 := rfl
  exact Int.bmod_eq_of_le_mul_two (by omega) (by omega)

end ScriptTidy
