import ScriptTidy.Text.Decimal

/-!
# Numbers in binary floating point

The numbers that a 64-bit binary floating point word can hold are `m * 2^e` with `m` below
`2^53` and `e` between `-1074` and `971`. `nearest?` gives the one nearest to a fraction, an
even `m` winning a tie, and `ofDecimal?` the one nearest to a number in decimal notation.
Everything is exact arithmetic on natural numbers.
-/

namespace ScriptTidy

/-- The number `mantissa * 2 ^ exponent`. -/
structure Dyadic where
  mantissa : Nat
  exponent : Int
deriving DecidableEq, Repr

namespace Dyadic

/-- The quotient rounded to the nearest natural number, a half to the even neighbour. -/
def roundQuotient (num den : Nat) : Nat :=
  let q := num / den
  let r := num % den
  if 2 * r < den then q
  else if den < 2 * r then q + 1
  else q + q % 2

/-- The fraction `num / (den * 2 ^ e)`. -/
def scaled (num den : Nat) (e : Int) : Nat × Nat :=
  if 0 ≤ e then (num, den * Nat.pow 2 e.toNat) else (num * Nat.pow 2 (-e).toNat, den)

/-- The exponent with which the quotient `num / den` has a mantissa of 53 bits, but never less
than the smallest exponent. -/
def exponentOf (num den : Nat) : Int :=
  let e : Int := (num.log2 : Int) - den.log2 - 52
  let (n, d) := scaled num den e
  max (if n / d < 0x10000000000000 then e - 1 else e) (-1074)

/-- The number nearest to `num / den`; none if that is too large for any. -/
def nearest? (num den : Nat) : Option Dyadic :=
  if num = 0 then some ⟨0, 0⟩
  else
    let e := exponentOf num den
    let (n, d) := scaled num den e
    let m := roundQuotient n d
    let rounded : Dyadic := if m = 0x20000000000000 then ⟨0x10000000000000, e + 1⟩ else ⟨m, e⟩
    if 971 < rounded.exponent then none else some rounded

/-- The number as a fraction. -/
def toFraction (x : Dyadic) : Nat × Nat :=
  if 0 ≤ x.exponent then (x.mantissa * Nat.pow 2 x.exponent.toNat, 1)
  else (x.mantissa, Nat.pow 2 (-x.exponent).toNat)

/-- The integer part. -/
def floor (x : Dyadic) : Nat := x.toFraction.1 / x.toFraction.2

/-- The number nearest to a natural number. -/
def ofNat? (n : Nat) : Option Dyadic := nearest? n 1

/-- The number nearest to the product with a natural number. -/
def scaleBy? (x : Dyadic) (n : Nat) : Option Dyadic :=
  nearest? (x.toFraction.1 * n) x.toFraction.2

/-- The number nearest to `digits * 10 ^ e`. Exponents far outside of the range are decided
without computing the power. -/
def ofPower? (digits : Nat) (e : Int) : Option Dyadic :=
  if digits = 0 then some ⟨0, 0⟩
  else if 400 < e then none
  else if 0 ≤ e then nearest? (digits * Nat.pow 10 e.toNat) 1
  else if (digits.log2 : Int) < -3 * e - 1200 then some ⟨0, 0⟩
  else nearest? digits (Nat.pow 10 (-e).toNat)

/-- An exponent after a number: a letter `e`, a sign and at least one digit, up to the end. -/
def readExponent? : Bytes → Option Int
  | [] => some 0
  | b :: rest =>
    if b != 0x65 && b != 0x45 then none
    else
      let (negative, digits) := match rest with
        | 0x2D :: r => (true, r)
        | 0x2B :: r => (false, r)
        | r => (false, r)
      if digits.isEmpty || !digits.all isDigitByte then none
      else
        let value : Int := min (digitsValue digits) 100000
        some (if negative then -value else value)

/-- The number that a decimal notation without sign stands for: digits with at most one point
among them, at least one digit, and perhaps an exponent. The outer answer is `none` for any
other text, the inner one for a number that is too large. -/
def ofDecimal? (text : Bytes) : Option (Option Dyadic) :=
  let (whole, rest) := text.span isDigitByte
  let (places, rest) := match rest with
    | 0x2E :: r => r.span isDigitByte
    | r => ([], r)
  if whole.isEmpty && places.isEmpty then none
  else
    (readExponent? rest).map fun e => ofPower? (digitsValue (whole ++ places)) (e - places.length)

end Dyadic

end ScriptTidy
