import ScriptTidy.Text.Dyadic

/-!
# Quantities for people to read

Numbers with their digits in groups of three, percentages with a fixed number of places, sizes
with a decimal unit, and spans of time.
-/

namespace ScriptTidy.Measure

/-- Digits in groups of three from the right, with commas between the groups. -/
def groupDigits (digits : Bytes) : Bytes :=
  if h : digits.length ≤ 3 then digits
  else groupDigits (digits.take (digits.length - 3)) ++ [0x2C]
    ++ digits.drop (digits.length - 3)
termination_by digits.length
decreasing_by grind

/-- An integer with its digits in groups of three. -/
def grouped (n : Int) : Bytes :=
  (if n < 0 then [0x2D] else []) ++ groupDigits (natDecimal n.natAbs)

/-- The decimal digits of `n`, at least `width` of them. -/
def padded (width n : Nat) : Bytes :=
  let digits := natDecimal n
  List.replicate (width - digits.length) 0x30 ++ digits

/-- A fraction with a fixed number of places, a half rounded to the even neighbour. -/
def fixed (places : Nat) (num den : Nat) : Bytes :=
  let n := Dyadic.roundQuotient (num * Nat.pow 10 places) den
  natDecimal (n / Nat.pow 10 places)
    ++ (if places = 0 then [] else [0x2E] ++ padded places (n % Nat.pow 10 places))

/-- The floating point number nearest to a fraction that is not too large for any. -/
def rounded (num den : Nat) : Dyadic := (Dyadic.nearest? num den).getD ⟨0, 0⟩

/-- How many of a hundred `num` out of `den` are; none out of nothing. It is computed in
floating point, so that its places are those of the nearest number. -/
def percentage (num den : Nat) : Dyadic :=
  if den = 0 then ⟨0, 0⟩
  else
    let hundredfold := rounded (100 * (rounded num 1).floor) 1
    rounded hundredfold.floor (rounded den 1).floor

/-- A percentage with a fixed number of places. -/
def percent (places num den : Nat) : Bytes :=
  let (n, d) := (percentage num den).toFraction
  fixed places n d

/-- The decimal units of size. -/
def sizeUnits : List String := ["B", "kB", "MB", "GB", "TB", "PB", "EB"]

/-- How often a number can be divided by a thousand, up to the largest unit. -/
def magnitude (n : Nat) : Nat :=
  ((List.range 7).filter fun e => 0 < e && Nat.pow 1000 e ≤ n).length

/-- Tenths of a unit of size, to the nearest, computed in floating point. -/
def tenths (n e : Nat) : Nat :=
  let (a, b) := (rounded (rounded n 1).floor (Nat.pow 1000 e)).toFraction
  let (a, b) := (rounded (10 * a) b).toFraction
  (rounded (2 * a + b) (2 * b)).floor

/-- A number of bytes: plain below ten, otherwise in the largest unit that it reaches, with one
place if that leaves a single digit. -/
def byteSize (n : Nat) : Bytes :=
  let e := magnitude n
  let t := tenths n e
  (if n < 10 then natDecimal n else if t < 100 then fixed 1 t 10 else fixed 0 t 10)
    ++ utf8 " " ++ utf8 (sizeUnits.getD e "")

/-- A number of units of `10 ^ places` parts, without zeros at the end. -/
def trimmed (places n : Nat) : Bytes :=
  let fraction := ((padded places (n % Nat.pow 10 places)).reverse.dropWhile (· == 0x30)).reverse
  natDecimal (n / Nat.pow 10 places) ++ (if fraction.isEmpty then [] else [0x2E] ++ fraction)

/-- A positive number of nanoseconds: below a second in the largest unit that it reaches,
otherwise in hours, minutes and seconds. -/
def spanOf (n : Nat) : Bytes :=
  if n < 1000 then natDecimal n ++ utf8 "ns"
  else if n < 1000000 then trimmed 3 n ++ utf8 "µs"
  else if n < 1000000000 then trimmed 6 n ++ utf8 "ms"
  else
    let minutes := n / (60 * 1000000000)
    (if minutes < 60 then [] else natDecimal (minutes / 60) ++ utf8 "h")
      ++ (if minutes = 0 then [] else natDecimal (minutes % 60) ++ utf8 "m")
      ++ trimmed 9 (n % (60 * 1000000000)) ++ utf8 "s"

/-- A span of time given in nanoseconds. -/
def span (n : Int) : Bytes :=
  if n = 0 then utf8 "0s"
  else (if n < 0 then [0x2D] else []) ++ spanOf n.natAbs

end ScriptTidy.Measure
