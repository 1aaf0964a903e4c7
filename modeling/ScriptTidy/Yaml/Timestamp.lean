import ScriptTidy.Text.Decimal

/-!
# Dates and times in YAML

A date is a year of four digits, a month and a day; a time of day may follow after a letter
`T` with an offset from universal time, or after blanks without one.
-/

namespace ScriptTidy.Yaml

/-- A number of one or two digits. -/
def readOneOrTwo? : Bytes → Option (Nat × Bytes)
  | a :: b :: rest =>
    if !isDigitByte a then none
    else if isDigitByte b then some (digitsValue [a, b], rest)
    else some (digitsValue [a], b :: rest)
  | [a] => if isDigitByte a then some (digitsValue [a], []) else none
  | [] => none

/-- A number of exactly two digits. -/
def readTwo? : Bytes → Option (Nat × Bytes)
  | a :: b :: rest =>
    if isDigitByte a && isDigitByte b then some (digitsValue [a, b], rest) else none
  | _ => none

/-- The number of days of a month. -/
def daysIn (year month : Nat) : Nat :=
  if month = 2 then
    if year % 4 = 0 ∧ (year % 100 ≠ 0 ∨ year % 400 = 0) then 29 else 28
  else if [4, 6, 9, 11].contains month then 30
  else 31

/-- Hours, minutes and seconds, the seconds perhaps with digits after a point or a comma. Gives
what follows them. -/
def readTimeOfDay? (text : Bytes) : Option Bytes := do
  let (hour, text) ← readOneOrTwo? text
  let (minute, text) ← readOneOrTwo? (← Bytes.dropHead? [0x3A] text)
  let (second, text) ← readOneOrTwo? (← Bytes.dropHead? [0x3A] text)
  if 24 ≤ hour ∨ 60 ≤ minute ∨ 60 ≤ second then none
  match text with
  | mark :: digit :: rest =>
    if (mark = 0x2E ∨ mark = 0x2C) ∧ isDigitByte digit then return rest.dropWhile isDigitByte
    else return text
  | _ => return text

/-- Whether the text is an offset from universal time: `Z`, or a sign, hours and minutes. A whole
day and a whole hour still count. -/
def isOffset (text : Bytes) : Bool :=
  match text with
  | [0x5A] => true
  | sign :: rest =>
    (sign = 0x2B ∨ sign = 0x2D) && (do
      let (hours, rest) ← readTwo? rest
      let (minutes, rest) ← readTwo? (← Bytes.dropHead? [0x3A] rest)
      guard (hours ≤ 24 ∧ minutes ≤ 60 ∧ rest.isEmpty)).isSome
  | [] => false

/-- Whether the text is a date or a date and a time. -/
def isTimestamp (text : Bytes) : Bool :=
  let (digits, rest) := text.span isDigitByte
  digits.length == 4 && (do
    let (month, rest) ← readOneOrTwo? (← Bytes.dropHead? [0x2D] rest)
    let (day, rest) ← readOneOrTwo? (← Bytes.dropHead? [0x2D] rest)
    guard (1 ≤ month ∧ month ≤ 12 ∧ 1 ≤ day ∧ day ≤ daysIn (digitsValue digits) month)
    match rest with
    | [] => return ()
    | separator :: time =>
      if separator = 0x54 ∨ separator = 0x74 then guard (isOffset (← readTimeOfDay? time))
      else
        let rest ← readTimeOfDay? (time.dropWhile (· == 0x20))
        guard (separator = 0x20 ∧ rest.isEmpty)).isSome

end ScriptTidy.Yaml
