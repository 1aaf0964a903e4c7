import ScriptTidy.Text.Integer

/-!
# Values in messages

A message shows a text or a number the way a verb asks for: the verb's letter chooses the
notation, and its style the width, the precision and the marks. A letter that does not suit the
value is shown together with the value and its kind.
-/

namespace ScriptTidy.Verb

/-- An argument of a message. -/
inductive Argument
  | text (s : Bytes)
  | number (n : Int)
deriving DecidableEq, Repr

/-- What a verb says besides its letter. -/
structure Style where
  left : Bool := false
  plus : Bool := false
  space : Bool := false
  sharp : Bool := false
  zero : Bool := false
  /-- Whether texts are written as literals. -/
  literal : Bool := false
  width : Option Nat := none
  precision : Option Nat := none

/-- The style as letters for any kind of value take it: instead of marks on the value, a sharp
asks for a literal, and a plus for nothing at all. -/
def Style.general (st : Style) : Style :=
  { st with literal := st.sharp, sharp := false, plus := false }

/-- The name of the kind of an argument. -/
def Argument.kindName : Argument → Bytes
  | text _ => utf8 "string"
  | number _ => utf8 "int"

/-! ## Width and precision -/

/-- The number of characters of a text. -/
def charCount (s : Bytes) : Nat := (Utf8.glyphs s).length

/-- A text filled up to the width. -/
def pad (st : Style) (s : Bytes) : Bytes :=
  let fill := st.width.getD 0 - charCount s
  if st.left then s ++ List.replicate fill 0x20
  else List.replicate fill (if st.zero then 0x30 else 0x20) ++ s

/-- A text filled up to the width with blanks. -/
def padBlank (st : Style) (s : Bytes) : Bytes := pad { st with zero := false } s

/-- The first characters of a text, as many as the precision says. -/
def truncate (st : Style) (s : Bytes) : Bytes :=
  match st.precision with
  | none => s
  | some p => ((Utf8.glyphs s).take p).flatMap (·.bytes)

/-! ## Texts -/

/-- Whether a text can stand between backquotes: it has no control characters but tabs, no
backquotes, no byte order marks and no stray bytes. -/
def canBackquote (s : Bytes) : Bool :=
  (Utf8.glyphs s).all fun g =>
    match g.bytes with
    | [_] => g.char != replacementChar && g.char != '\x60' && g.char != '\x7f'
        && (0x20 ≤ g.char.toNat || g.char == '\t')
    | _ => g.char.toNat != 0xFEFF

/-- A text in quotes: in backquotes if a sharp asks for that and it is possible, and with ASCII
characters only if a plus asks for that. -/
def quoted (st : Style) (s : Bytes) : Bytes :=
  if st.sharp && canBackquote s then [0x60] ++ s ++ [0x60]
  else if st.plus then Quoted.quoteWith Quoted.isPlainAscii s
  else Quoted.quote s

/-- The bytes of a text in hexadecimal. A blank asks for blanks between the bytes, a sharp for
`mark` in front of each part. -/
def hexBytes (st : Style) (digit : Nat → UInt8) (mark : String) (s : Bytes) : Bytes :=
  let parts := s.map fun b => hexPadded digit 2 b.toNat
  let lead := if st.sharp then utf8 mark else []
  if parts.isEmpty then []
  else if st.space then Bytes.joinWith [0x20] (parts.map fun part => lead ++ part)
  else lead ++ parts.flatten

/-- The bytes of a text in hexadecimal, as many as the precision says. -/
def hexText (st : Style) (digit : Nat → UInt8) (mark : String) (s : Bytes) : Bytes :=
  pad st (hexBytes st digit mark (s.take (st.precision.getD s.length)))

/-- A text as a letter asks for it; none if the letter does not suit texts. -/
def writeText? (st : Style) (letter : Char) (s : Bytes) : Option Bytes :=
  match letter with
  | 's' => some (pad st (truncate st s))
  | 'v' => some (pad st (if st.literal then quoted st (truncate st s) else truncate st s))
  | 'q' => some (pad st (quoted st (truncate st s)))
  | 'x' => some (hexText st lowerHexDigit "0x" s)
  | 'X' => some (hexText st upperHexDigit "0X" s)
  | _ => none

/-! ## Numbers -/

/-- The digits of a number in a base, with at least one digit. -/
def digitsOf (digit : Nat → UInt8) (base : Nat) (n : Nat) : Bytes :=
  if n < base ∨ base < 2 then [digit n]
  else digitsOf digit base (n / base) ++ [digit (n % base)]
termination_by n
decreasing_by
  have := Nat.div_lt_self (n := n) (k := base) (by omega) (by omega)
  omega

/-- The sign of a number. -/
def signOf (st : Style) (n : Int) : Bytes :=
  if n < 0 then [0x2D] else if st.plus then [0x2B] else if st.space then [0x20] else []

/-- Digits with zeros in front, up to a number of digits. -/
def zeroFilled (least : Nat) (digits : Bytes) : Bytes :=
  List.replicate (least - digits.length) 0x30 ++ digits

/-- A number in a base. The precision, or else the width if zeros are to fill it, is the least
number of digits; a zero with a precision of zero has none and nothing else. `marked` puts the
mark of the base in front of the digits. -/
def writeNumber (st : Style) (digit : Nat → UInt8) (base : Nat) (marked : Bytes → Bytes)
    (n : Int) : Bytes :=
  let least := match st.precision with
    | some p => p
    | none => if st.zero && !st.left then st.width.getD 0 - (signOf st n).length else 0
  if st.precision = some 0 ∧ n = 0 then padBlank st []
  else padBlank st (signOf st n ++ marked (zeroFilled least (digitsOf digit base n.natAbs)))

/-- The character with a number, the replacement character if there is none. -/
def charOf (n : Int) : Char :=
  if 0 ≤ n ∧ n < 0x110000 ∧ ¬ (0xD800 ≤ n ∧ n < 0xE000) then Char.ofNat n.toNat
  else replacementChar

/-- A number as a code point: at least four hexadecimal digits, and the character itself if a
sharp asks for it and it is printable. -/
def codePointOf (st : Style) (n : Int) : Bytes :=
  let word := (n % wordSpan).toNat
  utf8 "U+" ++ zeroFilled (max 4 (st.precision.getD 0)) (digitsOf upperHexDigit 16 word)
    ++ (if st.sharp && isPrintable word then utf8 " '" ++ Utf8.encode word ++ utf8 "'" else [])

/-- A number as a letter asks for it; none if the letter does not suit numbers. -/
def writeNumber? (st : Style) (letter : Char) (n : Int) : Option Bytes :=
  let mark := fun (lead : String) (digits : Bytes) =>
    if st.sharp then utf8 lead ++ digits else digits
  let octalMark := fun (digits : Bytes) =>
    if st.sharp && digits.head? != some 0x30 then 0x30 :: digits else digits
  match letter with
  | 'd' | 'v' => some (writeNumber st lowerHexDigit 10 id n)
  | 'b' => some (writeNumber st lowerHexDigit 2 (mark "0b") n)
  | 'o' => some (writeNumber st lowerHexDigit 8 octalMark n)
  | 'O' => some (writeNumber st lowerHexDigit 8 (fun ds => utf8 "0o" ++ octalMark ds) n)
  | 'x' => some (writeNumber st lowerHexDigit 16 (mark "0x") n)
  | 'X' => some (writeNumber st upperHexDigit 16 (mark "0X") n)
  | 'c' => some (pad st (Utf8.encodeChar (charOf n)))
  | 'q' => some (pad st (Quoted.quoteCharWith
      (if st.plus then Quoted.isPlainAscii else isPrintable) (charOf n)))
  | 'U' => some (padBlank st (codePointOf st n))
  | _ => none

/-! ## Arguments -/

/-- An argument as a letter asks for it; none if the letter does not suit it. -/
def write? (st : Style) (letter : Char) : Argument → Option Bytes
  | .text s => writeText? st letter s
  | .number n => writeNumber? st letter n

/-- An argument as a verb asks for it. A letter that does not suit the argument is shown with
the argument's kind and value. -/
def write (st : Style) (letter : Char) (a : Argument) : Bytes :=
  let st := if letter = 'v' ∨ letter = 'w' then st.general else st
  if letter = 'T' then pad st (truncate st a.kindName)
  else match write? st letter a with
    | some s => s
    | none =>
      utf8 "%!" ++ Utf8.encodeChar letter ++ utf8 "(" ++ a.kindName ++ utf8 "="
        ++ (write? st 'v' a).getD [] ++ utf8 ")"

/-- An argument as it is shown if nothing special is asked for. -/
def plain (a : Argument) : Bytes := write {} 'v' a

/-- Arguments side by side with blanks between them, and the end of the line. -/
def line (args : List Argument) : Bytes :=
  Bytes.joinWith (utf8 " ") (args.map plain) ++ [0x0A]

end ScriptTidy.Verb
