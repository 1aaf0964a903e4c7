import ScriptTidy.Text.Decimal
import ScriptTidy.Text.Utf8

/-!
# Character references

Attribute values may hold references to characters by number or by name. A value is only asked
whether it names a type of script, so of the named references only those are resolved that
stand for ASCII characters, white space or letters with an ASCII lower case; any other named
reference makes the value name nothing, resolved or not.
-/

namespace ScriptTidy.CharRef

/-- The named references that can be part of the name of a type, by name without the ampersand,
and the code points they stand for. -/
def named : List (String × List Nat) := [
  ("AMP", [0x26]), ("AMP;", [0x26]), ("DiacriticalGrave;", [0x60]), ("GT", [0x3E]),
  ("GT;", [0x3E]), ("Hat;", [0x5E]), ("Idot;", [0x130]), ("LT", [0x3C]), ("LT;", [0x3C]),
  ("MediumSpace;", [0x205F]), ("NewLine;", [0xA]), ("NonBreakingSpace;", [0xA0]),
  ("QUOT", [0x22]), ("QUOT;", [0x22]), ("Tab;", [0x9]), ("ThickSpace;", [0x205F, 0x200A]),
  ("ThinSpace;", [0x2009]), ("UnderBar;", [0x5F]), ("VerticalLine;", [0x7C]),
  ("VeryThinSpace;", [0x200A]), ("amp", [0x26]), ("amp;", [0x26]), ("apos;", [0x27]),
  ("ast;", [0x2A]), ("bsol;", [0x5C]), ("colon;", [0x3A]), ("comma;", [0x2C]),
  ("commat;", [0x40]), ("dollar;", [0x24]), ("emsp13;", [0x2004]), ("emsp14;", [0x2005]),
  ("emsp;", [0x2003]), ("ensp;", [0x2002]), ("equals;", [0x3D]), ("excl;", [0x21]),
  ("fjlig;", [0x66, 0x6A]), ("grave;", [0x60]), ("gt", [0x3E]), ("gt;", [0x3E]),
  ("hairsp;", [0x200A]), ("lbrace;", [0x7B]), ("lbrack;", [0x5B]), ("lcub;", [0x7B]),
  ("lowbar;", [0x5F]), ("lpar;", [0x28]), ("lsqb;", [0x5B]), ("lt", [0x3C]), ("lt;", [0x3C]),
  ("midast;", [0x2A]), ("nbsp", [0xA0]), ("nbsp;", [0xA0]), ("num;", [0x23]),
  ("numsp;", [0x2007]), ("percnt;", [0x25]), ("period;", [0x2E]), ("plus;", [0x2B]),
  ("puncsp;", [0x2008]), ("quest;", [0x3F]), ("quot", [0x22]), ("quot;", [0x22]),
  ("rbrace;", [0x7D]), ("rbrack;", [0x5D]), ("rcub;", [0x7D]), ("rpar;", [0x29]),
  ("rsqb;", [0x5D]), ("semi;", [0x3B]), ("sol;", [0x2F]), ("thinsp;", [0x2009]),
  ("verbar;", [0x7C]), ("vert;", [0x7C])]

/-- The code points that the numbers `80` to `9F` stand for. -/
def windowsControls : List Nat :=
  [0x20AC, 0x81, 0x201A, 0x192, 0x201E, 0x2026, 0x2020, 0x2021, 0x2C6, 0x2030, 0x160, 0x2039,
   0x152, 0x8D, 0x17D, 0x8F, 0x90, 0x2018, 0x2019, 0x201C, 0x201D, 0x2022, 0x2013, 0x2014, 0x2DC,
   0x2122, 0x161, 0x203A, 0x153, 0x9D, 0x17E, 0x178]

/-- The code point that a number stands for. Numbers are kept in a 32-bit word, and those that
are no character give the replacement character. -/
def ofNumber (n : Int) : Nat :=
  if 0x80 ≤ n ∧ n ≤ 0x9F then windowsControls.getD (n.toNat - 0x80) 0xFFFD
  else if n ≤ 0 ∨ (0xD800 ≤ n ∧ n ≤ 0xDFFF) ∨ 0x10FFFF < n then 0xFFFD
  else n.toNat

/-- The number that digits of a base spell in a 32-bit word. -/
def wordValue (base : Nat) (digits : Bytes) : Int :=
  digits.foldl (fun n b =>
    (n * base + ((hexValue? (Char.ofNat b.toNat)).getD 0 : Nat)).bmod 0x100000000) 0

/-- Whether the byte is a digit of the base. -/
def isDigit (base : Nat) (b : UInt8) : Bool := b < 0x80 && isDigitIn base (Char.ofNat b.toNat)

/-- Reads a reference by number behind `&#`. At least two characters have to belong to it, a
final semicolon included. The result is the text it stands for and what follows. -/
def readNumber? (r : Bytes) : Option (Bytes × Bytes) :=
  if r.length < 2 then none
  else
    let (base, body, marked) := match r with
      | 0x78 :: body | 0x58 :: body => (16, body, 1)
      | _ => (10, r, 0)
    let digits := body.takeWhile (isDigit base)
    let rest := body.drop digits.length
    let (rest, closed) := match rest with
      | 0x3B :: rest => (rest, 1)
      | _ => (rest, 0)
    if marked + digits.length + closed < 2 then none
    else some (Utf8.encode (ofNumber (wordValue base digits)), rest)

/-- Whether the byte can be part of a name. -/
def isNameByte (b : UInt8) : Bool :=
  (0x61 ≤ b && b ≤ 0x7A) || (0x41 ≤ b && b ≤ 0x5A) || isDigitByte b

/-- Reads a reference by name behind `&`: the name with its semicolon, and what follows. -/
def readName (r : Bytes) : Bytes × Bytes :=
  let name := r.takeWhile isNameByte
  match r.drop name.length with
  | 0x3B :: rest => (name ++ [0x3B], rest)
  | rest => (name, rest)

/-- The text that a named reference in an attribute stands for. A name without semicolon in
front of an equals sign is no reference. -/
def resolveName? (name rest : Bytes) : Option Bytes :=
  if name.getLast? ≠ some 0x3B ∧ rest.head? = some 0x3D then none
  else (named.find? fun e => utf8 e.1 == name).map fun e => e.2.flatMap Utf8.encode

/-- The value of an attribute with its references resolved, in at most `fuel` steps. -/
def unescapeWith : (fuel : Nat) → Bytes → Bytes
  | 0, text => text
  | _, [] => []
  | fuel + 1, b :: r =>
    if b ≠ 0x26 then b :: unescapeWith fuel r
    else match r with
      | 0x23 :: number =>
        match readNumber? number with
        | some (text, rest) => text ++ unescapeWith fuel rest
        | none => b :: unescapeWith fuel r
      | _ =>
        let (name, rest) := readName r
        (match resolveName? name rest with
          | some text => text
          | none => b :: name) ++ unescapeWith fuel rest

/-- The value of an attribute with its references resolved. -/
def unescape (text : Bytes) : Bytes := unescapeWith text.length text

end ScriptTidy.CharRef
