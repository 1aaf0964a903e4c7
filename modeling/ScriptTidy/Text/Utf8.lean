import ScriptTidy.Text.Bytes

/-!
# Characters in a byte string

A byte string is read as a sequence of *glyphs*: a character together with the bytes it was
read from. Well-formed UTF-8 sequences give their character; every byte that starts no
well-formed sequence is a glyph of its own with the replacement character. Nothing is lost,
because each glyph keeps its bytes:

- `decode_le`: a glyph takes no more bytes than there are;
- `bytes_glyphs`: the bytes of the glyphs of a text are the text.
-/

namespace ScriptTidy

/-- What is read in place of a byte that belongs to no well-formed sequence. -/
def replacementChar : Char := Char.ofNat 0xFFFD

/-- A character and the bytes that stand for it in the text. -/
structure Glyph where
  char : Char
  bytes : Bytes
deriving DecidableEq, Repr

namespace Utf8

/-- A byte that may follow the first byte of a sequence. -/
def isTail (b : UInt8) : Bool := 0x80 ≤ b && b ≤ 0xBF

/-- The second byte of a three-byte sequence: after `E0` no overlong form, after `ED` no
surrogate. -/
def isSecondOfThree (lead b : UInt8) : Bool :=
  if lead = 0xE0 then 0xA0 ≤ b && b ≤ 0xBF
  else if lead = 0xED then 0x80 ≤ b && b ≤ 0x9F
  else isTail b

/-- The second byte of a four-byte sequence: after `F0` no overlong form, after `F4` nothing
beyond U+10FFFF. -/
def isSecondOfFour (lead b : UInt8) : Bool :=
  if lead = 0xF0 then 0x90 ≤ b && b ≤ 0xBF
  else if lead = 0xF4 then 0x80 ≤ b && b ≤ 0x8F
  else isTail b

/-- The six low bits of a byte after the first. -/
def tailBits (b : UInt8) : Nat := b.toNat % 0x40

/-- The character that starts with the byte `b`, followed by `r`, and the number of bytes of
`r` that belong to it. -/
def decode (b : UInt8) (r : Bytes) : Char × Nat :=
  if b < 0x80 then (Char.ofNat b.toNat, 0)
  else if 0xC2 ≤ b && b ≤ 0xDF then
    match r with
    | c :: _ =>
      if isTail c then (Char.ofNat (b.toNat % 0x20 * 0x40 + tailBits c), 1)
      else (replacementChar, 0)
    | [] => (replacementChar, 0)
  else if 0xE0 ≤ b && b ≤ 0xEF then
    match r with
    | c :: d :: _ =>
      if isSecondOfThree b c && isTail d then
        (Char.ofNat (b.toNat % 0x10 * 0x1000 + tailBits c * 0x40 + tailBits d), 2)
      else (replacementChar, 0)
    | _ => (replacementChar, 0)
  else if 0xF0 ≤ b && b ≤ 0xF4 then
    match r with
    | c :: d :: e :: _ =>
      if isSecondOfFour b c && isTail d && isTail e then
        (Char.ofNat (b.toNat % 8 * 0x40000 + tailBits c * 0x1000 + tailBits d * 0x40
          + tailBits e), 3)
      else (replacementChar, 0)
    | _ => (replacementChar, 0)
  else (replacementChar, 0)

/-- A glyph takes no more bytes than there are. -/
theorem decode_le (b : UInt8) (r : Bytes) : (decode b r).2 ≤ r.length := by
  unfold decode
  repeat' split
  all_goals grind

/-- The glyphs of a text, in order. -/
def glyphs : Bytes → List Glyph
  | [] => []
  | b :: r =>
    let d := decode b r
    ⟨d.1, b :: r.take d.2⟩ :: glyphs (r.drop d.2)
termination_by text => text.length
decreasing_by grind

/-- The characters of a text, with the replacement character for stray bytes. -/
def chars (text : Bytes) : List Char := (glyphs text).map (·.char)

/-- Nothing is lost: the bytes of the glyphs of a text are the text. -/
theorem bytes_glyphs (text : Bytes) : (glyphs text).flatMap (·.bytes) = text := by
  fun_induction glyphs text with
  | case1 => rfl
  | case2 b r d ih => simp [List.flatMap_cons, ih]

/-- The bytes of a code point in the layout of UTF-8. Surrogates, which UTF-8 proper leaves
out, get the three bytes that the layout gives them. -/
def encode (n : Nat) : Bytes :=
  if n < 0x80 then [n.toUInt8]
  else if n < 0x800 then [(0xC0 + n / 0x40).toUInt8, (0x80 + n % 0x40).toUInt8]
  else if n < 0x10000 then
    [(0xE0 + n / 0x1000).toUInt8, (0x80 + n / 0x40 % 0x40).toUInt8, (0x80 + n % 0x40).toUInt8]
  else
    [(0xF0 + n / 0x40000).toUInt8, (0x80 + n / 0x1000 % 0x40).toUInt8,
      (0x80 + n / 0x40 % 0x40).toUInt8, (0x80 + n % 0x40).toUInt8]

/-- The bytes of a character. -/
def encodeChar (c : Char) : Bytes := encode c.toNat

/-- The bytes of a sequence of characters. -/
def encodeChars (cs : List Char) : Bytes := cs.flatMap encodeChar

/-- Whether the text is well-formed UTF-8 throughout: a stray byte is a replacement character
that was read from a single byte. -/
def isWellFormed (text : Bytes) : Bool :=
  (glyphs text).all fun g => !(g.char == replacementChar && g.bytes.length == 1)

/-- The text with each stray byte replaced by the bytes of the replacement character. -/
def repair (text : Bytes) : Bytes := encodeChars (chars text)

end Utf8

/-- The number of UTF-16 units a character takes: two beyond the Basic Multilingual Plane. -/
def utf16Width (c : Char) : Nat := if c.toNat < 0x10000 then 1 else 2

end ScriptTidy
