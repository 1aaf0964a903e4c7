/-!
# Byte strings

Every text the formatter reads or writes is a string of bytes: sources may hold bytes that
are no UTF-8, and they have to survive. A byte string is a plain list, so `++`, `take`,
`drop` and `span` and their lemmas apply to it as they are. `utf8` gives the bytes of the
fixed texts that the program itself writes.
-/

namespace ScriptTidy

/-- A text as the bytes it is stored in. -/
abbrev Bytes := List UInt8

/-- The bytes of a text that is known to be Unicode. -/
def utf8 (s : String) : Bytes := s.toList.flatMap String.utf8EncodeChar

namespace Bytes

/-- The byte of an ASCII character. -/
def ofAscii (c : Char) : UInt8 := c.toNat.toUInt8

/-- `count` copies of `text`, one after the other. -/
def replicate (count : Nat) (text : Bytes) : Bytes := (List.replicate count text).flatten

/-- The pieces of `text` between the bytes `sep`; there is always at least one piece. -/
def splitOn (sep : UInt8) : Bytes → List Bytes
  | [] => [[]]
  | b :: r =>
    if b = sep then [] :: splitOn sep r
    else match splitOn sep r with
      | [] => [[b]]
      | piece :: pieces => (b :: piece) :: pieces

/-- The pieces joined with `sep` between them. -/
def joinWith (sep : Bytes) (pieces : List Bytes) : Bytes := sep.intercalate pieces

/-- Strict lexicographic order by byte. -/
def lt (a b : Bytes) : Bool :=
  match a, b with
  | _, [] => false
  | [], _ :: _ => true
  | x :: a, y :: b => if x = y then lt a b else x < y

/-- What follows `head` in `text`, if `text` starts with it. -/
def dropHead? : (head text : Bytes) → Option Bytes
  | [], text => some text
  | _ :: _, [] => none
  | h :: head, b :: text => if h = b then dropHead? head text else none

/-- `text` without `tail` at its end; unchanged if it does not end so. -/
def trimTail (tail text : Bytes) : Bytes :=
  match dropHead? tail.reverse text.reverse with
  | some r => r.reverse
  | none => text

/-- Whether `piece` occurs somewhere in `text`. -/
def contains (piece : Bytes) : Bytes → Bool
  | [] => piece.isEmpty
  | b :: text => piece.isPrefixOf (b :: text) || contains piece text

/-- ASCII upper case letters made lower case, all other bytes kept. -/
def toLowerAscii (text : Bytes) : Bytes :=
  text.map fun b => if 0x41 ≤ b && b ≤ 0x5A then b + 0x20 else b

end Bytes

end ScriptTidy
