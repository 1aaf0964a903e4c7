import ScriptTidy.Scanner.Cursor
import ScriptTidy.Scanner.LexError

/-!
# Escape sequences

Escapes stand for code points in names and for arbitrary texts in strings. Each reader starts
behind the characters that announced the escape and returns what it stands for and the cursor
behind it. No reader moves backwards (`readCodePoint_length_le`, `readEscape_length_le`), which
is why the loops over names and strings end.
-/

namespace ScriptTidy.Scanner

open Cursor (next? advance advanceBy next?_length advance_length_le)

/-- `count` hexadecimal digits, behind digits that spell `value`. -/
def readHex : (count value : Nat) → Cursor → Except LexFault (Nat × Cursor)
  | 0, value, c => .ok (value, c)
  | count + 1, value, c =>
    match c.next? with
    | some (ch, d) =>
      match hexValue? ch with
      | some x => readHex count (value * 16 + x) d
      | none => .error .badEscape
    | none => .error .badEscape

/-- The digits of a braced code point and the closing brace; `value` is what the digits so far
spell, nothing before the first. -/
def readBraced (value : Option Nat) (c : Cursor) : Except LexFault (Nat × Cursor) :=
  match _h : c.next? with
  | none => .error .badEscape
  | some (ch, d) =>
    if ch = '\x7d' then
      match value with
      | some v => .ok (v, d)
      | none => .error .badEscape
    else match hexValue? ch with
      | none => .error .badEscape
      | some x =>
        let v := value.getD 0 * 16 + x
        if 0x10FFFF < v then .error .codePointOutOfBounds else readBraced (some v) d
termination_by c.rest.length
decreasing_by exact next?_length _h

/-- The code point of a `\u` escape: four digits, or any number of them in braces. -/
def readCodePoint (c : Cursor) : Except LexFault (Nat × Cursor) :=
  if c.peek? = some '\x7b' then readBraced none c.advance else readHex 4 0 c

theorem readHex_length_le {count value n : Nat} {c d : Cursor}
    (h : readHex count value c = .ok (n, d)) : d.rest.length ≤ c.rest.length := by
  fun_induction readHex count value c with
  | case1 => cases h; exact Nat.le_refl _
  | case2 count value c ch e hn x hx ih =>
    exact Nat.le_trans (ih h) (Nat.le_of_lt (next?_length hn))
  | case3 => cases h
  | case4 => cases h

theorem readBraced_length_le {value : Option Nat} {n : Nat} {c d : Cursor}
    (h : readBraced value c = .ok (n, d)) : d.rest.length ≤ c.rest.length := by
  fun_induction readBraced value c with
  | case1 => cases h
  | case2 => cases h; exact Nat.le_of_lt (next?_length (by assumption))
  | case3 => cases h
  | case4 => cases h
  | case5 => cases h
  | case6 value c ch e hn hb x hx v hv ih =>
    exact Nat.le_trans (ih h) (Nat.le_of_lt (next?_length hn))

theorem readCodePoint_length_le {n : Nat} {c d : Cursor} (h : readCodePoint c = .ok (n, d)) :
    d.rest.length ≤ c.rest.length := by
  unfold readCodePoint at h
  split at h
  · exact Nat.le_trans (readBraced_length_le h) (advance_length_le c)
  · exact readHex_length_le h

/-- The first half of a pair of UTF-16 surrogates. -/
def isHighSurrogate (n : Nat) : Bool := 0xD800 ≤ n && n < 0xDC00

/-- The second half of a pair of UTF-16 surrogates. -/
def isLowSurrogate (n : Nat) : Bool := 0xDC00 ≤ n && n < 0xE000

/-- The code point that a pair of surrogates stands for. -/
def joinSurrogates (hi lo : Nat) : Nat := 0x10000 + (hi - 0xD800) * 0x400 + (lo - 0xDC00)

/-- The code point that the surrogate `hi` forms together with a low surrogate escaped right
behind it. -/
def readLowHalf? (hi : Nat) (c : Cursor) : Option (Nat × Cursor) :=
  if isHighSurrogate hi && c.peek? == some '\\' && c.peekSecond? == some 'u' then
    match readCodePoint (c.advanceBy 2) with
    | .ok (lo, d) => if isLowSurrogate lo then some (joinSurrogates hi lo, d) else none
    | .error _ => none
  else none

/-- The text of a `\u` escape in a string. A pair of escaped surrogates is one character; a
surrogate on its own is kept in the three bytes that the layout of UTF-8 gives it. -/
def readUnicodeEscape (c : Cursor) : Except LexFault (Bytes × Cursor) :=
  match readCodePoint c with
  | .error f => .error f
  | .ok (n, d) =>
    match readLowHalf? n d with
    | some (m, e) => .ok (Utf8.encode m, e)
    | none => .ok (Utf8.encode n, d)

/-- Up to `count` more octal digits behind digits that spell `value`, as long as the number
stays below 256. -/
def readOctal : (count value : Nat) → Cursor → Nat × Cursor
  | 0, value, c => (value, c)
  | count + 1, value, c =>
    match c.next? with
    | some (ch, d) =>
      if '0' ≤ ch ∧ ch ≤ '7' ∧ value * 8 + (ch.toNat - 0x30) ≤ 255 then
        readOctal count (value * 8 + (ch.toNat - 0x30)) d
      else (value, c)
    | none => (value, c)

/-- The control character that a letter stands for behind a backslash. -/
def controlEscape? : Char → Option UInt8
  | 'n' => some 0x0A
  | 'r' => some 0x0D
  | 't' => some 0x09
  | 'b' => some 0x08
  | 'v' => some 0x0B
  | 'f' => some 0x0C
  | _ => none

/-- The text of an escape in a string, behind the backslash. An escaped line end stands for
nothing, and a character without a meaning of its own for itself. -/
def readEscape (c : Cursor) : Except LexFault (Bytes × Cursor) :=
  match c.next? with
  | none => .error .unterminatedString
  | some (ch, d) =>
    match controlEscape? ch with
    | some b => .ok ([b], d)
    | none =>
      if ch = 'x' then
        match readHex 2 0 d with
        | .ok (n, e) => .ok (Utf8.encode n, e)
        | .error f => .error f
      else if ch = 'u' then readUnicodeEscape d
      else if ch = '\r' then .ok ([], if d.peek? = some '\n' then d.advance else d)
      else if isLineTerminator ch then .ok ([], d)
      else if '0' ≤ ch ∧ ch ≤ '7' then
        let r := readOctal 2 (ch.toNat - 0x30) d
        .ok (Utf8.encode r.1, r.2)
      else .ok (Utf8.encodeChar ch, d)

theorem advanceBy_length_le (n : Nat) (c : Cursor) :
    (c.advanceBy n).rest.length ≤ c.rest.length := by
  induction n generalizing c with
  | zero => exact Nat.le_refl _
  | succ n ih => exact Nat.le_trans (ih c.advance) (advance_length_le c)

theorem readLowHalf?_length_le {hi n : Nat} {c d : Cursor}
    (h : readLowHalf? hi c = some (n, d)) : d.rest.length ≤ c.rest.length := by
  unfold readLowHalf? at h
  split at h
  · split at h
    · next lo e he =>
      split at h
      · simp only [Option.some.injEq, Prod.mk.injEq] at h
        obtain ⟨_, rfl⟩ := h
        exact Nat.le_trans (readCodePoint_length_le he) (advanceBy_length_le 2 c)
      · cases h
    · cases h
  · cases h

theorem readUnicodeEscape_length_le {v : Bytes} {c d : Cursor}
    (h : readUnicodeEscape c = .ok (v, d)) : d.rest.length ≤ c.rest.length := by
  unfold readUnicodeEscape at h
  split at h
  · cases h
  · next n e he =>
    split at h
    · next hl =>
      cases h
      exact Nat.le_trans (readLowHalf?_length_le hl) (readCodePoint_length_le he)
    · cases h
      exact readCodePoint_length_le he

theorem readOctal_length_le (count value : Nat) (c : Cursor) :
    (readOctal count value c).2.rest.length ≤ c.rest.length := by
  fun_induction readOctal count value c with
  | case1 => exact Nat.le_refl _
  | case2 count value c ch d hn hd ih => exact Nat.le_trans ih (Nat.le_of_lt (next?_length hn))
  | case3 => exact Nat.le_refl _
  | case4 => exact Nat.le_refl _

/-- Reading an escape never moves backwards. -/
theorem readEscape_length_le {v : Bytes} {c d : Cursor} (h : readEscape c = .ok (v, d)) :
    d.rest.length ≤ c.rest.length := by
  unfold readEscape at h
  split at h
  · cases h
  · next ch e hn =>
    refine Nat.le_trans ?_ (Nat.le_of_lt (next?_length hn))
    split at h
    · cases h; exact Nat.le_refl _
    · split at h
      · split at h
        · next hx => cases h; exact readHex_length_le hx
        · cases h
      · split at h
        · exact readUnicodeEscape_length_le h
        · split at h
          · cases h
            split
            · exact advance_length_le e
            · exact Nat.le_refl _
          · split at h
            · cases h; exact Nat.le_refl _
            · split at h
              · cases h; exact readOctal_length_le 2 _ e
              · cases h; exact Nat.le_refl _

end ScriptTidy.Scanner
