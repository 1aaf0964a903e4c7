import ScriptTidy.Text.Verb

/-!
# Messages made from a pattern

A pattern is a text with verbs, each a percent sign, flags, perhaps a width and a precision,
and a letter; each verb is replaced by the next argument. A star in place of the width or the
precision takes it from an argument, and a number in brackets chooses the argument to go on
with. A verb without an argument, an argument without a verb and whatever else is wrong with a
pattern are shown in the message as what they are.
-/

namespace ScriptTidy.Pattern

open Verb (Argument Style)

/-- A verb while it is read. -/
structure Reading where
  style : Style := {}
  /-- What comes next in the pattern. -/
  rest : Bytes
  /-- The number of the argument that comes next. -/
  next : Nat
  /-- Whether arguments have been chosen by number. -/
  reordered : Bool
  /-- Whether an argument has just been chosen by number. -/
  chosen : Bool := false
  /-- Whether every choice has been a possible one. -/
  sound : Bool := true
  /-- What is to be said about the width and the precision. -/
  remarks : Bytes := []

/-- A number in digits at the start of a text, after digits of value `n`, and the rest. A number
that is far too large uses up the whole text and is none. -/
def readCount (n : Option Nat) : Bytes → Option Nat × Bytes
  | [] => (n, [])
  | b :: rest =>
    if !isDigitByte b then (n, b :: rest)
    else if 1000000 < n.getD 0 then (none, [])
    else readCount (some (10 * n.getD 0 + (b.toNat - 0x30))) rest

/-- A number that an argument gives, unless it is too large or there is no such number. -/
def countOf? : Option Argument → Option Int
  | some (.number n) => if n.natAbs ≤ 1000000 then some n else none
  | _ => none

namespace Reading

/-- Reads the flags. -/
def flags (r : Reading) : Reading :=
  go r.style r.rest
where
  /-- Reads flags from a text, into a style. -/
  go (st : Style) : Bytes → Reading
    | 0x23 :: rest => go { st with sharp := true } rest
    | 0x30 :: rest => go { st with zero := true } rest
    | 0x2B :: rest => go { st with plus := true } rest
    | 0x2D :: rest => go { st with left := true } rest
    | 0x20 :: rest => go { st with space := true } rest
    | rest => { r with style := st, rest }

/-- Reads the number of an argument in brackets, if there is one. Of brackets that are not
closed, or too short at the end of the pattern, only the first is passed over. -/
def choice (count : Nat) (r : Reading) : Reading :=
  match r.rest with
  | 0x5B :: inner =>
    let digits := inner.takeWhile (· != 0x5D)
    let after := inner.drop (digits.length + 1)
    if inner.length < 2 ∨ digits.length = inner.length then
      { r with rest := inner, reordered := true, chosen := false, sound := false }
    else match readCount none digits with
      | (some n, []) =>
        if 1 ≤ n ∧ n ≤ count then
          { r with rest := after, reordered := true, chosen := true, next := n - 1 }
        else { r with rest := after, reordered := true, chosen := true, sound := false }
      | _ => { r with rest := after, reordered := true, chosen := false, sound := false }
  | _ => { r with chosen := false }

/-- Reads the width. One from an argument may be negative and then asks for filling on the
right. -/
def width (args : List Argument) (r : Reading) : Reading :=
  match r.rest with
  | 0x2A :: rest =>
    let r := { r with rest, chosen := false }
    let past := if r.next < args.length then r.next + 1 else r.next
    match countOf? args[r.next]? with
    | none => { r with next := past, remarks := r.remarks ++ utf8 "%!(BADWIDTH)" }
    | some n =>
      let st := { r.style with width := some n.natAbs }
      { r with
        next := past
        style := if n < 0 then { st with left := true, zero := false } else st }
  | _ =>
    let (n, rest) := readCount none r.rest
    { r with
      rest
      style := { r.style with width := n }
      sound := r.sound && !(r.chosen && n.isSome) }

/-- Reads the precision, if there is one. A point that ends the pattern starts none: it is the
letter of the verb. -/
def precision (args : List Argument) (r : Reading) : Reading :=
  match r.rest with
  | 0x2E :: b :: rest =>
    let r := choice args.length { r with rest := b :: rest, sound := r.sound && !r.chosen }
    match r.rest with
    | 0x2A :: rest =>
      let r := { r with rest, chosen := false }
      let past := if r.next < args.length then r.next + 1 else r.next
      match countOf? args[r.next]? with
      | some (.ofNat n) => { r with next := past, style := { r.style with precision := some n } }
      | _ => { r with next := past, remarks := r.remarks ++ utf8 "%!(BADPREC)" }
    | _ =>
      let (n, rest) := readCount none r.rest
      { r with rest, style := { r.style with precision := some (n.getD 0) } }
  | _ => r

/-- Reads all of a verb up to its letter. -/
def upToLetter (args : List Argument) (r : Reading) : Reading :=
  let r := ((r.flags.choice args.length).width args).precision args
  if r.chosen then r else r.choice args.length

/-- What a verb with a letter is replaced by, and the number of the next argument. -/
def replacement (args : List Argument) (r : Reading) (letter : Char) : Bytes × Nat :=
  let problem := fun (what : String) => utf8 "%!" ++ Utf8.encodeChar letter ++ utf8 what
  if letter = '%' then ([0x25], r.next)
  else if !r.sound then (problem "(BADINDEX)", r.next)
  else match args[r.next]? with
    | none => (problem "(MISSING)", r.next)
    | some a => (Verb.write r.style letter a, r.next + 1)

end Reading

/-! ## Reading never goes back -/

/-- Reading a number takes nothing but what it reads. -/
theorem readCount_length_le (n : Option Nat) (text : Bytes) :
    (readCount n text).2.length ≤ text.length := by
  fun_induction readCount n text with
  | case1 => exact Nat.le_refl _
  | case2 => exact Nat.le_refl _
  | case3 => exact Nat.zero_le _
  | case4 n b rest _ _ ih => exact Nat.le_succ_of_le ih

namespace Reading

theorem go_length_le (r : Reading) (st : Style) (text : Bytes) :
    (flags.go r st text).rest.length ≤ text.length := by
  fun_induction flags.go r st text <;> grind

theorem flags_length_le (r : Reading) : r.flags.rest.length ≤ r.rest.length :=
  go_length_le r r.style r.rest

theorem choice_length_le (count : Nat) (r : Reading) :
    (r.choice count).rest.length ≤ r.rest.length := by
  unfold choice
  split
  · next inner h => rw [h]; grind
  · exact Nat.le_refl _

theorem width_length_le (args : List Argument) (r : Reading) :
    (r.width args).rest.length ≤ r.rest.length := by
  have hcount := readCount_length_le none r.rest
  unfold width
  split
  · next rest h => rw [h]; grind
  · exact hcount

theorem precision_length_le (args : List Argument) (r : Reading) :
    (r.precision args).rest.length ≤ r.rest.length := by
  unfold precision
  split
  · next b rest h =>
    rw [h]
    have hchoice :=
      choice_length_le args.length { r with rest := b :: rest, sound := r.sound && !r.chosen }
    refine Nat.le_succ_of_le (Nat.le_trans ?_ hchoice)
    generalize
      choice args.length { r with rest := b :: rest, sound := r.sound && !r.chosen } = chosen
    simp only
    split
    · next rest h => rw [h]; split <;> exact Nat.le_succ _
    · exact readCount_length_le none chosen.rest
  · exact Nat.le_refl _

/-- Reading a verb takes nothing but what it reads. -/
theorem upToLetter_length_le (args : List Argument) (r : Reading) :
    (r.upToLetter args).rest.length ≤ r.rest.length := by
  have hflags := flags_length_le r
  have hchoice := choice_length_le args.length r.flags
  have hwidth := width_length_le args (r.flags.choice args.length)
  have hprecision := precision_length_le args ((r.flags.choice args.length).width args)
  have hlast := choice_length_le args.length
    (((r.flags.choice args.length).width args).precision args)
  unfold upToLetter
  simp only
  split <;> omega

end Reading

/-! ## Messages -/

/-- What is said about the arguments that no verb has taken. -/
def extra (args : List Argument) : Bytes :=
  if args.isEmpty then []
  else utf8 "%!(EXTRA "
    ++ Bytes.joinWith (utf8 ", ") (args.map fun a => a.kindName ++ utf8 "=" ++ Verb.plain a)
    ++ utf8 ")"

/-- The message of a pattern from the argument with the number `next` on. Arguments that are
left over count only if none has been chosen by number. -/
def messageFrom (args : List Argument) (next : Nat) (reordered : Bool) (pattern : Bytes) : Bytes :=
  match pattern with
  | [] => if reordered then [] else extra (args.drop next)
  | b :: rest =>
    if b ≠ 0x25 then b :: messageFrom args next reordered rest
    else
      let r := Reading.upToLetter args { rest, next, reordered }
      r.remarks ++ match h : r.rest with
      | [] => utf8 "%!(NOVERB)" ++ if r.reordered then [] else extra (args.drop r.next)
      | b :: after =>
        have : after.length < rest.length := by
          have hle : r.rest.length ≤ rest.length :=
            Reading.upToLetter_length_le args { rest, next, reordered }
          rw [h, List.length_cons] at hle
          exact hle
        let letter := Utf8.decode b after
        let (text, next) := r.replacement args letter.1
        text ++ messageFrom args next r.reordered (after.drop letter.2)
termination_by pattern.length
decreasing_by
  · simp
  · simp only [List.length_drop, List.length_cons]; omega

/-- The message of a pattern and its arguments. -/
def message (pattern : Bytes) (args : List Argument) : Bytes := messageFrom args 0 false pattern

end ScriptTidy.Pattern
