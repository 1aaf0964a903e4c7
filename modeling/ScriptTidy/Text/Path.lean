import ScriptTidy.Text.Bytes

/-!
# Paths

Paths of files as texts with slashes. A path is rooted if it starts with a slash. Its elements
lie between slashes; an empty element and a single dot stand for nothing, and two dots undo the
element before them.
-/

namespace ScriptTidy.Path

/-- What separates the elements of a path. -/
def slash : UInt8 := 0x2F

/-- The element that stands for nothing. -/
def dot : Bytes := [0x2E]

/-- The element that undoes the one before it. -/
def dotDot : Bytes := [0x2E, 0x2E]

/-- Whether a path starts at the root. -/
def isRooted (p : Bytes) : Bool := p.head? == some slash

/-- The elements of a path as they are written. -/
def elements (p : Bytes) : List Bytes := Bytes.splitOn slash p

/-- One more element after those in `done`, which lie in reverse order. Two dots without an
element to undo are kept, unless the path is rooted. -/
def step (rooted : Bool) (done : List Bytes) (e : Bytes) : List Bytes :=
  if e.isEmpty || e == dot then done
  else if e == dotDot then
    match done with
    | [] => if rooted then [] else [dotDot]
    | last :: before => if last == dotDot then dotDot :: done else before
  else e :: done

/-- The elements of a path that are left when nothing can be undone any more. -/
def simpleElements (p : Bytes) : List Bytes :=
  ((elements p).foldl (step (isRooted p)) []).reverse

/-- The shortest path with the same meaning. -/
def clean (p : Bytes) : Bytes :=
  let body := Bytes.joinWith [slash] (simpleElements p)
  if isRooted p then slash :: body
  else if body.isEmpty then dot
  else body

/-- The shortest rooted path with the same meaning. A slash at the end is kept. -/
def canonical (p : Bytes) : Bytes :=
  let rooted := if isRooted p then p else slash :: p
  let short := clean rooted
  if rooted.getLast? = some slash ∧ short ≠ [slash] then short ++ [slash] else short

/-- The path without slashes at its end. -/
def trimSlashes (p : Bytes) : Bytes := (p.reverse.dropWhile (· == slash)).reverse

/-- The last element of a path, a dot for the empty path, a slash for the root. -/
def base (p : Bytes) : Bytes :=
  if p.isEmpty then dot
  else
    let name := ((trimSlashes p).reverse.takeWhile (· != slash)).reverse
    if name.isEmpty then [slash] else name

/-- What stands from the last dot on in the last element of a path. -/
def extension (p : Bytes) : Bytes :=
  let name := (p.reverse.takeWhile (· != slash)).reverse
  if name.elem 0x2E then 0x2E :: (name.reverse.takeWhile (· != 0x2E)).reverse else []

/-- Two paths one after the other; empty ones stand for nothing. -/
def join (a b : Bytes) : Bytes :=
  match [a, b].filter fun p => !p.isEmpty with
  | [] => []
  | parts => clean (Bytes.joinWith [slash] parts)

/-- The paths of the folders that a path lies in, the path itself left out. -/
def ancestors (p : Bytes) : List Bytes :=
  let es := simpleElements p
  (List.range es.length).map fun n =>
    let body := Bytes.joinWith [slash] (es.take n)
    if isRooted p then slash :: body else body

end ScriptTidy.Path
