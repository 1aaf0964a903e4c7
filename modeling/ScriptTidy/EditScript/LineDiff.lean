import ScriptTidy.EditScript.Compute

/-!
# Line differences

The difference of two texts line by line, each line with a mark in front: `-` for the lines of
the first text only, `+` for those of the second, and a space for those of both. Equal texts
have no difference.
-/

namespace ScriptTidy

/-- The lines of a text with their line feeds; the last line may have none. -/
def linesOf : Bytes → List Bytes
  | [] => []
  | b :: r =>
    if b = 0x0A then [b] :: linesOf r
    else match linesOf r with
      | [] => [[b]]
      | line :: rest => (b :: line) :: rest

/-- The mark of a line. -/
def EditKind.mark : EditKind → UInt8
  | keep => 0x20
  | delete => 0x2D
  | insert => 0x2B

/-- An edit of lines as an edit of the text that they make up. -/
def Edit.joined (e : Edit Bytes) : Edit UInt8 := ⟨e.kind, e.items.flatten⟩

/-- The marked lines of an edit. -/
def Edit.render (e : Edit UInt8) : Bytes :=
  (Bytes.splitOn 0x0A (Bytes.trimTail [0x0A] e.items)).flatMap fun line =>
    [e.kind.mark] ++ line ++ [0x0A]

/-- The script that turns one text into another by whole lines. -/
def lineScript (before after : Bytes) : List (Edit UInt8) :=
  (EditScript.compute (linesOf before) (linesOf after)).map Edit.joined

/-- The difference of two texts by lines, empty if they are equal, for any way to find a script. -/
def lineDiffWith (script : Bytes → Bytes → List (Edit UInt8)) (before after : Bytes) : Bytes :=
  if before = after then [] else (script before after).flatMap Edit.render

/-- The difference of two texts by lines. -/
def lineDiff (before after : Bytes) : Bytes := lineDiffWith lineScript before after

end ScriptTidy
