import ScriptTidy.Text.Utf8

/-!
# Text in columns

A text whose lines consist of cells, each but the last ended by a tab, is written with the
cells of a column below each other. A column is a run of neighbouring lines that all have a
cell at its place; its width is that of its widest cell, but not less than a given minimum.
-/

namespace ScriptTidy.Columns

/-- The number of characters of a cell. -/
def cellWidth (cell : Bytes) : Nat := (Utf8.glyphs cell).length

/-- The cells of a line. Vertical tabs end cells as tabs do. -/
def cells (line : Bytes) : List Bytes :=
  Bytes.splitOn 0x09 (line.map fun b => if b = 0x0B then 0x09 else b)

/-- Whether the line has a cell, ended by a tab, in a column. -/
def hasCell (column : Nat) (line : List Bytes) : Bool := column + 1 < line.length

/-- The width of a column over some lines. -/
def columnWidth (least column : Nat) (lines : List (List Bytes)) : Nat :=
  lines.foldl (fun w line => max w (cellWidth (line.getD column []))) least

/-- A line with its cells filled up to the widths of their columns. -/
def writeLine (widths : List Nat) : List Bytes → Bytes
  | [] => []
  | cell :: rest =>
    match widths with
    | [] => cell ++ writeLine [] rest
    | w :: widths => cell ++ List.replicate (w - cellWidth cell) 0x20 ++ writeLine widths rest

/-- The lines with their widths, where the columns left of `widths.length` are settled. Each
run of lines with a cell in the next column is one block. The fuel bounds the number of
columns and runs. -/
def layOut (least : Nat) : Nat → List Nat → List (List Bytes) → List Bytes
  | 0, widths, lines => lines.map (writeLine widths)
  | fuel + 1, widths, lines =>
    let column := widths.length
    let (plain, rest) := lines.span fun line => !hasCell column line
    let (block, rest) := rest.span (hasCell column)
    plain.map (writeLine widths)
      ++ (if block.isEmpty then []
        else layOut least fuel (widths ++ [columnWidth least column block]) block)
      ++ (if rest.isEmpty then [] else layOut least fuel widths rest)

/-- The number of steps that laying out some lines can take. -/
def fuelFor (lines : List (List Bytes)) : Nat :=
  lines.foldr (fun line n => line.length + 1 + n) 1

/-- A part of a text that is laid out by itself, each of its lines ended. -/
def writePart (least : Nat) (lines : List Bytes) : Bytes :=
  let rows := lines.map cells
  (layOut least (fuelFor rows) [] rows).flatMap fun line => line ++ [0x0A]

/-- A text of whole lines in columns. A form feed ends a line and all columns with it. -/
def write (least : Nat) (text : Bytes) : Bytes :=
  let parts := Bytes.splitOn 0x0C text
  let last := parts.getLastD []
  parts.dropLast.flatMap (fun part => writePart least (Bytes.splitOn 0x0A part))
    ++ writePart least (Bytes.splitOn 0x0A last).dropLast

end ScriptTidy.Columns
