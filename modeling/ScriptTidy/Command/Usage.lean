import ScriptTidy.Command.Arguments

/-!
# How to use the command

The line that shows all switches, and the help text.
-/

namespace ScriptTidy.Command

/-- A switch with the name of its value, as the help text shows it. -/
def Switch.shown (s : Switch) : String :=
  match s.kind with
  | .onOff => "--" ++ s.label
  | _ => "--" ++ s.label ++ " " ++ s.label.toUpper

/-- The line that shows all switches. -/
def usageLine : Bytes :=
  utf8 ("Usage: prettyfast "
    ++ String.join (Switch.all.map fun s => "[" ++ s.shown ++ "] ")
    ++ "[FILES [FILES ...]]\n")

/-- The column that explanations start in. -/
def helpColumn : Nat := 25

/-- A line of the help text. -/
def helpLine (left right : String) : Bytes :=
  let start := "  " ++ left
  utf8 start ++ List.replicate (helpColumn - start.length) 0x20 ++ utf8 right ++ [0x0A]

/-- The help text. -/
def helpText : Bytes :=
  usageLine
    ++ utf8 "\nPositional arguments:\n"
    ++ helpLine "FILES" "files to format, stdin when none are given"
    ++ utf8 "\nOptions:\n"
    ++ (Switch.all.flatMap fun s =>
      helpLine (s.shown ++ if s.letter.isEmpty then "" else ", -" ++ s.letter) s.help)
    ++ helpLine "--help, -h" "display this help and exit"

end ScriptTidy.Command
