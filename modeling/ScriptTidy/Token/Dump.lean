import ScriptTidy.Token.Basic

/-!
# Tokens as records

The form in which tokens are listed for people who look for errors: a record with a field per
line.
-/

namespace ScriptTidy

/-- A position as a record on one line. -/
def Position.dump (p : Position) : Bytes :=
  utf8 "jsscanner.Position\x7bLine:" ++ intDecimal p.line ++ utf8 ", Column:"
    ++ intDecimal p.column ++ utf8 ", Offset:" ++ intDecimal p.offset ++ utf8 "\x7d"

/-- A field of a record, with its value in one column with those of the other fields. -/
def Token.dumpField (name : String) (value : Bytes) : Bytes :=
  utf8 "    " ++ utf8 name ++ utf8 ":" ++ List.replicate (6 - name.length) 0x20 ++ value
    ++ utf8 ",\n"

/-- A token as a record. -/
def Token.dump (t : Token) : Bytes :=
  utf8 "main.tokenDump\x7b\n"
    ++ dumpField "Type" (Quoted.quote (utf8 t.kind.label))
    ++ dumpField "Value" (Quoted.quote t.value)
    ++ dumpField "Start" t.start.dump
    ++ dumpField "End" t.stop.dump
    ++ utf8 "\x7d\n"

end ScriptTidy
