import ScriptTidy.Text.Columns
import ScriptTidy.Text.Measure
import ScriptTidy.Text.Verb

/-!
# The log of the command line

Lines of text, each with the same lead, and a table of how long the phases of the work took.
Durations are collected and written together.
-/

namespace ScriptTidy.Log

/-- A log with the durations that have not been written yet. -/
structure Timing where
  /-- What every entry starts with. -/
  lead : Bytes := []
  /-- Phases with the nanoseconds they took, in the order in which they were recorded. -/
  pending : List (Bytes × Int) := []
deriving Repr

namespace Timing

/-- What is written for an entry: its lead and its text, ended by a line end. -/
def entry (log : Timing) (text : Bytes) : Bytes :=
  log.lead ++ text ++ (if text.getLast? = some 0x0A then [] else [0x0A])

/-- The log with a further duration. -/
def record (log : Timing) (phase : Bytes) (nanoseconds : Int) : Timing :=
  { log with pending := log.pending ++ [(phase, nanoseconds)] }

/-- The durations as a table. -/
def table (durations : List (Bytes × Int)) : Bytes :=
  Columns.write 4 (durations.flatMap fun (phase, n) =>
    utf8 "   " ++ phase ++ [0x09] ++ Measure.span n ++ [0x0A])

/-- The log without durations. -/
def clear (log : Timing) : Timing := { log with pending := [] }

/-- What is written when the durations are flushed; the log is cleared after that. -/
def flush (log : Timing) : Bytes :=
  if log.pending.isEmpty then [] else log.entry (table log.pending ++ [0x0A])

end Timing

end ScriptTidy.Log
