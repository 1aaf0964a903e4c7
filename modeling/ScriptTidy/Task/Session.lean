import ScriptTidy.Failure
import ScriptTidy.FileStore
import ScriptTidy.Metric

/-!
# Sessions

A session is what tasks work on and what they leave behind: the files, what was printed, what was
logged and what was counted. Printing goes through an outlet, which can refuse a text or the rest
of it. Work in a session comes to its end, or it breaks off, or it goes on for ever.
-/

namespace ScriptTidy

/-- What becomes of a text that is printed behind other texts: nothing if all of it is taken, or
else how many of its bytes are and what goes wrong with the rest. -/
abbrev Outlet := (before text : Bytes) → Option (Nat × Failure)

/-- The parts of the work that are timed. -/
inductive Phase
  | read
  | prettify
  | encode
  | write
deriving DecidableEq, Repr

/-- The name of a phase. -/
def Phase.label : Phase → String
  | read => "read"
  | prettify => "prettify"
  | encode => "encode"
  | write => "write"

/-- An entry of the log of a session. -/
inductive Note
  | message (text : Bytes)
  /-- The durations of phases. -/
  | durations (phases : List Phase)
deriving DecidableEq, Repr

/-- The lines of an entry that are not empty; of durations, the names of the phases. -/
def Note.lines : Note → List Bytes
  | message text => (Bytes.splitOn 0x0A text).filter fun l => !l.isEmpty
  | durations phases => phases.map fun p => utf8 p.label

/-- What tasks work on and what they leave behind. -/
structure Session where
  store : FileStore
  /-- What was printed, as far as it was taken. -/
  stdout : Bytes := []
  notes : List Note := []
  /-- Phases whose durations are not in the log yet. -/
  pending : List Phase := []
  metrics : List Metric := []

namespace Session

/-- Prints a text, as far as the outlet takes it. -/
def print (s : Session) (outlet : Outlet) (text : Bytes) : Option Failure × Session :=
  match outlet s.stdout text with
  | none => (none, { s with stdout := s.stdout ++ text })
  | some (count, f) => (some f, { s with stdout := s.stdout ++ text.take count })

/-- Prints texts one after the other, whether or not they are taken. -/
def tell (s : Session) (outlet : Outlet) (texts : List Bytes) : Session :=
  texts.foldl (fun s text => (s.print outlet text).2) s

/-- Takes down that a phase is over. -/
def record (s : Session) (p : Phase) : Session := { s with pending := s.pending ++ [p] }

/-- Logs a message. -/
def note (s : Session) (text : Bytes) : Session := { s with notes := s.notes ++ [.message text] }

/-- Counts events. -/
def count (s : Session) (events : List Metric) : Session :=
  { s with metrics := s.metrics ++ events }

/-- Logs the durations of the phases that are over. -/
def flush (s : Session) : Session :=
  if s.pending.isEmpty then s
  else { s with notes := s.notes ++ [.durations s.pending], pending := [] }

/-- Writes a file, if it can be written. -/
def writeFile (s : Session) (path content : Bytes) : Option Failure × Session :=
  match s.store.write path content with
  | .ok store => (none, { s with store })
  | .error message => (some (.traced (.plain message)), s)

end Session

/-! ## Work in a session -/

/-- What became of an input: whether it was accepted, and what went wrong. -/
structure Outcome where
  accepted : Bool
  failure : Option Failure := none

/-- Why work does not come to its end. -/
inductive Halt
  /-- The work breaks off. -/
  | crash
  /-- The work goes on for ever. -/
  | endless
deriving DecidableEq, Repr

/-- Work that does not come to its end, and the session as it is then. -/
structure Halted where
  reason : Halt
  session : Session

/-- A result with the session after it, or the session in which the work does not come to its
end. -/
abbrev Progress (α : Type) := Except Halted (α × Session)

end ScriptTidy
