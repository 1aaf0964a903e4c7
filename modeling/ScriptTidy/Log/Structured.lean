import ScriptTidy.Json.Basic

/-!
# Structured log entries

The log of the service consists of JSON objects with a level, a message and further fields.
Errors go to one stream and everything else to another. An entry of the most serious level ends
the program once it is written.
-/

namespace ScriptTidy.Log

/-- How serious an entry is. -/
inductive Level
  | debug
  | info
  | warn
  | error
  | assertion
  | emergency
deriving DecidableEq, Repr

namespace Level

/-- The name of a level. -/
def label : Level → String
  | debug => "debug"
  | info => "info"
  | warn => "warn"
  | error => "error"
  | assertion => "dpanic"
  | emergency => "panic"

/-- The level with a name. Case plays no part. -/
def ofLabel? (s : String) : Option Level :=
  [debug, info, warn, error, assertion, emergency].find? fun l => l.label = s.toLower

/-- Whether entries of the level go to the stream for errors. -/
def isError : Level → Bool
  | error | assertion | emergency => true
  | _ => false

end Level

/-- A log entry. -/
structure Entry where
  level : Level
  message : Bytes
  fields : List (Bytes × JsonValue) := []
deriving Repr

namespace Entry

/-- The fields with one more; it replaces a field of the same name. -/
def setField (fields : List (Bytes × JsonValue)) (f : Bytes × JsonValue) :
    List (Bytes × JsonValue) :=
  fields.filter (fun g => g.1 ≠ f.1) ++ [f]

/-- The fields of the entry as an object, of equal names only the last. -/
def toFields (e : Entry) : List (Bytes × JsonValue) :=
  e.fields.foldl setField
    [(utf8 "level", .ascii e.level.label), (utf8 "msg", .str e.message)]

end Entry

/-- The entries of the two streams: what is no error, and the errors. None if an entry ends the
program. -/
def streams? (entries : List Entry) : Option (List Entry × List Entry) :=
  if entries.any (·.level == .emergency) then none
  else some (entries.partition fun e => !e.level.isError)

end ScriptTidy.Log
