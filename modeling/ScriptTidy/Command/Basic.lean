import ScriptTidy.Command.Usage
import ScriptTidy.Config.File
import ScriptTidy.Task.Basic

/-!
# The command line

The command as a whole: from arguments, standard input and files to what is printed, the files
afterwards, and the exit code.
-/

namespace ScriptTidy.Command

/-- What a command leaves behind. -/
structure Effect where
  /-- The exit code; none if the command goes on to follow changes of its files. -/
  exit : Option Nat
  stdout : Bytes := []
  stderr : Bytes := []
  store : FileStore
  notes : List Note := []
  metrics : List Metric := []
  /-- Whether the command goes on for ever without doing anything more. -/
  endless : Bool := false

namespace Effect

/-- The effect of a command that ends before it has done anything. -/
def refusal (store : FileStore) (exit : Nat) (stderr : Bytes) : Effect :=
  { exit := some exit, stderr, store }

/-- The effect of a command that ends with a message. -/
def fatal (store : FileStore) (message : Bytes) : Effect := refusal store 1 (message ++ [0x0A])

/-- The effect of what a session has done. -/
def ofSession (s : Session) (exit : Option Nat) (stderr : Bytes) : Effect :=
  { exit, stderr, stdout := s.stdout, store := s.store, notes := s.notes, metrics := s.metrics }

/-- The effect of a command whose work does not come to its end. -/
def ofHalted (halted : Halted) (stderr : Bytes) : Effect :=
  match halted.reason with
  | .crash => ofSession halted.session (some 2) stderr
  | .endless => { ofSession halted.session none stderr with endless := true }

end Effect

/-- The configuration of a file; the standard one if no file is named. -/
def loadConfig (file : Bytes) (store : FileStore) : Except Bytes Config :=
  if file.isEmpty then .ok .standard
  else match store.read file with
    | .error (.cannotOpen m) => .error m
    | text =>
      match Config.load (text.mapError ReadFault.message) with
      | .ok config => .ok config
      | .error f => .error (utf8 "loading " ++ file ++ utf8 ": " ++ f.message)

/-- The configuration that is asked for: that of the file, changed by the switches. -/
def configFor (i : Invocation) (store : FileStore) : Except Bytes Config :=
  (loadConfig (i.text .config) store).map fun loaded =>
    { loaded with
      indentSize := if 0 < i.indent then i.indent else loaded.indentSize
      tabs := loaded.tabs || i.isOn .tabs
      url := if (i.text .url).isEmpty then loaded.url else i.text .url }

/-- The task that is asked for. -/
def taskFor (i : Invocation) (config : Config) : Task :=
  { config
    out := i.text .out
    mapFile := i.text .map
    html := i.isOn .html
    check := i.isOn .check
    tokens := i.isOn .tokens
    lookup := i.text .lookup }

/-- Why the files do not suit what is asked for. -/
def filesFault? (i : Invocation) : Option String :=
  let single := [Switch.out, .map, .lookup].any fun s => !(i.text s).isEmpty
  if 1 < i.files.length ∧ single then some "-out, -map and -lookup take a single input"
  else if i.isOn .watch ∧ i.files.isEmpty then some "-watch needs at least one file"
  else none

/-- Does the task on each of the files whose changes are to be followed, until one of them
cannot be. -/
def watchFiles (t : Task) (stderr : Bytes) (s : Session) : List Bytes → Effect
  | [] => .ofSession s none stderr
  | name :: rest =>
    match s.store.watchFault? name with
    | some reason =>
      .ofSession s (some 1)
        (stderr ++ utf8 "watching " ++ name ++ utf8 ": " ++ utf8 reason ++ [0x0A])
    | none =>
      match t.runFile name s with
      | .error halted => .ofHalted halted stderr
      | .ok (outcome, s) =>
        let text := match outcome.failure with
          | some f => f.message ++ [0x0A]
          | none => []
        watchFiles t (stderr ++ text) s rest

/-- Does the task on all inputs. -/
def formatFiles (t : Task) (files : List Bytes) (stdin : Bytes) (s : Session) : Effect :=
  match t.runAll files stdin s with
  | .error halted => .ofHalted halted []
  | .ok r =>
    match r.failure with
    | some f => .ofSession r.session (some 2) (f.message ++ [0x0A])
    | none => .ofSession r.session (some (if 0 < r.unformatted then 1 else 0)) []

/-- Does what an invocation asks for. -/
def execute (i : Invocation) (stdin : Bytes) (store : FileStore) : Effect :=
  match configFor i store with
  | .error message => .fatal store message
  | .ok config =>
    match filesFault? i with
    | some message => .fatal store (utf8 message)
    | none =>
      let task := taskFor i config
      if i.isOn .watch then watchFiles task [] { store } i.files
      else formatFiles task i.files stdin { store }

/-- The command: does what the arguments ask for. -/
def run (args : List Bytes) (stdin : Bytes) (store : FileStore) : Effect :=
  match Arguments.read args with
  | .ok i => execute i stdin store
  | .error .help => { exit := some 0, stdout := helpText, store }
  | .error .version => { exit := some 0, stdout := [0x0A], store }
  | .error (.fault message) =>
    .refusal store 255 (usageLine ++ utf8 "error: " ++ message ++ [0x0A])

end ScriptTidy.Command
