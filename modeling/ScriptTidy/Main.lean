import ScriptTidy.Command.Basic

/-!
# The program

Reads the files that the arguments name, runs the command on them, and writes what it has left
behind.
-/

namespace ScriptTidy.Program

/-- A byte string as the text of a path. -/
def pathText (b : Bytes) : String := String.ofList (Utf8.chars b)

/-- A byte string in the form in which it is written. -/
def packed (b : Bytes) : ByteArray := ⟨b.toArray⟩

/-- All that can be read from a stream. -/
partial def readAll (stream : IO.FS.Stream) (done : ByteArray) : IO ByteArray := do
  let chunk ← stream.read 65536
  if chunk.isEmpty then return done else readAll stream (done ++ chunk)

/-- Adds a file to the store, or a folder. -/
def fetch (store : FileStore) (path : Bytes) : IO FileStore := do
  if path.isEmpty then return store
  let name := pathText path
  try
    let content ← IO.FS.readBinFile name
    return store.put (Path.clean path) content.toList
  catch _ =>
    try
      let _ ← IO.FS.realPath name
      return { store with folders := Path.clean path :: store.folders }
    catch _ => return store

/-- The paths that have to be known to run a command: those that it names and the folders that
they lie in. -/
def paths (i : Command.Invocation) : List Bytes :=
  let named := i.files ++ [i.text .config, i.text .out, i.text .map]
  named ++ (named.flatMap Path.ancestors).eraseDups

/-- The files that a command may read. -/
def fetchAll (args : List Bytes) : IO FileStore :=
  match Command.Arguments.read args with
  | .ok i => (paths i).foldlM fetch { medium := .disk }
  | .error _ => return { medium := .disk }

/-- Writes what a command has left behind. -/
def commit (before : FileStore) (verbose : Bool) (e : Command.Effect) : IO Unit := do
  for (path, content) in e.store.changedSince before do
    IO.FS.writeBinFile (pathText path) (packed content)
  let out ← IO.getStdout
  out.write (packed e.stdout)
  out.flush
  let err ← IO.getStderr
  if verbose then
    for line in e.notes.flatMap Note.lines do
      err.write (packed (utf8 "[prettyfast] " ++ line ++ [0x0A]))
    for (name, n) in tally e.metrics do
      err.write (packed (utf8 "[prettyfast] " ++ name ++ utf8 ": " ++ natDecimal n ++ [0x0A]))
  err.write (packed e.stderr)
  err.flush

/-- Goes on for ever. -/
partial def stay : IO UInt32 := do
  IO.sleep 1000
  stay

/-- Runs the command again on every file that changes. -/
partial def follow (i : Command.Invocation) (before : FileStore) : IO UInt32 := do
  IO.sleep 500
  let now ← (paths i).foldlM fetch { medium := .disk }
  let changed := i.files.filter fun f =>
    now.content? (Path.clean f) ≠ before.content? (Path.clean f)
  let e := Command.execute { i with files := changed } [] now
  if !changed.isEmpty then commit now (i.isOn .verbose) e
  if e.endless then stay else follow i now

end ScriptTidy.Program

open ScriptTidy in
/-- The command line. -/
def main (args : List String) : IO UInt32 := do
  let args := args.map utf8
  let store ← Program.fetchAll args
  let invocation := Command.Arguments.read args
  let stdin ← match invocation with
    | .ok i =>
      if i.files.isEmpty && !i.isOn .watch then
        Program.readAll (← IO.getStdin) ByteArray.empty
      else pure ByteArray.empty
    | .error _ => pure ByteArray.empty
  let e := Command.run args stdin.toList store
  let verbose := match invocation with
    | .ok i => i.isOn .verbose
    | .error _ => false
  Program.commit store verbose e
  if e.endless then return ← Program.stay
  match e.exit, invocation with
  | some code, _ => return code.toUInt32
  | none, .ok i => Program.follow i store
  | none, .error _ => return 0
