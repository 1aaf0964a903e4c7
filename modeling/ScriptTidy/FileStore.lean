import ScriptTidy.Text.Path

/-!
# Where files are kept

Files in memory or on disk. In memory every path can be written and a folder reads as an empty
file. On disk a path is walked element by element from the working folder, a folder cannot be
read, and a file is only written into a folder that exists. Relative paths that lead out of the
working folder lead nowhere, except to folders above it. Names and paths on disk have a greatest
length, and there is a null device: it reads as an empty file, and what is written to it is lost.
-/

namespace ScriptTidy

/-- How files are kept. -/
inductive Medium
  | memory
  | disk
deriving DecidableEq, Repr

/-- Files with their contents. -/
structure FileStore where
  medium : Medium
  /-- Contents by path, in the shortest form of the path. -/
  files : List (Bytes × Bytes) := []
  /-- Folders besides those that files lie in. -/
  folders : List Bytes := []
  /-- Why contents cannot be written to a path, for reasons that lie outside of paths. -/
  refusal : Bytes × Bytes → Option Bytes := fun _ => none

/-- Why a file cannot be read. -/
inductive ReadFault
  | cannotOpen (message : Bytes)
  | cannotRead (message : Bytes)
deriving DecidableEq, Repr

/-- The message of a fault. -/
def ReadFault.message : ReadFault → Bytes
  | cannotOpen m => m
  | cannotRead m => m

/-- What a path on disk leads to. -/
inductive Destination
  | file (path : Bytes)
  | folder
  /-- A file that could be made, in a folder that exists. -/
  | vacant (path : Bytes)
  | nowhere
  /-- A path with a file in place of a folder. -/
  | throughFile
  /-- A path that is too long, or one of its names. -/
  | tooLong
deriving DecidableEq, Repr

namespace FileStore

/-- The path of the null device. -/
def nullDevice : Bytes := utf8 "/dev/null"

/-- Whether a path in its shortest form is that of the null device. -/
def isNullDevice (s : FileStore) (path : Bytes) : Bool := s.medium == .disk && path == nullDevice

/-- The contents of the file with a path in its shortest form. -/
def content? (s : FileStore) (path : Bytes) : Option Bytes :=
  if s.isNullDevice path then some [] else s.files.lookup path

/-- Whether a path in its shortest form is that of a folder. -/
def isFolder (s : FileStore) (path : Bytes) : Bool :=
  s.folders.elem path
    || (s.medium == .disk && (Path.ancestors nullDevice).elem path)
    || s.files.any fun f => (Path.ancestors f.1).elem path

/-- The files with new contents for one of them. -/
def replace (path content : Bytes) : List (Bytes × Bytes) → List (Bytes × Bytes)
  | [] => [(path, content)]
  | (p, c) :: rest =>
    if p = path then (p, content) :: rest else (p, c) :: replace path content rest

/-- The store after a file has been written. -/
def put (s : FileStore) (path content : Bytes) : FileStore :=
  if s.isNullDevice path then s else { s with files := replace path content s.files }

/-- The form of a path under which a file is kept in memory. -/
def memoryPath (path : Bytes) : Bytes :=
  let p := Path.clean path
  if p = Path.dot ∨ p = Path.dotDot then [Path.slash] else p

/-- The folder above one that is given by its elements. Nothing is known of the folders above
the working folder. -/
def parent (rooted : Bool) : Option (List Bytes) → Option (List Bytes)
  | some [] => if rooted then some [] else none
  | some es => some es.dropLast
  | none => none

/-- The greatest length of a name on disk. -/
def nameLimit : Nat := 255

/-- The greatest length of a path on disk. -/
def pathLimit : Nat := 4095

/-- Walks the elements of a path from a folder, given by its elements. If a file is `made`, a
name with a slash behind it is taken for that of a folder. -/
def walk (s : FileStore) (rooted made : Bool) : Option (List Bytes) → List Bytes → Destination
  | _, [] => .folder
  | here, e :: rest =>
    if e.isEmpty || e == Path.dot then walk s rooted made here rest
    else if e == Path.dotDot then walk s rooted made (parent rooted here) rest
    else if made && !rest.isEmpty && rest.all (·.isEmpty) then .folder
    else if nameLimit < e.length then .tooLong
    else match here with
      | none => .nowhere
      | some es =>
        let inner := es ++ [e]
        let path := (if rooted then [Path.slash] else []) ++ Bytes.joinWith [Path.slash] inner
        if (s.content? path).isSome then
          if rest.isEmpty then .file path else .throughFile
        else if s.isFolder path then walk s rooted made (some inner) rest
        else if rest.isEmpty then .vacant path
        else .nowhere

/-- What a path on disk leads to, for a file that is read or `made`. -/
def destination (s : FileStore) (made : Bool) (path : Bytes) : Destination :=
  if path.isEmpty then .nowhere
  else if pathLimit < path.length then .tooLong
  else s.walk (Path.isRooted path) made (some []) (Path.elements path)

/-- The message that an action on a path failed. -/
def faultText (action : String) (path : Bytes) (reason : String) : Bytes :=
  utf8 action ++ utf8 " " ++ path ++ utf8 ": " ++ utf8 reason

/-- What is said of a path that leads nowhere. -/
def noSuchFile : String := "no such file or directory"

/-- What is said of a path that is too long. -/
def nameTooLong : String := "file name too long"

/-- The contents of a file. -/
def read (s : FileStore) (path : Bytes) : Except ReadFault Bytes :=
  match s.medium with
  | .memory =>
    let p := memoryPath path
    match s.content? p with
    | some c => .ok c
    | none =>
      if p = [Path.slash] ∨ s.isFolder p then .ok []
      else .error (.cannotOpen (faultText "open" p "file does not exist"))
  | .disk =>
    match s.destination false path with
    | .file p => .ok ((s.content? p).getD [])
    | .folder => .error (.cannotRead (faultText "read" path "is a directory"))
    | .throughFile => .error (.cannotOpen (faultText "open" path "not a directory"))
    | .tooLong => .error (.cannotOpen (faultText "open" path nameTooLong))
    | _ => .error (.cannotOpen (faultText "open" path noSuchFile))

/-- The store after a file has been written, or why it could not be. -/
def write (s : FileStore) (path content : Bytes) : Except Bytes FileStore :=
  match s.refusal (path, content) with
  | some reason => .error reason
  | none =>
    match s.medium with
    | .memory => .ok (s.put (memoryPath path) content)
    | .disk =>
      match s.destination true path with
      | .file p | .vacant p => .ok (s.put p content)
      | .folder => .error (faultText "open" path "is a directory")
      | .throughFile => .error (faultText "open" path "not a directory")
      | .tooLong => .error (faultText "open" path nameTooLong)
      | .nowhere => .error (faultText "open" path noSuchFile)

/-- Why changes to a path cannot be followed. -/
def watchFault? (s : FileStore) (path : Bytes) : Option String :=
  match s.destination false (Path.clean path) with
  | .file _ | .folder => none
  | .throughFile => some "not a directory"
  | .tooLong => some nameTooLong
  | _ => some noSuchFile

/-- The files of a store that an earlier store did not have with these contents. -/
def changedSince (s earlier : FileStore) : List (Bytes × Bytes) :=
  s.files.filter fun f => earlier.content? f.1 ≠ some f.2

end FileStore

end ScriptTidy
