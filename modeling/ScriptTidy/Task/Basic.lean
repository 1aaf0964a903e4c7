import ScriptTidy.Config.Basic
import ScriptTidy.Markup.InlineScript
import ScriptTidy.Task.Session
import ScriptTidy.Tools

/-!
# Tasks

A task says what to do with each of its inputs: list its tokens, compare it with its formatted
form, or format it, with a source map and an answer to where a place came from if they are asked
for. Doing a task changes a session: the files, what was printed, what was logged and what was
counted.

A task is done on one input by `Task.run`, and on all inputs of a command by `Task.runAll`.
-/

namespace ScriptTidy

/-- What highlights code for a terminal: through an outlet, behind what is printed, it tells what
arrives there for a text, and what goes wrong behind that. -/
abbrev Highlighter := Outlet → (before code : Bytes) → Bytes × Option Failure

/-- What to do with inputs. -/
structure Task where
  config : Config := .standard
  /-- The file to write the code to; the code is printed if this is empty. -/
  out : Bytes := []
  /-- The file to write the source map to. -/
  mapFile : Bytes := []
  /-- Whether inputs are documents, whatever their names are. -/
  html : Bool := false
  /-- Whether to compare inputs with their formatted form only. -/
  check : Bool := false
  /-- Whether to list tokens only. -/
  tokens : Bool := false
  /-- A place of the code, the origin of which is printed in place of the code. -/
  lookup : Bytes := []
  /-- What printed code is highlighted by, if it is. -/
  highlighter : Option Highlighter := none
  /-- Where texts are printed. -/
  outlet : Outlet := fun _ _ => none
  tools : Tools := .standard

/-- What formatting an input has produced. -/
structure Product where
  code : Bytes
  mappings : List Mapping
  /-- What is logged about it. -/
  note : Option Bytes := none

namespace Task

/-- How an input is called in messages; the standard input has no name. -/
def inputName (name : Bytes) : Bytes := if name.isEmpty then utf8 "<stdin>" else name

/-- Whether a name is that of a document. -/
def isDocumentName (name : Bytes) : Bool :=
  let ext := Bytes.toLowerAscii (Path.extension name)
  ext == utf8 ".html" || ext == utf8 ".htm"

/-- The options for an input. Without a configured name, a source is called like its file. -/
def optionsFor (o : Options) (name : Bytes) : Options :=
  if !o.url.isEmpty then o
  else { o with url := if name.isEmpty then utf8 "stdin.js" else Path.base name }

/-- Formats an input and tells what is counted on the way. -/
def produce (t : Task) (o : Options) (name source : Bytes) :
    Except Failure Product × List Metric :=
  if t.html || isDocumentName name then
    let (result, metrics) := formatSplit o source (t.tools.split source)
    (result.map fun d =>
      { code := d.code
        mappings := d.mappings
        note := some (inputName name ++ utf8 ": formatted " ++ natDecimal d.scripts
          ++ utf8 " inline scripts") },
      metrics)
  else
    let result := format o source
    (result.map fun f => { code := f.code, mappings := f.mappings },
      InlineScript.formatMetrics result)

/-- The source map of a product. The contents of the source are part of it if it is written to
a file. -/
def sourceMap (t : Task) (o : Options) (source : Bytes) (p : Product) : SourceMap :=
  let file := Path.base (if t.out.isEmpty then o.url else t.out)
  let map := ({ file } : SourceMap).addAll p.mappings
  if t.mapFile.isEmpty then map else map.setContent o.url source

/-- Lists the tokens of an input. -/
def listTokens (t : Task) (name source : Bytes) (s : Session) : Outcome × Session :=
  match tokenize source with
  | .ok tokens => (⟨true, none⟩, s.tell t.outlet (tokens.map t.tools.dump))
  | .error e =>
    (⟨true, some (.within (utf8 "tokenizing " ++ inputName name) (.positioned e.toPositioned))⟩, s)

/-- Prints how an input differs from its formatted form, and accepts it if it does not. -/
def compare (t : Task) (name source : Bytes) (p : Product) (s : Session) : Outcome × Session :=
  let diff := lineDiffWith t.tools.edits source p.code
  if diff.isEmpty then (⟨true, none⟩, s)
  else (⟨false, none⟩, s.tell t.outlet [utf8 "--- " ++ inputName name ++ [0x0A] ++ diff])

/-- Writes the source map to its file, if there is one. The text of the map may never be
finished. -/
def writeMap (t : Task) (map : SourceMap) (s : Session) : Progress (Option Failure) :=
  if t.mapFile.isEmpty then .ok (none, s)
  else match map.render? with
    | some text => .ok ((s.record .encode).writeFile t.mapFile text)
    | none => .error ⟨.endless, s⟩

/-- Prints code. -/
def showCode (t : Task) (code : Bytes) (s : Session) : Option Failure × Session :=
  match t.highlighter with
  | none => s.print t.outlet code
  | some highlight =>
    let (text, fault) := highlight t.outlet s.stdout code
    (fault.map (.within (utf8 "highlighting output")), { s with stdout := s.stdout ++ text })

/-- Writes the code to its file or prints it. Nothing is printed if a place is looked up. -/
def writeCode (t : Task) (code : Bytes) (s : Session) : Option Failure × Session :=
  if !t.out.isEmpty then s.writeFile t.out code
  else if t.lookup.isEmpty then t.showCode code s
  else (none, s)

/-- The line that tells where a place of the code came from. -/
def originLine (p : Place) (o : Origin) : Bytes :=
  let show_ := fun (p : Place) => intDecimal p.line ++ [0x3A] ++ intDecimal p.column
  show_ p ++ utf8 " -> " ++ o.source ++ [0x3A] ++ show_ o.place ++ [0x0A]

/-- The answer to what is looked up. For that the map is written and read again. -/
def lookupLine (t : Task) (map : SourceMap) : Except Halt (Except Failure Bytes) :=
  match Place.parse t.lookup with
  | .error f => .ok (.error f)
  | .ok p =>
    match map.render? with
    | none => .error .endless
    | some text =>
      match map.originBy p (t.tools.consult map.file text p) with
      | some answer => .ok (answer.map (originLine p))
      | none => .error .crash

/-- Prints where a place of the code came from, if that is asked for. -/
def answerLookup (t : Task) (map : SourceMap) (s : Session) : Progress Outcome :=
  if t.lookup.isEmpty then .ok (⟨true, none⟩, s)
  else match t.lookupLine map with
    | .ok (.ok line) => .ok (⟨true, none⟩, s.tell t.outlet [line])
    | .ok (.error f) => .ok (⟨true, some f⟩, s)
    | .error reason => .error ⟨reason, s⟩

/-- Delivers a product: the map, the code and then the answer to what is looked up. The first
of these that fails is the last. -/
def deliver (t : Task) (map : SourceMap) (p : Product) (s : Session) : Progress Outcome :=
  match t.writeMap map s with
  | .error halted => .error halted
  | .ok (some f, s) => .ok (⟨false, some f⟩, s)
  | .ok (none, s) =>
    match t.writeCode p.code s with
    | (some f, s) => .ok (⟨false, some f⟩, s)
    | (none, s) => t.answerLookup map (s.record .write)

/-- Formats an input and delivers or compares the product. -/
def formatInput (t : Task) (o : Options) (name source : Bytes) (s : Session) :
    Progress Outcome :=
  let o := optionsFor o name
  let (result, metrics) := t.produce o name source
  let s := s.count metrics
  match result with
  | .error f => .ok (⟨false, some f⟩, s)
  | .ok p =>
    let s := match p.note with
      | some text => s.note text
      | none => s
    let s := s.record .prettify
    if t.check then .ok (t.compare name source p s) else t.deliver (t.sourceMap o source p) p s

/-- Does the work on one input. It breaks off if the configuration asks for more indentation than
there can be. -/
def process (t : Task) (name source : Bytes) (s : Session) : Progress Outcome :=
  if t.tokens then .ok (t.listTokens name source s)
  else match t.config.options? with
    | some o => t.formatInput o name source s
    | none => .error ⟨.crash, s⟩

/-- Does the task on one input. The durations are logged if the work ends, also if it breaks
off. -/
def run (t : Task) (name source : Bytes) (s : Session) : Progress Outcome :=
  match t.process name source s with
  | .ok (outcome, s) => .ok (outcome, s.flush)
  | .error ⟨.crash, s⟩ => .error ⟨.crash, s.flush⟩
  | .error ⟨.endless, s⟩ => .error ⟨.endless, s⟩

/-- Does the task on a file. -/
def runFile (t : Task) (name : Bytes) (s : Session) : Progress Outcome :=
  match s.store.read name with
  | .error fault => .ok (⟨false, some (.traced (.plain fault.message))⟩, s)
  | .ok source => t.run name source (s.record .read)

/-- What became of the inputs of a command. -/
structure Report where
  /-- The number of inputs that were not accepted. -/
  unformatted : Nat := 0
  failures : List Failure := []
  session : Session

/-- The report after one more file. A file that failed is not counted as unformatted. -/
def Report.addFile (t : Task) (r : Report) (name : Bytes) : Except Halted Report :=
  (t.runFile name r.session).map fun (outcome, session) =>
    match outcome.failure with
    | some f => { r with failures := Failure.append r.failures (some f), session }
    | none => { r with unformatted := r.unformatted + (if outcome.accepted then 0 else 1), session }

/-- Does the task on files, one after the other. -/
def runFiles (t : Task) (names : List Bytes) (s : Session) : Except Halted Report :=
  names.foldlM (Report.addFile t) { session := s }

/-- The result of a command: the number of inputs that were not accepted, what went wrong, and
the session. -/
structure Result where
  unformatted : Nat
  failure : Option Failure
  session : Session

/-- Does the task on all files, or on the standard input if there are none. The first input that
the work does not come to an end at is the last. -/
def runAll (t : Task) (names : List Bytes) (stdin : Bytes) (s : Session) :
    Except Halted Result :=
  if names.isEmpty then
    (t.run [] stdin (s.record .read)).map fun (outcome, session) =>
      ⟨if outcome.accepted then 0 else 1, outcome.failure, session⟩
  else
    (t.runFiles names s).map fun r =>
      ⟨r.unformatted, if r.failures.isEmpty then none else some (.several r.failures), r.session⟩

end Task

end ScriptTidy
