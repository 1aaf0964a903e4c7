import ScriptTidy.Text.Integer

/-!
# Arguments of the command line

A switch starts with dashes. A switch that takes a value has it behind an equals sign or as the
next argument; one that is on or off takes a value only behind an equals sign. All other
arguments are files, and so is everything after two dashes.
-/

namespace ScriptTidy.Command

/-- What can be set by a switch. -/
inductive Switch
  | indent
  | tabs
  | url
  | out
  | map
  | html
  | check
  | tokens
  | lookup
  | watch
  | color
  | config
  | verbose
deriving DecidableEq, Repr

/-- The kinds of value that switches take. -/
inductive ValueKind
  | onOff
  | number
  | text
deriving DecidableEq, Repr

namespace Switch

/-- All switches, in the order in which they are listed. -/
def all : List Switch :=
  [indent, tabs, url, out, map, html, check, tokens, lookup, watch, color, config, verbose]

/-- The name of a switch. -/
def label : Switch → String
  | indent => "indent"
  | tabs => "tabs"
  | url => "url"
  | out => "out"
  | map => "map"
  | html => "html"
  | check => "check"
  | tokens => "tokens"
  | lookup => "lookup"
  | watch => "watch"
  | color => "color"
  | config => "config"
  | verbose => "verbose"

/-- The letter of a switch, empty if it has none. -/
def letter : Switch → String
  | verbose => "v"
  | _ => ""

/-- The kind of value that a switch takes. -/
def kind : Switch → ValueKind
  | indent => .number
  | url | out | map | lookup | config => .text
  | _ => .onOff

/-- What a switch does, in words. -/
def help : Switch → String
  | indent => "spaces per indentation level (default 2)"
  | tabs => "indent with tabs"
  | url => "source name recorded in the source map"
  | out => "write the output to this file instead of stdout"
  | map => "write the source map to this file"
  | html => "format the inline scripts of an HTML document (implied by .html and .htm)"
  | check => "print a diff and exit 1 when an input is not already formatted"
  | tokens => "dump the tokens instead of formatting"
  | lookup => "print the original position of a generated LINE:COL"
  | watch => "format again whenever an input file changes"
  | color => "highlight the output for a terminal"
  | config => "YAML config file, flags take precedence"
  | verbose => "log timings and metrics to stderr"

/-- The first switch with a name or a letter. -/
def find? (name : Bytes) : Option Switch :=
  all.find? fun s => utf8 s.label = name || utf8 s.letter = name

end Switch

/-- What a command line asks for. -/
structure Invocation where
  files : List Bytes := []
  /-- The number of spaces per level; not set unless positive. -/
  indent : Int := 0
  /-- The switches that are on. -/
  switches : List Switch := []
  /-- The texts that switches have been given, the latest first. -/
  texts : List (Switch × Bytes) := []
deriving Repr

namespace Invocation

/-- Whether a switch is on. -/
def isOn (i : Invocation) (s : Switch) : Bool := i.switches.elem s

/-- The text that a switch has been given, empty if there is none. -/
def text (i : Invocation) (s : Switch) : Bytes := (i.texts.lookup s).getD []

/-- The truth value that a text names. -/
def readBool? (text : Bytes) : Option Bool :=
  if (["1", "t", "T", "TRUE", "true", "True"].map utf8).elem text then some true
  else if (["0", "f", "F", "FALSE", "false", "False"].map utf8).elem text then some false
  else none

/-- Sets a switch to a value, or tells why the value does not suit it. -/
def set (i : Invocation) (s : Switch) (value : Bytes) : Except Bytes Invocation :=
  match s.kind with
  | .text => .ok { i with texts := (s, value) :: i.texts }
  | .number =>
    match readInteger value with
    | .ok n => .ok { i with indent := n }
    | .error f => .error (f.message "strconv.ParseInt" value)
  | .onOff =>
    match readBool? value with
    | some true => .ok { i with switches := s :: i.switches }
    | some false => .ok { i with switches := i.switches.filter (· != s) }
    | none => .error (IntegerFault.malformed.message "strconv.ParseBool" value)

end Invocation

/-- Why there is nothing to do but print. -/
inductive Stop
  | help
  | version
  | fault (message : Bytes)
deriving DecidableEq, Repr

namespace Arguments

/-- An argument without the dashes in front. -/
def trimDashes (arg : Bytes) : Bytes := arg.dropWhile (· == 0x2D)

/-- Whether an argument is a switch: dashes and something else. -/
def isSwitch (arg : Bytes) : Bool := arg.head? == some 0x2D && !(trimDashes arg).isEmpty

/-- The name of a switch and its value; the value is empty if there is none. -/
def split (arg : Bytes) : Bytes × Bytes :=
  let body := trimDashes arg
  let name := body.takeWhile (· != 0x3D)
  (name, body.drop (name.length + 1))

/-- Whether the next argument may be the value of a switch. A switch that takes a number may be
followed by a negative one. -/
def mayBeValue (s : Switch) (arg : Bytes) : Bool :=
  !isSwitch arg || (s.kind == .number && (readInteger arg).toOption.isSome)

/-- The value of a switch and whether it is the next argument. -/
def valueOf (s : Switch) (arg : Bytes) (next : Option Bytes) : Except Stop (Bytes × Bool) :=
  let value := (split arg).2
  if !value.isEmpty then .ok (value, false)
  else if s.kind = .onOff then .ok (utf8 "true", false)
  else match next with
    | some v =>
      if mayBeValue s v then .ok (v, true)
      else .error (.fault (utf8 "missing value for " ++ arg))
    | none => .error (.fault (utf8 "missing value for " ++ arg))

/-- Reads arguments one after the other. `onlyFiles` tells whether two dashes came before. -/
def readFrom (onlyFiles : Bool) (i : Invocation) : List Bytes → Except Stop Invocation
  | [] => .ok i
  | arg :: rest =>
    if arg = utf8 "--" then readFrom true i rest
    else if onlyFiles || !isSwitch arg then
      readFrom onlyFiles { i with files := i.files ++ [arg] } rest
    else if arg = utf8 "-h" ∨ arg = utf8 "--help" then .error .help
    else if arg = utf8 "--version" then .error .version
    else match Switch.find? (split arg).1 with
      | none => .error (.fault (utf8 "unknown argument " ++ arg))
      | some s =>
        match valueOf s arg rest.head? with
        | .error stop => .error stop
        | .ok (value, isNext) =>
          match i.set s value with
          | .error reason =>
            .error (.fault (utf8 "error processing " ++ arg ++ utf8 ": " ++ reason))
          | .ok i => readFrom onlyFiles i (if isNext then rest.drop 1 else rest)
termination_by args => args.length
decreasing_by
  · simp
  · simp
  · split <;> simp only [List.length_drop, List.length_cons] <;> omega

/-- Whether help is asked for somewhere before two dashes. -/
def asksForHelp (args : List Bytes) : Bool :=
  (args.takeWhile (· != utf8 "--")).any fun a => a == utf8 "-h" || a == utf8 "--help"

/-- Reads the arguments of a command line. Wherever help is asked for, it comes before all
faults. -/
def read (args : List Bytes) : Except Stop Invocation :=
  match readFrom false {} args with
  | .ok i => .ok i
  | .error stop => .error (if asksForHelp args then .help else stop)

end Arguments

end ScriptTidy.Command
