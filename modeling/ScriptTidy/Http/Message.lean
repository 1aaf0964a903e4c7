import ScriptTidy.Log.Structured
import ScriptTidy.Metric
import ScriptTidy.Text.Url

/-!
# Requests and responses

A request has a method, a target, headers and a body. A handler answers it by a sequence of acts:
it sets headers, a status and writes parts of a body. The response that the client sees has the
first status that was set, with the headers as they were at that time. A handler that goes on for
ever has no response.
-/

namespace ScriptTidy.Http

/-- A request. -/
structure Request where
  method : Bytes
  /-- What the request asks for, as it is written. -/
  target : Bytes
  /-- What the target refers to. -/
  url : Url.Reference
  headers : List (Bytes × Bytes) := []
  body : Bytes := []
deriving Repr

namespace Request

/-- The path without escapes. -/
def path (r : Request) : Bytes := r.url.path

/-- What stands behind the question mark, as it is written; empty if nothing does. -/
def query (r : Request) : Bytes := r.url.query.getD []

/-- The value of a header, empty if there is none. Names of headers have no case. -/
def header (r : Request) (name : String) : Bytes :=
  match r.headers.find? fun h => Bytes.toLowerAscii h.1 = Bytes.toLowerAscii (utf8 name) with
  | some h => h.2
  | none => []

/-- Whether the byte may stand in the name of a method. -/
def isMethodByte (b : UInt8) : Bool :=
  Url.isLetter b || isDigitByte b || (utf8 "!#$%&'*+-.^_`|~").elem b

/-- The method that asks for a connection to a host, which needs no path. -/
def connect : Bytes := utf8 "CONNECT"

/-- Reads what a request asks for: a rooted path, an absolute URL or a single star. To connect,
a host is enough. -/
def readTarget? (method target : Bytes) : Option Url.Reference :=
  if target.elem 0x20 then none
  else if method = connect && !Path.isRooted target then
    (Url.readWhole true (utf8 "http://" ++ target)).toOption.map fun u => { u with scheme := [] }
  else (Url.readWhole true target).toOption

/-- The request with a method and a target, if they are well formed. Without a method, a
request is for reading. -/
def make? (method target : Bytes) (headers : List (Bytes × Bytes)) (body : Bytes) :
    Option Request :=
  let method := if method.isEmpty then utf8 "GET" else method
  if method.all isMethodByte then
    (readTarget? method target).map fun url => { method, target, url, headers, body }
  else none

end Request

/-- One step of answering a request. -/
inductive Act
  | setHeader (name value : Bytes)
  | addHeader (name value : Bytes)
  | status (code : Int)
  | write (body : Bytes)
deriving DecidableEq, Repr

namespace Act

/-- A header that the program itself chooses. -/
def header (name value : String) : Act := setHeader (utf8 name) (utf8 value)

end Act

/-- Headers with all their values. -/
abbrev Headers := List (Bytes × List Bytes)

/-- The headers after a header has been set or has got one more value. -/
def Headers.add (replace : Bool) (name value : Bytes) : Headers → Headers
  | [] => [(name, [value])]
  | (n, vs) :: rest =>
    if n = name then (n, if replace then [value] else vs ++ [value]) :: rest
    else (n, vs) :: Headers.add replace name value rest

/-- What a client receives. -/
structure Response where
  status : Int
  headers : Headers
  body : Bytes
deriving DecidableEq, Repr

/-- Whether a number can be sent as a status. -/
def isSendable (code : Int) : Bool := 100 ≤ code && code ≤ 999

/-- Whether a response with the status may have a body. -/
def allowsBody (code : Int) : Bool := !(100 ≤ code && code ≤ 199) && code != 204 && code != 304

/-- A response under way. -/
structure Wire where
  headers : Headers := []
  /-- The status and the headers, once they are sent. -/
  sent : Option (Int × Headers) := none
  body : Bytes := []

namespace Wire

/-- Sends a status with the headers, unless one has been sent. A status that cannot be sent is
passed over. -/
def send (w : Wire) (code : Int) : Wire :=
  if w.sent.isSome || !isSendable code then w else { w with sent := some (code, w.headers) }

/-- The response after one more step. Writing sends the status of success if none is sent. -/
def step (w : Wire) : Act → Wire
  | .setHeader name value => { w with headers := w.headers.add true name value }
  | .addHeader name value => { w with headers := w.headers.add false name value }
  | .status code => w.send code
  | .write body =>
    let w := w.send 200
    { w with body := w.body ++ body }

/-- What the client receives in the end. -/
def response (w : Wire) : Response :=
  let (status, headers) := w.sent.getD (200, w.headers)
  ⟨status, headers, w.body⟩

end Wire

/-- The response to a sequence of steps. -/
def Response.ofActs (acts : List Act) : Response := (acts.foldl Wire.step {}).response

/-- How a handler has answered a request. -/
structure Conduct where
  acts : List Act
  /-- Why the handler ended before it was done. -/
  crash : Option Bytes := none
  /-- Whether the handler goes on for ever, so that nothing of the answer is sent. -/
  endless : Bool := false
  entries : List Log.Entry := []
  metrics : List Metric := []

/-- What the client receives for a conduct, if anything. -/
def Conduct.response? (c : Conduct) : Option Response :=
  if c.endless then none else some (.ofActs c.acts)

end ScriptTidy.Http
