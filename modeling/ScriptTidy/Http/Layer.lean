import ScriptTidy.Http.Query
import ScriptTidy.Http.Reply
import ScriptTidy.Text.Space

/-!
# Layers around handlers

What happens to every request apart from its answer: requests are logged, status codes are
counted, a handler that crashed is answered for, and answers are compressed or kept out of
caches. Behind a handler that goes on for ever none of this happens.
-/

namespace ScriptTidy.Http

/-! ## What a sequence of steps amounts to -/

/-- The status that is counted: the first one that is set, or that is implied by writing. -/
def firstCode : List Act → Int
  | [] => 200
  | .status code :: _ => code
  | .write _ :: _ => 200
  | _ :: rest => firstCode rest

/-- The status that is logged: the last one that is set; zero if there is none. Writing without
a status sets one. -/
def lastCode (acts : List Act) : Int :=
  acts.foldl (fun code a => match a with
    | .status c => c
    | .write _ => if code = 0 then 200 else code
    | _ => code) 0

/-- The number of bytes that count as written: none if the status that is sent allows no body,
whatever has been written. -/
def writtenSize (acts : List Act) : Nat :=
  let r := Response.ofActs acts
  if allowsBody r.status then r.body.length else 0

/-- The message for a status that cannot be sent. -/
def badCodeMessage (code : Int) : Bytes := utf8 "invalid WriteHeader code " ++ intDecimal code

/-- The steps up to the first status, if it cannot be sent, and that status. -/
def cutAtBadCode : List Act → Option (List Act × Int)
  | [] => none
  | .status code :: _ => if isSendable code then none else some ([.status code], code)
  | .write _ :: _ => none
  | a :: rest => (cutAtBadCode rest).map fun (acts, code) => (a :: acts, code)

namespace Conduct

/-- A handler that sets a status that cannot be sent has crashed there. -/
def checked (c : Conduct) : Conduct :=
  match cutAtBadCode c.acts with
  | some (acts, code) => { c with acts, crash := some (badCodeMessage code) }
  | none => c

/-! ## Layers -/

/-- The headers that keep an answer out of caches. -/
def noCacheHeaders : List Act :=
  [.header "Cache-Control" "no-cache, no-store, must-revalidate", .header "Pragma" "no-cache",
    .header "Expires" "0"]

/-- The steps with the headers against caching before every status. `begun` tells whether there
has been a status. -/
def withNoCache (begun : Bool) : List Act → List Act
  | [] => []
  | .status code :: rest => noCacheHeaders ++ .status code :: withNoCache true rest
  | .write body :: rest =>
    if begun then .write body :: withNoCache true rest
    else noCacheHeaders ++ .status 200 :: .write body :: withNoCache true rest
  | a :: rest => a :: withNoCache begun rest

/-- Keeps an answer out of caches. -/
def noCache (c : Conduct) : Conduct := { c with acts := withNoCache false c.acts }

/-- Counts the status of an answer in a breakdown, unless the handler crashed or does not end. -/
def recordCode (breakdown : Bytes) (c : Conduct) : Conduct :=
  if c.crash.isSome || c.endless then c
  else { c with metrics := c.metrics ++ [.statusCode breakdown (firstCode c.acts)] }

/-- The encoding for an answer: the first one in the list of the client that is known. -/
def encodingFor? (r : Request) : Option Bytes :=
  ((Bytes.splitOn 0x2C (r.header "Accept-Encoding")).map trimBlank).find? fun e =>
    e = utf8 "gzip" || e = utf8 "deflate"

/-- Marks an answer as compressed if the client accepts that. The body stays as it is: what is
compressed has the same meaning. The end of what is compressed is written behind a handler that
ends, also after a crash. -/
def compress (r : Request) (c : Conduct) : Conduct :=
  let vary := Act.addHeader (utf8 "Vary") (utf8 "Accept-Encoding")
  match encodingFor? r with
  | some e =>
    if (r.header "Upgrade").isEmpty then
      let done := if c.endless then [] else [Act.write []]
      { c with acts := vary :: .setHeader (utf8 "Content-Encoding") e :: c.acts ++ done }
    else { c with acts := vary :: c.acts }
  | none => { c with acts := vary :: c.acts }

/-- The breakdown in which the status codes of a path are counted. -/
def breakdownFor? (path : Bytes) : Option Bytes :=
  if (utf8 "/prettify").isPrefixOf path then some (utf8 "Response Codes.Prettify API")
  else if path = utf8 "/health" ∨ path = utf8 "/ready" then some (utf8 "Response Codes.Health API")
  else if (utf8 "/debug/").isPrefixOf path then some (utf8 "Response Codes.Debug API")
  else none

/-- Counts the status of an answer by what was asked for. -/
def countCode (r : Request) (c : Conduct) : Conduct :=
  match breakdownFor? r.path with
  | some b => { c with metrics := c.metrics ++ [.statusCode b (lastCode c.acts)] }
  | none => c

/-- The path of a request with its query, sorted, as the log shows it. -/
def loggedUrl (r : Request) : Bytes :=
  if r.query.isEmpty then r.path else r.path ++ [0x3F] ++ Query.write (Query.read r.query)

/-- Whether a request is left out of the log. -/
def isQuiet (r : Request) : Bool :=
  let line := r.method ++ [0x20] ++ loggedUrl r
  (utf8 "GET /health").isPrefixOf line || (utf8 "GET /ready").isPrefixOf line

open JsonValue (field) in
/-- Logs a request with the status and the size of the answer. -/
def logRequest (r : Request) (c : Conduct) : Conduct :=
  if isQuiet r then c
  else { c with entries := c.entries ++ [{
    level := .info
    message := utf8 "request"
    fields := [field "method" (.str r.method), field "url" (.str (loggedUrl r)),
      field "status" (.int (lastCode c.acts)), field "size" (.nat (writtenSize c.acts))] }] }

open JsonValue (field) in
/-- Answers for a handler that crashed. -/
def recover (r : Request) (reason : Bytes) (c : Conduct) : Conduct :=
  { acts := c.acts ++ [.status 500]
    entries := c.entries ++ [{
      level := .error
      message := utf8 "[recovery!] panic serving request"
      fields := [field "method" (.str r.method), field "path" (.str r.path),
        field "error" (.str reason)] }]
    metrics := c.metrics ++ [.crash] }

/-- All that happens around a handler. What comes after a crash is left out. -/
def wrap (r : Request) (c : Conduct) : Conduct :=
  if c.endless then c
  else match c.crash with
    | some reason => c.recover r reason
    | none => (c.countCode r).logRequest r

end Conduct

end ScriptTidy.Http
