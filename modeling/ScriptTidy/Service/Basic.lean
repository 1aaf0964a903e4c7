import ScriptTidy.Config.Basic
import ScriptTidy.Http.Health
import ScriptTidy.Http.Layer
import ScriptTidy.Markup.InlineScript
import ScriptTidy.Service.Cache
import ScriptTidy.Service.Order
import ScriptTidy.Status.Section
import ScriptTidy.Tools

/-!
# The formatting service

A service takes orders over HTTP and answers them with the formatted code and its source map.
Answers are kept in a cache under hashes of the orders in canonical form; failed orders are not.
An answer is kept before it is sent, and sending it may never come to an end. Other paths tell the
state of the service.
-/

namespace ScriptTidy.Service

open Http (Conduct Request)

/-- The answer to an order. -/
structure Answer where
  code : Bytes
  map : SourceMap
  /-- How the code differs from the source, if that was asked for. -/
  diff : Bytes := []
  /-- The number of scripts in a document. -/
  scripts : Nat := 0

open JsonValue (field) in
/-- The answer as a JSON value. Empty differences and the number zero are left out. -/
def Answer.toJson (a : Answer) : JsonValue :=
  .obj ([field "code" (.str a.code), field "map" a.map.toJson]
    ++ (if a.diff.isEmpty then [] else [field "diff" (.str a.diff)])
    ++ (if a.scripts = 0 then [] else [field "scripts" (.nat a.scripts)]))

/-- The configuration for an order: settings of the order come before those of the service. -/
def configFor (c : Config) (o : Order) : Config :=
  { c with
    url := if o.url.isEmpty then c.url else o.url
    originalStartLine := if o.originalStartLine = 0 then c.originalStartLine
      else o.originalStartLine
    originalStartColumn := if o.originalStartColumn = 0 then c.originalStartColumn
      else o.originalStartColumn
    generatedStartLine := if o.generatedStartLine = 0 then c.generatedStartLine
      else o.generatedStartLine }

/-- What came of an order. -/
inductive Verdict
  | answer (a : Answer)
  | failure (f : Failure)
  /-- The configuration asks for more indentation than there can be. -/
  | crash

/-- Formats the source of an order, and tells what is counted on the way. -/
def format (tools : Tools) (opts : Options) (o : Order) (check : Bool) : Verdict × List Metric :=
  let answer := fun (code : Bytes) (mappings : List Mapping) (scripts : Nat) =>
    Verdict.answer
      { code
        map := ({ file := opts.url } : SourceMap).addAll mappings
        diff := if check then lineDiffWith tools.edits o.source code else []
        scripts }
  if o.html then
    match formatSplit opts o.source (tools.split o.source) with
    | (.ok d, metrics) => (answer d.code d.mappings d.scripts, metrics)
    | (.error f, metrics) => (.failure f, metrics)
  else
    let result := ScriptTidy.format opts o.source
    let metrics := InlineScript.formatMetrics result
    match result with
    | .ok f => (answer f.code f.mappings 0, metrics)
    | .error f => (.failure f, metrics)

/-- Fills an order, and tells what is counted on the way. -/
def fill (tools : Tools) (c : Config) (o : Order) (check : Bool) : Verdict × List Metric :=
  let c := configFor c o
  match c.fault? with
  | some f => (.failure f, [])
  | none =>
    match c.options? with
    | none => (.crash, [])
    | some opts =>
      format tools (if o.indent.isEmpty then opts else { opts with indent := o.indent }) o check

/-- A service and its cache, with answers kept under hashes of orders in canonical form. -/
structure StateOf {κ : Type} (kind : CacheKind κ Answer) where
  config : Config
  /-- The largest size of an order; no limit unless positive. -/
  maxBytes : Int := 0
  tools : Tools
  hash : Bytes → κ
  cache : kind.Cache

/-- A new service with tools, a kind of cache and a hash function. -/
def createWith {κ : Type} (tools : Tools) (kind : CacheKind κ Answer) (hash : Bytes → κ)
    (config : Config) (cacheSize maxBytes : Int) : Except Failure (StateOf kind) :=
  match config.fault? with
  | some f => .error (.within (utf8 "invalid config") f)
  | none =>
    match kind.new cacheSize with
    | .error f =>
      .error (.within (utf8 "creating cache of size " ++ intDecimal cacheSize) f)
    | .ok cache => .ok { config, maxBytes, tools, hash, cache }

/-- A service that drops the least recently used answer and keeps answers under the canonical
forms themselves. -/
abbrev State := StateOf (Lru.kind Bytes Answer)

/-- A new service with the tools of this library and without hashing. -/
def create (config : Config) (cacheSize maxBytes : Int) : Except Failure State :=
  createWith .standard _ id config cacheSize maxBytes

/-- The breakdown in which the status codes of orders are counted. -/
def orderCodes : Bytes := utf8 "prettyfastserver.Prettify status codes"

/-- The reason of a crash for want of memory. -/
def crashReason : Bytes := utf8 "runtime error: makeslice: len out of range"

open JsonValue (field) in
/-- The log entry for a source that cannot be split into tokens. -/
def tokenizingEntry (o : Order) (f : Failure) : Log.Entry :=
  { level := .info
    message := utf8 "error tokenizing"
    fields := [field "url" (.str o.url), field "error" (.str f.message)] }

/-- How an answer is sent. The text of its map may never be finished. -/
def Answer.conduct (a : Answer) : Conduct :=
  if a.map.ends then { acts := Http.Reply.json 200 a.toJson } else { acts := [], endless := true }

/-- The answer to what came of an order. -/
def conductFor (o : Order) (verdict : Verdict) : Conduct :=
  match verdict with
  | .answer a => a.conduct
  | .crash => { acts := [], crash := some crashReason }
  | .failure f =>
    match f.positioned? with
    | some e =>
      { acts := Http.Reply.positioned 422 f.message e.pos.line e.pos.column
        entries := [tokenizingEntry o f] }
    | none => { acts := Http.Reply.badRequest f.message [] }

section Requests

variable {κ : Type} {kind : CacheKind κ Answer}

/-- The cache after an order has been filled. Only answers are kept. -/
def remember (cache : kind.Cache) (key : κ) : Verdict → kind.Cache
  | .answer a => kind.add cache key a
  | _ => cache

/-- Takes an order from the cache, or fills it. -/
def answerOrder (s : StateOf kind) (o : Order) (check : Bool) : Conduct × StateOf kind :=
  let key := s.hash (o.encode check)
  match kind.get s.cache key with
  | (some a, cache) =>
    ({ a.conduct with metrics := [.cacheLookup true] }, { s with cache })
  | (none, cache) =>
    let (verdict, metrics) := fill s.tools s.config o check
    let c := conductFor o verdict
    ({ c with metrics := .cacheLookup false :: metrics },
      { s with cache := remember cache key verdict })

/-- Whether a request asks for the differences. -/
def wantsDiff (r : Request) : Bool :=
  (Http.Query.read r.query).get "check" == utf8 "1"

/-- Handles a request with an order. -/
def handleOrder (s : StateOf kind) (r : Request) : Conduct × StateOf kind :=
  if 0 < s.maxBytes ∧ s.maxBytes < r.body.length then
    ({ acts := Http.Reply.badRequest
        (utf8 "error reading request: http: request body too large") [] }, s)
  else
    match Order.read r.body with
    | .error message =>
      ({ acts := Http.Reply.badRequest (utf8 "error unmarshalling request: " ++ message) []
         metrics := [.requestSize] }, s)
    | .ok o =>
      let (c, s) := answerOrder s o (wantsDiff r)
      ({ c with metrics := .requestSize :: c.metrics }, s)

/-! ## Routes -/

/-- What can be asked of the service. -/
inductive Route
  | order
  | health
  | ready
  | status
deriving DecidableEq, Repr

namespace Route

/-- The path of a route. -/
def path : Route → String
  | order => "/prettify"
  | health => "/health"
  | ready => "/ready"
  | status => "/debug/status-json"

/-- The method of a route. -/
def method : Route → String
  | order => "POST"
  | _ => "GET"

/-- The route with a path. -/
def find? (path : Bytes) : Option Route :=
  [order, health, ready, status].find? fun r => utf8 r.path = path

end Route

/-- The page with the names of all sections of the status report. -/
def statusPage : Conduct :=
  Conduct.noCache { acts := Http.Reply.json 200 (.arr ((Status.sectionNames []).map .str)) }

/-- Handles a request on a route. The service counts as not ready. -/
def handleRoute (s : StateOf kind) (r : Request) : Route → Conduct × StateOf kind
  | .order =>
    let (c, s) := handleOrder s r
    (c.recordCode orderCodes, s)
  | .health => ({ acts := Http.Health.alive }, s)
  | .ready => ({ acts := Http.Health.readiness false }, s)
  | .status => (statusPage, s)

/-- Finds the route of a request and handles it. -/
def dispatch (s : StateOf kind) (r : Request) : Conduct × StateOf kind :=
  let path := Path.canonical r.path
  if path ≠ r.path then
    ({ acts := Http.Reply.moved ({ r.url with path } : Url.Reference).text }, s)
  else match Route.find? path with
    | none => ({ acts := Http.Reply.notFound }, s)
    | some route =>
      if utf8 route.method = r.method then handleRoute s r route
      else ({ acts := Http.Reply.methodNotAllowed }, s)

/-- Serves a request: the answer and all that happens around it. -/
def serve (s : StateOf kind) (r : Request) : Conduct × StateOf kind :=
  let (c, s) := dispatch s r
  ((c.compress r).wrap r, s)

end Requests

end ScriptTidy.Service
