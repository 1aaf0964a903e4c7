import ScriptTidy.Http.Reply

/-!
# Health of the service

Two questions that load balancers ask: whether the service responds at all, and whether it is
ready to serve.
-/

namespace ScriptTidy.Http

/-- The state of a service. -/
inductive Health
  | unknown
  | ok
  | unreachable
deriving DecidableEq, Repr

namespace Health

/-- The number of a state. -/
def code : Health → Int
  | unknown => 0
  | ok => 1
  | unreachable => 2

/-- The state in words. -/
def label : Health → String
  | unknown => "N/A"
  | ok => "OK"
  | unreachable => "Unreachable"

/-- The state with a number. -/
def ofCode? (n : Int) : Option Health := [unknown, ok, unreachable].find? fun h => h.code == n

open JsonValue (field) in
/-- The answer that tells a state. -/
def reply (h : Health) (status : Int) (message : String) : List Act :=
  Reply.json status (.obj [field "status_code" (.int h.code), field "message" (.ascii message)])

/-- The answer to whether the service responds. -/
def alive : List Act := ok.reply 200 ""

/-- The answer to whether the service is ready. -/
def readiness (ready : Bool) : List Act :=
  if ready then ok.reply 200 "ready" else unreachable.reply 503 "not ready"

end Health

end ScriptTidy.Http
