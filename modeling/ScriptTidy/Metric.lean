import ScriptTidy.Text.Decimal

/-!
# What the program counts

Each event raises some of the counts that the status report shows. The counts are named by
section and name, a ratio's with its two parts and a breakdown's with the category.
-/

namespace ScriptTidy

/-- An event that is counted. -/
inductive Metric
  | inputRecorded
  | prettified
  | tokensRecorded
  | tokenizeError
  | document
  | inlineScript
  | inlineScriptError
  /-- A look into the cache of answers. -/
  | cacheLookup (hit : Bool)
  | requestSize
  /-- A response with a status code, counted in the breakdown with a name. -/
  | statusCode (breakdown : Bytes) (code : Int)
  /-- A request that ended without an answer of its own. -/
  | crash
deriving DecidableEq, Repr

/-- The counts that an event raises. -/
def Metric.keys : Metric → List Bytes
  | inputRecorded => [utf8 "prettyfast.Input"]
  | prettified => [utf8 "prettyfast.Prettify"]
  | tokensRecorded => [utf8 "prettyfast.Tokens"]
  | tokenizeError => [utf8 "prettyfast.Tokenize errors"]
  | document => [utf8 "inlinescript.Documents"]
  | inlineScript => [utf8 "inlinescript.Scripts"]
  | inlineScriptError => [utf8 "inlinescript.Script errors"]
  | cacheLookup hit =>
    utf8 "prettyfastserver.Cache hits.den"
      :: if hit then [utf8 "prettyfastserver.Cache hits.num"] else []
  | requestSize => [utf8 "prettyfastserver.Request size"]
  | statusCode breakdown code => [breakdown ++ utf8 "." ++ intDecimal code]
  | crash => [utf8 "Response Codes.Panics"]

/-- The list with the count of `key` raised by one. -/
def raiseCount (key : Bytes) : List (Bytes × Nat) → List (Bytes × Nat)
  | [] => [(key, 1)]
  | (k, n) :: rest => if k = key then (k, n + 1) :: rest else (k, n) :: raiseCount key rest

/-- How much each count is raised by a sequence of events. -/
def tally (events : List Metric) : List (Bytes × Nat) :=
  (events.flatMap Metric.keys).foldl (fun counts key => raiseCount key counts) []

end ScriptTidy
