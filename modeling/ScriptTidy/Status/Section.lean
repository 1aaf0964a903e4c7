import ScriptTidy.Json.Basic
import ScriptTidy.Status.Breakdown
import ScriptTidy.Status.Reservoir

/-!
# Sections of the status report

A section groups named metrics of six kinds. A metric comes into being when it is first
mentioned. Headline metrics stand first in summaries.
-/

namespace ScriptTidy.Status

/-- A metric with its mark as a headline. -/
structure Marked (α : Type) where
  metric : α
  headline : Bool := false
deriving Repr

/-- Hits out of trials. -/
structure Ratio where
  hits : Nat := 0
  trials : Nat := 0
deriving DecidableEq, Repr

/-- Metrics by name, in the order in which they came into being. -/
abbrev Named (α : Type) := List (Bytes × Marked α)

namespace Named

/-- The metric of a name; the initial one if there is none. -/
def get {α : Type} (initial : α) (name : Bytes) (ms : Named α) : Marked α :=
  (ms.lookup name).getD { metric := initial }

/-- The metrics with one of them changed, after it has come into being. -/
def update {α : Type} (initial : α) (name : Bytes) (f : Marked α → Marked α) : Named α → Named α
  | [] => [(name, f { metric := initial })]
  | (n, m) :: rest =>
    if n = name then (n, f m) :: rest else (n, m) :: update initial name f rest

/-- The metrics sorted by name. -/
def sorted {α : Type} (ms : Named α) : Named α :=
  ms.mergeSort fun a b => !Bytes.lt b.1 a.1

end Named

/-- A named group of metrics. -/
structure Section where
  name : Bytes
  counters : Named Int := []
  ratios : Named Ratio := []
  breakdowns : Named Breakdown := []
  numbers : Named Reservoir := []
  durations : Named Reservoir := []
  sizes : Named Reservoir := []
deriving Repr

/-- The kinds of metric. -/
inductive MetricKind
  | counter
  | ratio
  | breakdown
  | number
  | duration
  | size
deriving DecidableEq, Repr

namespace Section

/-- Adds to a counter, in a 64-bit word. -/
def add (s : Section) (name : Bytes) (n : Int) : Section :=
  { s with
    counters := s.counters.update 0 name fun m => { m with metric := wrap64 (m.metric + n) } }

/-- The value of a counter. -/
def counter (s : Section) (name : Bytes) : Int := (s.counters.get 0 name).metric

/-- Counts a trial of a ratio, as a hit or not. -/
def try_ (s : Section) (name : Bytes) (isHit : Bool) : Section :=
  { s with ratios := s.ratios.update {} name fun m =>
      { m with metric :=
        ⟨if isHit then m.metric.hits + 1 else m.metric.hits, m.metric.trials + 1⟩ } }

/-- The state of a ratio. -/
def ratio (s : Section) (name : Bytes) : Ratio := (s.ratios.get {} name).metric

/-- Counts a hit of a category of a breakdown. -/
def hit (s : Section) (name category : Bytes) : Section :=
  { s with breakdowns := s.breakdowns.update {} name fun m =>
      { m with metric := m.metric.hit category } }

/-- The state of a breakdown. -/
def breakdown (s : Section) (name : Bytes) : Breakdown := (s.breakdowns.get {} name).metric

/-- The reservoirs of a kind of sampled metric; there are none of other kinds. -/
def samples (s : Section) : MetricKind → Named Reservoir
  | .number => s.numbers
  | .duration => s.durations
  | .size => s.sizes
  | _ => []

/-- The section with the reservoirs of a kind of sampled metric changed. -/
def mapSamples (s : Section) (f : Named Reservoir → Named Reservoir) : MetricKind → Section
  | .number => { s with numbers := f s.numbers }
  | .duration => { s with durations := f s.durations }
  | .size => { s with sizes := f s.sizes }
  | _ => s

/-- Records a value of a sampled metric. -/
def record (s : Section) (kind : MetricKind) (name : Bytes) (draw : Nat) (v : Int) : Section :=
  s.mapSamples (fun ms => ms.update {} name fun m => { m with metric := m.metric.record draw v })
    kind

/-- The state of a sampled metric. -/
def sample (s : Section) (kind : MetricKind) (name : Bytes) : Reservoir :=
  ((s.samples kind).get {} name).metric

/-- The section with a metric changed as a whole by what `f` does to metrics of any type. -/
def touch (s : Section) (kind : MetricKind) (name : Bytes)
    (f : {α : Type} → Marked α → Marked α) : Section :=
  match kind with
  | .counter => { s with counters := s.counters.update 0 name f }
  | .ratio => { s with ratios := s.ratios.update {} name f }
  | .breakdown => { s with breakdowns := s.breakdowns.update {} name f }
  | kind => s.mapSamples (fun ms => ms.update {} name f) kind

/-- Makes a metric a headline or not. -/
def setHeadline (s : Section) (kind : MetricKind) (name : Bytes) (on : Bool) : Section :=
  s.touch kind name fun m => { m with headline := on }

/-- Lets a metric come into being. -/
def mention (s : Section) (kind : MetricKind) (name : Bytes) : Section :=
  s.touch kind name id

/-! ## The section as JSON -/

open JsonValue in
/-- A group of metrics, sorted by name, each with its headline mark last. -/
def groupJson {α : Type} (fields : α → List (Bytes × JsonValue)) (ms : Named α) : JsonValue :=
  obj (ms.sorted.map fun (name, m) =>
    (name, obj (fields m.metric ++ [field "Headline" (bool m.headline)])))

open JsonValue in
/-- A list, or nothing at all for the empty list. -/
def listJson {α : Type} (f : α → JsonValue) (xs : List α) : JsonValue :=
  if xs.isEmpty then null else arr (xs.map f)

open JsonValue in
/-- The fields of a sampled metric. -/
def reservoirFields (r : Reservoir) : List (Bytes × JsonValue) :=
  [field "Count" (nat r.count), field "Values" (arr (r.values.map int))]

open JsonValue in
/-- The section as a JSON object. -/
def toJson (s : Section) : JsonValue :=
  obj [field "Name" (str s.name),
    field "Counters" (groupJson (fun n => [field "Value" (int n)]) s.counters),
    field "Ratios" (groupJson
      (fun r => [field "Numerator" (nat r.hits), field "Denominator" (nat r.trials)]) s.ratios),
    field "Breakdowns" (groupJson
      (fun b => [field "Categories" (listJson str b.categories),
        field "Numerators" (listJson nat b.counts), field "Denominator" (nat b.total)])
      s.breakdowns),
    field "SampleInt64s" (groupJson reservoirFields s.numbers),
    field "SampleDurations" (groupJson reservoirFields s.durations),
    field "SampleBytes" (groupJson reservoirFields s.sizes)]

end Section

/-- The sections that the program itself keeps. -/
def ownSections : List String :=
  ["Response Codes", "inlinescript", "prettyfast", "prettyfastserver"]

/-- The names of all sections in the report, sorted, given those that others have added. -/
def sectionNames (added : List Bytes) : List Bytes :=
  ((ownSections.map utf8 ++ added).mergeSort fun a b => !Bytes.lt b a).eraseDups

end ScriptTidy.Status
