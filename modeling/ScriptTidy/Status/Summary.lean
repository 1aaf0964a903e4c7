import ScriptTidy.Status.Section
import ScriptTidy.Text.Measure

/-!
# Summaries of status sections

A summary has a line per metric, headlines first and otherwise sorted by name.
-/

namespace ScriptTidy.Status

/-- A line of a summary. -/
structure SummaryLine where
  headline : Bool
  name : Bytes
  text : Bytes

namespace SummaryLine

/-- Whether one line may stand before another. -/
def precedes (a b : SummaryLine) : Bool :=
  if a.headline = b.headline then !Bytes.lt b.name a.name else a.headline

/-- The lines of a group of metrics. -/
def ofGroup {α : Type} (text : α → Bytes) (ms : Named α) : List SummaryLine :=
  ms.map fun (name, m) => ⟨m.headline, name, text m.metric⟩

end SummaryLine

/-- A percentage with one place. -/
def percentText (num den : Nat) : Bytes := Measure.percent 1 num den ++ utf8 "%"

/-- The percentages of a breakdown, sorted as texts. -/
def breakdownText (b : Breakdown) : Bytes :=
  let parts := b.entries.map fun (name, n) => name ++ utf8 "=" ++ percentText n b.total
  Bytes.joinWith (utf8 " ") (parts.mergeSort fun x y => !Bytes.lt y x)

/-- The count of a sampled metric and its values at the percentiles. -/
def reservoirText (show_ : Int → Bytes) (r : Reservoir) : Bytes :=
  let values := (Reservoir.percentiles.zip r.values).map fun (p, v) =>
    utf8 "p" ++ natDecimal p ++ utf8 "=" ++ show_ v
  Bytes.joinWith (utf8 " ") ((utf8 "n=" ++ Measure.grouped r.count) :: values)

/-- A value as a size: a negative one stands for the word that holds it. -/
def sizeText (v : Int) : Bytes := Measure.byteSize (v % wordSpan).toNat

namespace Section

/-- The lines of a section's summary, in order. -/
def summaryLines (s : Section) : List SummaryLine :=
  (SummaryLine.ofGroup Measure.grouped s.counters
    ++ SummaryLine.ofGroup (fun r => percentText r.hits r.trials) s.ratios
    ++ SummaryLine.ofGroup breakdownText s.breakdowns
    ++ SummaryLine.ofGroup (reservoirText Measure.grouped) s.numbers
    ++ SummaryLine.ofGroup (reservoirText sizeText) s.sizes
    ++ SummaryLine.ofGroup (reservoirText Measure.span) s.durations).mergeSort
      SummaryLine.precedes

/-- The section as text, one metric per line. -/
def summary (s : Section) : Bytes :=
  s.summaryLines.flatMap fun l => s.name ++ utf8 "." ++ l.name ++ utf8 ": " ++ l.text ++ [0x0A]

end Section

end ScriptTidy.Status
