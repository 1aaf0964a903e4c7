/-!
# Samples of recorded values

A reservoir counts the values that were recorded and keeps at most `capacity` of them as a
sample. While there is room every value is kept; after that each value takes the place that a
draw among all values so far gives it, if the reservoir has that place. The draw is an argument
of `record`, so that what is said here holds whatever is drawn.
-/

namespace ScriptTidy.Status

/-- The values that were recorded, as a count and a sample. -/
structure Reservoir where
  count : Nat := 0
  samples : Array Int := #[]
deriving DecidableEq, Repr

namespace Reservoir

/-- How many values a reservoir keeps. -/
def capacity : Nat := 1024

/-- Records a value. `draw` is a number below the new count, used once the reservoir is full. -/
def record (r : Reservoir) (draw : Nat) (v : Int) : Reservoir :=
  { count := r.count + 1
    samples :=
      if r.samples.size < capacity then r.samples.push v
      else if draw < capacity then r.samples.setIfInBounds draw v
      else r.samples }

/-- The percentiles that are reported. -/
def percentiles : List Nat := [25, 50, 75, 95, 99]

/-- The place of a percentile among `k` sorted samples. -/
def place (k percentile : Nat) : Nat := min (k * percentile / 100) (k - 1)

/-- The samples from the least to the greatest. -/
def sorted (r : Reservoir) : List Int := r.samples.toList.mergeSort

/-- The samples at the reported percentiles; zeros if there are none. -/
def values (r : Reservoir) : List Int :=
  let samples := r.sorted
  percentiles.map fun p => samples.getD (place samples.length p) 0

end Reservoir

end ScriptTidy.Status
