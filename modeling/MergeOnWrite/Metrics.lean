/-
Metrics: what the program counts and measures, and one measurement.
-/

namespace MergeOnWrite

/-- What a metric records. -/
inductive MetricKind where
  | counter
  | gauge
  | histogram
deriving DecidableEq, Repr

def MetricKind.word : MetricKind → String
  | .counter => "counter"
  | .gauge => "gauge"
  | .histogram => "histogram"

/-- A metric with its description. -/
structure Metric where
  kind : MetricKind
  name : String
  description : String
deriving DecidableEq, Repr

/-- What one measurement says. -/
inductive Reading where
  | increment (n : Nat)
  | level (n : Nat)
  | value (x : Float)
  /-- A histogram got an amount of real time. -/
  | duration

/-- One measurement of a metric. -/
structure Sample where
  metric : Metric
  /-- The labels and their values. -/
  labels : List (String × String)
  reading : Reading

end MergeOnWrite
