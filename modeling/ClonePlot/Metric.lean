/-! # Clone class metrics

A table of named floating-point measures per clone class. `ratio` places a class within
the range that the finite values of a measure span.
-/
namespace ClonePlot

structure ValueRange where
  low : Float
  high : Float

structure MetricTable where
  names : Array String
  /-- Classes with their values, in order of first mention. -/
  rows : List (Nat × Array Float)

namespace MetricTable

def putRow (classId : Nat) (values : Array Float) :
    List (Nat × Array Float) → List (Nat × Array Float)
  | [] => [(classId, values)]
  | row :: rest =>
    if row.1 = classId then (classId, values) :: rest else row :: putRow classId values rest

def ofRows (names : Array String) (rows : List (Nat × Array Float)) : MetricTable :=
  ⟨names, rows.foldl (fun table row => putRow row.1 row.2 table) []⟩

def size (t : MetricTable) : Nat := t.rows.length

def isEmpty (t : MetricTable) : Bool := t.rows.isEmpty

def values? (t : MetricTable) (classId : Nat) : Option (Array Float) := t.rows.lookup classId

def value? (t : MetricTable) (metric classId : Nat) : Option Float :=
  (t.values? classId).bind (·[metric]?)

def widen (range : Option ValueRange) (v : Float) : Option ValueRange :=
  match range with
  | none => some ⟨v, v⟩
  | some r => some ⟨if v < r.low then v else r.low, if r.high < v then v else r.high⟩

def range? (t : MetricTable) (metric : Nat) : Option ValueRange :=
  if metric < t.names.size then
    ((t.rows.filterMap fun row => row.2[metric]?).filter Float.isFinite).foldl widen none
  else none

def index? (t : MetricTable) (name : String) : Option Nat := t.names.findIdx? (· == name)

def toUnit (v : Float) : Float := if v < 0 then 0 else if 1 < v then 1 else v

/-- Where a class stands between the least (0) and the greatest (1) value of a measure.
A measure with a single value puts every class at 0. -/
def ratio? (t : MetricTable) (metric classId : Nat) : Option Float := do
  let v ← t.value? metric classId
  let range ← t.range? metric
  if !v.isFinite then none
  else if range.high ≤ range.low then some 0
  else some (toUnit ((v - range.low) / (range.high - range.low)))

end MetricTable
end ClonePlot
