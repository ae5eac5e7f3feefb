import Gauge.Json.Reader

/-!
Measured values, and lists of them in the order in which they came in. Of several values of one name
the last one counts.
-/

namespace Gauge

/-- A value that has been measured on an element, at a time in seconds since 1970. -/
structure Metric where
  element : String
  name : String
  value : Float
  timestamp : Int64

/-- A name for which no value has been measured. -/
structure MissingMetric where
  name : String
deriving DecidableEq, Repr

def MissingMetric.message (e : MissingMetric) : String := "Metric not found: " ++ e.name

namespace Metric

def toJson (m : Metric) : String :=
  Json.object [("element", Json.string m.element), ("name", Json.string m.name),
    ("value", Json.number m.value), ("timestamp", Json.int m.timestamp.toInt)]

/-- A metric of which some fields have been read. -/
structure Partial where
  element : Option String
  name : Option String
  value : Option Float
  timestamp : Option Int64

/-- The time may be missing. -/
def shape : Json.Reader.Shape Partial where
  name := "Metric"
  blank := ⟨none, none, none, none⟩
  fields := [
    { name := "element", isKnown := (·.element.isSome), default := none
      read := fun p => do return { p with element := some (← Json.Reader.string "a string") } },
    { name := "name", isKnown := (·.name.isSome), default := none
      read := fun p => do return { p with name := some (← Json.Reader.string "a string") } },
    { name := "value", isKnown := (·.value.isSome), default := none
      read := fun p => do return { p with value := some (← Json.Reader.float) } },
    { name := "timestamp", isKnown := (·.timestamp.isSome)
      default := some fun p => { p with timestamp := some 0 }
      read := fun p => do return { p with timestamp := some (← Json.Reader.int64) } }]

def reader : Json.Reader Metric := do
  let p ← shape.read
  return ⟨p.element.getD "", p.name.getD "", p.value.getD 0, p.timestamp.getD 0⟩

def ofJson (s : String) : Except Json.Error Metric := Json.Reader.whole reader s

end Metric

structure MetricList where
  samples : List Metric

namespace MetricList

def empty : MetricList := ⟨[]⟩

def push (l : MetricList) (m : Metric) : MetricList := ⟨l.samples ++ [m]⟩

def size (l : MetricList) : Nat := l.samples.length

def isEmpty (l : MetricList) : Bool := l.samples.isEmpty

def values (l : MetricList) : List Float := l.samples.map (·.value)

/-- The last value of a name. -/
def latest? (l : MetricList) (name : String) : Option Metric :=
  l.samples.reverse.find? (·.name == name)

/-- The last values of some names; the first name without one is an error. -/
def valuesFor (l : MetricList) : List String → Except MissingMetric (List Float)
  | [] => .ok []
  | name :: rest =>
    match l.latest? name with
    | none => .error ⟨name⟩
    | some m => (valuesFor l rest).map (m.value :: ·)

def toJson (l : MetricList) : String := Json.array (l.samples.map Metric.toJson)

def ofJson (s : String) : Except Json.Error MetricList :=
  (Json.Reader.whole (Json.Reader.list Metric.reader) s).map MetricList.mk

end MetricList

end Gauge
