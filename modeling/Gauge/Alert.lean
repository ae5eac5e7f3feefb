import Gauge.Calendar
import Gauge.Json.Reader
import Gauge.Text.Quoted

/-!
Alerts about elements: what state they are in, since when, and what is to be done.
-/

namespace Gauge

inductive AlertStatus where
  | unknown
  | active
  | ackWip
  | ackPause
  | ackIgnore
  | ackSilence
  | resolved
deriving DecidableEq, Repr

/-- A text that names no status. -/
structure UnknownStatus where
  text : String
deriving DecidableEq, Repr

def UnknownStatus.message (e : UnknownStatus) : String := "Unknown alert status: " ++ e.text

namespace AlertStatus

def all : List AlertStatus :=
  [.unknown, .active, .ackWip, .ackPause, .ackIgnore, .ackSilence, .resolved]

theorem mem_all (s : AlertStatus) : s ∈ all := by cases s <;> decide

/-- The name by which a status is written and read. -/
def name : AlertStatus → String
  | .unknown => "UNKNOWN"
  | .active => "ACTIVE"
  | .ackWip => "ACK-WIP"
  | .ackPause => "ACK-PAUSE"
  | .ackIgnore => "ACK-IGNORE"
  | .ackSilence => "ACK-SILENCE"
  | .resolved => "RESOLVED"

def names : List String := all.map name

def ofName? (s : String) : Option AlertStatus := all.find? (·.name == s)

def parse (s : String) : Except UnknownStatus AlertStatus :=
  match ofName? s with
  | some status => .ok status
  | none => .error ⟨s⟩

def isKnown (s : String) : Bool := (ofName? s).isSome

/-- Whether somebody has taken notice of the alert. -/
def isAcknowledged : AlertStatus → Bool
  | .ackWip | .ackPause | .ackIgnore | .ackSilence => true
  | _ => false

def toJson (s : AlertStatus) : String := Json.string s.name

def reader : Json.Reader AlertStatus := do
  return (ofName? (← Json.Reader.variant names)).getD .unknown

def ofJson (s : String) : Except Json.Error AlertStatus := Json.Reader.whole reader s

end AlertStatus

/-- The time is in seconds since 1970. -/
structure Alert where
  status : AlertStatus
  timestamp : Int64
  description : String
  element : String
  severity : String
  actions : List String
deriving DecidableEq, Repr

namespace Alert

def default : Alert := ⟨.unknown, 0, "", "", "", []⟩

/-- The times that dates are known for. -/
def earliest : Int := -8334601228800
def latest : Int := 8210266876799

/-- The date and time of an alert, if there is one for its timestamp. -/
def occurredAt (a : Alert) : Option Moment :=
  let t := a.timestamp.toInt
  if earliest ≤ t && t ≤ latest then some (Moment.ofSeconds t) else none

/-- At least `width` digits. -/
def digits (width n : Nat) : String :=
  let s := toString n
  String.ofList (List.replicate (width - s.length) '0') ++ s

/-- A year of four digits; one outside 0 to 9999 has a sign. -/
def yearText (y : Int) : String :=
  if y < 0 then "-" ++ digits 4 y.natAbs
  else if y > 9999 then "+" ++ digits 4 y.natAbs
  else digits 4 y.natAbs

/-- A moment of universal time, as `2023-11-14T22:13:20+00:00`. -/
def momentText (m : Moment) : String :=
  yearText m.date.year ++ "-" ++ digits 2 m.date.month ++ "-" ++ digits 2 m.date.day ++ "T" ++
    digits 2 m.hour ++ ":" ++ digits 2 m.minute ++ ":" ++ digits 2 m.second ++ "+00:00"

/-- The time as a text; a bare number where there is no date for it. -/
def timeText (a : Alert) : String :=
  match a.occurredAt with
  | some m => momentText m
  | none => toString a.timestamp.toInt

/-- The alert on a line. -/
def summary (a : Alert) : String :=
  "[" ++ a.status.name ++ "] " ++ a.timeText ++ " element=" ++ a.element ++ " severity=" ++
    (if a.severity == "" then "-" else a.severity) ++ " description=" ++
    Text.Quoted.encode a.description ++
    (if a.actions.isEmpty then "" else " actions=[" ++ ", ".intercalate a.actions ++ "]")

def toJson (a : Alert) : String :=
  Json.object [("status", a.status.toJson), ("timestamp", Json.int a.timestamp.toInt),
    ("description", Json.string a.description), ("element", Json.string a.element),
    ("severity", Json.string a.severity), ("actions", Json.array (a.actions.map Json.string))]

/-- An alert of which some fields have been read. -/
structure Partial where
  status : Option AlertStatus
  timestamp : Option Int64
  description : Option String
  element : Option String
  severity : Option String
  actions : Option (List String)

/-- The severity and the actions may be missing. -/
def shape : Json.Reader.Shape Partial where
  name := "PureAlert"
  blank := ⟨none, none, none, none, none, none⟩
  fields := [
    { name := "status", isKnown := (·.status.isSome), default := none
      read := fun p => do return { p with status := some (← AlertStatus.reader) } },
    { name := "timestamp", isKnown := (·.timestamp.isSome), default := none
      read := fun p => do return { p with timestamp := some (← Json.Reader.int64) } },
    { name := "description", isKnown := (·.description.isSome), default := none
      read := fun p => do return { p with description := some (← Json.Reader.string "a string") } },
    { name := "element", isKnown := (·.element.isSome), default := none
      read := fun p => do return { p with element := some (← Json.Reader.string "a string") } },
    { name := "severity", isKnown := (·.severity.isSome)
      default := some fun p => { p with severity := some "" }
      read := fun p => do return { p with severity := some (← Json.Reader.string "a string") } },
    { name := "actions", isKnown := (·.actions.isSome)
      default := some fun p => { p with actions := some [] }
      read := fun p => do
        return { p with actions := some (← Json.Reader.list (Json.Reader.string "a string")) } }]

def reader : Json.Reader Alert := do
  let p ← shape.read
  return ⟨p.status.getD .unknown, p.timestamp.getD 0, p.description.getD "", p.element.getD "",
    p.severity.getD "", p.actions.getD []⟩

def ofJson (s : String) : Except Json.Error Alert := Json.Reader.whole reader s

end Alert

end Gauge
