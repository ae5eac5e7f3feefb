import Gauge.Script.Library.DateText
import Gauge.Script.Library.Arguments

/-!
Dates and what little else scripts learn of the system. Local time is universal time; no variable of
the environment is visible, and files are out of reach.
-/

namespace Gauge.Script.Os

open Native

/-- The results of an action on a file that has failed. -/
def missing (name : Option ByteArray) : Array Value :=
  let before := match name with
    | some n => n.untilNul ++ ": ".toUTF8
    | none => ByteArray.empty
  #[.nil, .string (before ++ "No such file or directory".toUTF8), .int 2]

/-- The largest and the smallest field of a date. -/
def maxField : Int := 2 ^ 31 - 1
def minField : Int := -(2 ^ 31)

/-- A field of a table that describes a date, lessened by `offset`. -/
def field (t : Value) (name : String) (default : Option Int) (offset : Int) : Native Int := do
  let v ← index t (.ofString name)
  match v.toInt64? with
  | some n =>
    let n := n.toInt
    if !(if n ≥ 0 then n - offset ≤ maxField else minField + offset ≤ n) then
      failAtCaller ("field '" ++ name ++ "' is out-of-bound")
    return n - offset
  | none =>
    if !v.isNil then failAtCaller ("field '" ++ name ++ "' is not an integer")
    match default with
    | some d => return d
    | none => failAtCaller ("field '" ++ name ++ "' missing in date table")

/-- The fields of a moment as a table has them. -/
def fields (m : Moment) : List (String × Value) :=
  [("year", .int (Int64.ofInt m.date.year)), ("month", .ofNat m.date.month),
   ("day", .ofNat m.date.day), ("hour", .ofNat m.hour), ("min", .ofNat m.minute),
   ("sec", .ofNat m.second), ("yday", .ofNat (m.date.dayOfYear + 1)),
   ("wday", .ofNat (m.date.weekday + 1)), ("isdst", .bool false)]

def setFields (t : Value) : List (String × Value) → Native Unit
  | [] => pure ()
  | (name, v) :: rest => do
    setIndex t (.ofString name) v
    setFields t rest

/-- Whether the year of a moment is one that dates can have. -/
def isRepresentable (m : Moment) : Bool :=
  m.date.year - 1900 ≤ maxField && minField ≤ m.date.year - 1900

def time (args : Args) : Native (Array Value) := do
  if args.isAbsent 1 then int 0
  else
    let t := Value.table (← args.table 1)
    let year ← field t "year" none 1900
    let month ← field t "month" none 1
    let day ← field t "day" none 0
    let hour ← field t "hour" (some 12) 0
    let minute ← field t "min" (some 0) 0
    let second ← field t "sec" (some 0) 0
    let first : Date := ⟨year + 1900 + month / 12, (month % 12).toNat + 1, 1⟩
    let seconds := (first.toDays + day - 1) * Moment.day + hour * 3600 + minute * 60 + second
    let m := Moment.ofSeconds seconds
    if isRepresentable m then setFields t (fields m)
    if !isRepresentable m || seconds == -1 then
      failAtCaller "time result cannot be represented in this installation"
    int (Int64.ofInt seconds)

/-- The text of a format, whose bytes stand for the characters of the same number. -/
def formatFrom (m : Moment) (zone : String) : Nat → List Char → ByteArray → Native ByteArray
  | 0, _, acc => return acc
  | fuel + 1, format, acc =>
    match format with
    | [] => return acc
    | '%' :: rest =>
      match DateText.read? m zone rest with
      | some (s, rest) => formatFrom m zone fuel rest (acc ++ s.toUTF8)
      | none =>
        let rest := ByteArray.ofList ((rest.takeWhile (· != '\x00')).map fun c => c.toNat.toUInt8)
        fail (.argument 1 ("invalid conversion specifier '%".toUTF8 ++ rest ++ "'".toUTF8))
    | c :: rest => formatFrom m zone fuel rest (acc.push c.toNat.toUInt8)

def date (args : Args) : Native (Array Value) := do
  let format ← args.optText 1 "%c".toUTF8
  let t ← args.optInteger 2 0
  let isUniversal := format.byte 0 == 33
  let format := if isUniversal then format.extract 1 format.size else format
  let m := Moment.ofSeconds t.toInt
  if !isRepresentable m then
    failAtCaller "date result cannot be represented in this installation"
  if format.untilNul == "*t".toUTF8 then
    let t ← newTable (Table.ofSizes 0 9)
    setFields t (fields m)
    one t
  else
    let chars := format.toList.map fun b => Char.ofNat b.toNat
    text (← formatFrom m (if isUniversal then "GMT" else "UTC") (format.size + 1) chars ByteArray.empty)

def setlocale (args : Args) : Native (Array Value) := do
  let name ← args.optText 1 "C".toUTF8
  let _ ← args.option 2 (some "all") ["all", "collate", "ctype", "monetary", "numeric", "time"]
  let known := ["", "C", "POSIX"].any fun s => s.toUTF8 == name.untilNul
  one (if known then .ofString "C" else .nil)

def run (f : OsFunction) (args : Args) : Native (Array Value) :=
  match f with
  | .clock => one (.float (Float.ofDyadic false 1 (-10)))
  | .date => date args
  | .difftime => do
    let a ← args.integer 1
    let b ← args.integer 2
    one (.float (Numeral.ofInt64 a - Numeral.ofInt64 b))
  | .execute => do
    if args.isAbsent 1 then bool true
    else
      let _ ← args.text 1
      return #[.nil, .ofString "exit", .int 127]
  | .exit => do
    let code : Int64 ← match args.value 1 with
      | .bool good => pure (if good then 0 else 1)
      | _ => args.optInteger 1 0
    Native.exit (code.toInt % 256).toNat
  | .getenv => do
    let _ ← args.text 1
    one .nil
  | .remove => do return missing (some (← args.text 1))
  | .rename => do
    let _ ← args.text 1
    let _ ← args.text 2
    return missing none
  | .setlocale => setlocale args
  | .time => time args
  | .tmpname => one (.ofString "/tmp/lua_000000")

end Gauge.Script.Os
