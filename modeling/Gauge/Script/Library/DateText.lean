import Gauge.Calendar
import Gauge.Numeral.Fixed

/-!
Moments as texts, by conversions such as `%Y`: English names, and the layouts of no particular place.
-/

namespace Gauge.Script.DateText

def months : List String :=
  ["January", "February", "March", "April", "May", "June", "July", "August", "September", "October",
   "November", "December"]

def weekdays : List String :=
  ["Sunday", "Monday", "Tuesday", "Wednesday", "Thursday", "Friday", "Saturday"]

def brief (name : String) : String := String.ofList (name.toList.take 3)

/-- At least `width` digits, with the given filling on the left. -/
def field (width : Nat) (filling : Char) (n : Int) : String :=
  let s := toString n.natAbs
  let sign := if n < 0 then "-" else ""
  let space := width - s.length - sign.length
  if filling == ' ' then String.ofList (List.replicate space ' ') ++ sign ++ s
  else sign ++ String.ofList (List.replicate space filling) ++ s

def two (n : Int) : String := field 2 '0' n

/-- The year and the number of the week by the rule that weeks begin on Monday and belong to the year
that has their Thursday. -/
def week (d : Date) : Int × Nat :=
  let sinceMonday := (d.weekday + 6) % 7
  let thursday := Date.ofDays (d.toDays - sinceMonday + 3)
  (thursday.year, thursday.dayOfYear / 7 + 1)

/-- The hour on a dial of twelve. -/
def dial (hour : Nat) : Nat := if hour % 12 == 0 then 12 else hour % 12

/-- The text of a conversion, given by its letter; `zone` names the time zone. -/
def conversion? (m : Moment) (zone : String) (letter : Char) : Option String :=
  let d := m.date
  let time := two m.hour ++ ":" ++ two m.minute ++ ":" ++ two m.second
  let month := months.getD (d.month - 1) ""
  let weekday := weekdays.getD d.weekday ""
  match letter with
  | 'a' => some (brief weekday)
  | 'A' => some weekday
  | 'b' | 'h' => some (brief month)
  | 'B' => some month
  | 'c' =>
    some (brief weekday ++ " " ++ brief month ++ " " ++ field 2 ' ' d.day ++ " " ++ time ++ " " ++
      toString d.year)
  | 'C' => some (two (d.year / 100))
  | 'd' => some (two d.day)
  | 'D' | 'x' => some (two d.month ++ "/" ++ two d.day ++ "/" ++ two (d.year % 100))
  | 'e' => some (field 2 ' ' d.day)
  | 'F' => some (toString d.year ++ "-" ++ two d.month ++ "-" ++ two d.day)
  | 'g' => some (two ((week d).1 % 100))
  | 'G' => some (toString (week d).1)
  | 'H' => some (two m.hour)
  | 'I' => some (two (dial m.hour))
  | 'j' => some (field 3 '0' (d.dayOfYear + 1))
  | 'm' => some (two d.month)
  | 'M' => some (two m.minute)
  | 'n' => some "\n"
  | 'p' => some (if m.hour < 12 then "AM" else "PM")
  | 'r' =>
    some (two (dial m.hour) ++ ":" ++ two m.minute ++ ":" ++ two m.second ++
      (if m.hour < 12 then " AM" else " PM"))
  | 'R' => some (two m.hour ++ ":" ++ two m.minute)
  | 'S' => some (two m.second)
  | 't' => some "\t"
  | 'T' | 'X' => some time
  | 'u' => some (toString (if d.weekday == 0 then 7 else d.weekday))
  | 'U' => some (two ((d.dayOfYear + 7 - d.weekday) / 7))
  | 'V' => some (two (week d).2)
  | 'w' => some (toString d.weekday)
  | 'W' => some (two ((d.dayOfYear + 7 - (d.weekday + 6) % 7) / 7))
  | 'y' => some (two (d.year % 100))
  | 'Y' => some (toString d.year)
  | 'z' => some "+0000"
  | 'Z' => some zone
  | '%' => some "%"
  | _ => none

/-- The letters that may follow the marks of another way of writing, which here is the same one. -/
def alternatives : Char → List Char
  | 'E' => ['c', 'C', 'x', 'X', 'y', 'Y']
  | 'O' => ['d', 'e', 'H', 'I', 'm', 'M', 'S', 'u', 'U', 'V', 'w', 'W', 'y']
  | _ => []

/-- The text of the conversion that a format goes on with, and the rest of the format. -/
def read? (m : Moment) (zone : String) : List Char → Option (String × List Char)
  | [] => none
  | letter :: rest =>
    match conversion? m zone letter, rest with
    | some s, _ => some (s, rest)
    | none, second :: rest =>
      if (alternatives letter).contains second then (conversion? m zone second).map (·, rest) else none
    | none, [] => none

end Gauge.Script.DateText
