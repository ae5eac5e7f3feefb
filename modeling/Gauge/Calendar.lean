/-!
Dates of the Gregorian calendar, carried back before its introduction, and the moments that counts of
seconds since 1970 stand for. Years count through 0 to negative ones.
-/

namespace Gauge

structure Date where
  year : Int
  /-- From 1 to 12. -/
  month : Nat
  /-- From 1 on. -/
  day : Nat
deriving DecidableEq, Repr

namespace Date

def isLeap (year : Int) : Bool := year % 4 == 0 && (year % 100 != 0 || year % 400 == 0)

/-- Days from 1 March of year 0, where the count of eras begins, to 1 January 1970. -/
def epoch : Int := 719468

/-- The days of four centuries. -/
def era : Int := 146097

/-- The year within an era, years beginning in March, that a day of the era falls into. -/
def yearOfEra (day : Nat) : Nat :=
  (day - day / 1460 + day / 36524 - day / 146096) / 365

/-- The days of an era before so many of its years. -/
def daysBefore (year : Nat) : Nat := 365 * year + year / 4 - year / 100

/-- The date so many days after 1 January 1970. -/
def ofDays (days : Int) : Date :=
  let z := days + epoch
  let day := (z % era).toNat
  let year := yearOfEra day
  let dayOfYear := day - daysBefore year
  let month := (5 * dayOfYear + 2) / 153
  let dayOfMonth := dayOfYear - (153 * month + 2) / 5 + 1
  { year := z / era * 400 + year + (if month < 10 then 0 else 1)
    month := if month < 10 then month + 3 else month - 9
    day := dayOfMonth }

/-- The days from 1 January 1970 to a date. A day past the end of its month counts into the next. -/
def toDays (d : Date) : Int :=
  let year := if d.month ≤ 2 then d.year - 1 else d.year
  let month := if d.month ≤ 2 then d.month + 9 else d.month - 3
  let dayOfYear := (153 * month + 2) / 5
  let yearOfEra := (year % 400).toNat
  year / 400 * era + daysBefore yearOfEra + dayOfYear + d.day - 1 - epoch

/-- The weekday, from 0 for Sunday to 6. -/
def weekday (d : Date) : Nat := ((d.toDays + 4) % 7).toNat

/-- The days of the year before this one. -/
def dayOfYear (d : Date) : Nat := (d.toDays - toDays ⟨d.year, 1, 1⟩).toNat

end Date

structure Moment where
  date : Date
  hour : Nat
  minute : Nat
  second : Nat
deriving DecidableEq, Repr

namespace Moment

/-- The seconds of a day. -/
def day : Int := 86400

def ofSeconds (seconds : Int) : Moment :=
  let rest := (seconds % day).toNat
  { date := Date.ofDays (seconds / day)
    hour := rest / 3600
    minute := rest / 60 % 60
    second := rest % 60 }

def toSeconds (m : Moment) : Int :=
  m.date.toDays * day + m.hour * 3600 + m.minute * 60 + m.second

end Moment

end Gauge
