import Gauge.Alert
import Gauge.Proofs.Calendar
import Gauge.Proofs.Json.RoundTrip
import Gauge.Proofs.Numeral.Spelling

/-!
The line that an alert is shown as. Its first two words are the status and the time, whatever the texts behind
them hold. A time that a date is known for is read back, by a reader of its own, as the moment whose place in
the calendar is the timestamp; any other is the timestamp itself, which no moment is written like.
-/

namespace Gauge

open Literal

namespace Moment

/-! Reading a moment. -/

/-- A year of four digits or more, with a sign if and only if it is outside 0 to 9999. -/
def year? (s : List Char) : Option (Int × List Char) :=
  let (isNegative, rest) := sign s
  let digits := rest.takeWhile Char.isDigit
  let year : Int := if isNegative then -(ofDigits 0 digits : Int) else ofDigits 0 digits
  if 4 ≤ digits.length ∧ (rest ≠ s ↔ year < 0 ∨ 9999 < year) then some (year, rest.dropWhile Char.isDigit)
  else none

def twoDigits? : List Char → Option (Nat × List Char)
  | a :: b :: rest => if a.isDigit && b.isDigit then some (ofDigits 0 [a, b], rest) else none
  | _ => none

def past? (c : Char) : List Char → Option (List Char)
  | d :: rest => if d = c then some rest else none
  | [] => none

/-- A moment of universal time: date, `T`, time of day, and no distance to universal time. -/
def ofText? (s : String) : Option Moment := do
  let (year, s) ← year? s.toList
  let s ← past? '-' s
  let (month, s) ← twoDigits? s
  let s ← past? '-' s
  let (day, s) ← twoDigits? s
  let s ← past? 'T' s
  let (hour, s) ← twoDigits? s
  let s ← past? ':' s
  let (minute, s) ← twoDigits? s
  let s ← past? ':' s
  let (second, s) ← twoDigits? s
  if s = ['+', '0', '0', ':', '0', '0'] then some ⟨⟨year, month, day⟩, hour, minute, second⟩ else none

@[simp] theorem past?_cons (c : Char) (rest : List Char) : past? c (c :: rest) = some rest := by
  simp [past?]

end Moment

theorem AlertStatus.name_injective : Function.Injective AlertStatus.name := by
  intro s t h
  apply Option.some.inj
  rw [← ofName?_name s, h, ofName?_name]

namespace Alert

open Moment

/-! Writing a moment. -/

theorem toList_digits (width n : Nat) :
    (digits width n).toList = List.replicate (width - (Nat.toDigits 10 n).length) '0' ++ Nat.toDigits 10 n := by
  rw [digits, String.toList_append, String.toList_ofList, NumeralStyle.length_toString, Nat.toString_eq_repr,
    Nat.toList_repr]

theorem isDigit_of_mem_digits {width n : Nat} {c : Char} (h : c ∈ (digits width n).toList) : c.isDigit = true := by
  rw [toList_digits, List.mem_append] at h
  rcases h with h | h
  · rw [List.eq_of_mem_replicate h]
    rfl
  · exact isDigit_of_mem_repr h

theorem ofDigits_digits (width n : Nat) : ofDigits 0 (digits width n).toList = n := by
  rw [toList_digits, ofDigits_eq, Nat.ofDigitChars_append, Nat.ofDigitChars_replicate_zero, Nat.mul_zero,
    Nat.ofDigitChars_ten_toDigits]

theorem length_digits (width n : Nat) :
    (digits width n).toList.length = max width (Nat.toDigits 10 n).length := by
  rw [toList_digits, List.length_append, List.length_replicate]
  omega

theorem twoDigits?_digits {n : Nat} (h : n < 100) (rest : List Char) :
    twoDigits? ((digits 2 n).toList ++ rest) = some (n, rest) := by
  have hlength : (digits 2 n).toList.length = 2 := by
    have := (Nat.length_toDigits_le_iff (b := 10) (k := 2) (by decide) (by decide)).mpr h
    rw [length_digits]
    omega
  have hdigit := @isDigit_of_mem_digits 2 n
  have hvalue := ofDigits_digits 2 n
  obtain ⟨a, b, hab⟩ := List.length_eq_two.mp hlength
  rw [hab] at hdigit hvalue ⊢
  simp only [List.cons_append, List.nil_append, twoDigits?, hdigit (c := a) (by simp),
    hdigit (c := b) (by simp), hvalue, Bool.and_self, if_true]

/-- The sign of a year, which one of four digits has none of. -/
def yearSign (y : Int) : Option Sign :=
  if y < 0 then some .minus else if y > 9999 then some .plus else none

theorem toList_yearText (y : Int) : (yearText y).toList = signText (yearSign y) ++ (digits 4 y.natAbs).toList := by
  simp only [yearText, yearSign]
  split
  · simp [signText, Sign.text]
  · split <;> simp [signText, Sign.text]

theorem year?_yearText (y : Int) {rest : List Char} (h : Stops rest) :
    year? ((yearText y).toList ++ rest) = some (y, rest) := by
  have hlength : 4 ≤ (digits 4 y.natAbs).toList.length := length_digits 4 y.natAbs ▸ Nat.le_max_left _ _
  have hvalue := ofDigits_digits 4 y.natAbs
  have hdigit := @isDigit_of_mem_digits 4 y.natAbs
  rw [toList_yearText]
  generalize (digits 4 y.natAbs).toList = digits at hlength hvalue hdigit
  have hne : digits ≠ [] := List.ne_nil_of_length_pos (by omega)
  obtain ⟨htake, hdrop⟩ := takeWhile_digits (fun c hc => hdigit hc) h
  have hsign := sign_signText (yearSign y) (@unsigned_digits digits rest hne fun c hc => hdigit hc)
  rw [List.append_assoc]
  simp only [year?, hsign, htake, hdrop, hvalue]
  have hsign' : ((yearSign y == some .minus) = true ↔ y < 0) ∧ (yearSign y ≠ none ↔ y < 0 ∨ 9999 < y) := by
    simp only [yearSign]
    split
    · simp [*]
    · split <;> simp_all
  have hyear : (if (yearSign y == some .minus) = true then -(y.natAbs : Int) else y.natAbs) = y := by
    simp only [hsign'.1]
    split <;> omega
  have hsigned : digits ++ rest ≠ signText (yearSign y) ++ (digits ++ rest) ↔ y < 0 ∨ 9999 < y := by
    rw [← hsign'.2, ne_eq, List.self_eq_append_left, signText, List.map_eq_nil_iff, Option.toList_eq_nil_iff]
  rw [hyear, if_pos ⟨hlength, hsigned⟩]

theorem toList_momentText (m : Moment) :
    (momentText m).toList = (yearText m.date.year).toList ++ '-' :: ((digits 2 m.date.month).toList ++
      '-' :: ((digits 2 m.date.day).toList ++ 'T' :: ((digits 2 m.hour).toList ++
      ':' :: ((digits 2 m.minute).toList ++ ':' :: ((digits 2 m.second).toList ++ ['+', '0', '0', ':', '0', '0']))))) := by
  simp [momentText]

theorem rest_of_year? {s rest : List Char} {y : Int} (h : year? s = some (y, rest)) :
    rest = (sign s).2.dropWhile Char.isDigit := by
  simp only [year?, Option.ite_none_right_eq_some, Option.some.injEq, Prod.mk.injEq] at h
  exact h.2.2.symm

theorem ofText?_momentText {m : Moment} (h : m.IsValid) : Moment.ofText? (momentText m) = some m := by
  obtain ⟨hdate, hhour, hminute, hsecond⟩ := h
  have hmonth := hdate.month_le
  have hday := hdate.day_le.trans (Date.monthLength_le _ _)
  simp only [Moment.ofText?, toList_momentText, Option.bind_eq_bind, Option.bind_some, past?_cons,
    @year?_yearText m.date.year ('-' :: _) (by simp [Stops]),
    twoDigits?_digits (show m.date.month < 100 by omega), twoDigits?_digits (show m.date.day < 100 by omega),
    twoDigits?_digits (show m.hour < 100 by omega), twoDigits?_digits (show m.minute < 100 by omega),
    twoDigits?_digits (show m.second < 100 by omega), if_true]

example : Moment.ofText? "-0044-03-15T12:00:00+00:00" = some ⟨⟨-44, 3, 15⟩, 12, 0, 0⟩ := by cbv

/-! A bare number. -/

theorem toList_toString_int (t : Int) :
    (toString t).toList = signText (if t < 0 then some .minus else none) ++ Nat.toDigits 10 t.natAbs := by
  rw [Int.toString_eq_repr, Int.repr_eq_if]
  split
  · rw [if_neg (by omega), Nat.toList_repr, show t.toNat = t.natAbs by omega]
    rfl
  · rw [if_pos (by omega), String.toList_append, Nat.toList_repr, show (-t).toNat = t.natAbs by omega]
    rfl

theorem ofText?_toString (t : Int) : Moment.ofText? (toString t) = none := by
  have hdigit : ∀ c ∈ Nat.toDigits 10 t.natAbs, c.isDigit = true := fun c hc => isDigit_of_mem_repr hc
  have hsign := sign_signText (if t < 0 then some .minus else none)
    (@unsigned_digits _ [] (Nat.toDigits_ne_nil (b := 10) (n := t.natAbs)) hdigit)
  have hdrop : (Nat.toDigits 10 t.natAbs).dropWhile Char.isDigit = [] := List.dropWhile_eq_nil_iff.mpr hdigit
  rw [List.append_nil, ← toList_toString_int] at hsign
  simp only [Moment.ofText?]
  cases hyear : year? (toString t).toList with
  | none => rfl
  | some p =>
      -- behind the digits of a number there is nothing left for a month
      obtain ⟨year, rest⟩ := p
      obtain rfl : rest = [] := by rw [rest_of_year? hyear, hsign, hdrop]
      rfl

/-! The words of the line. -/

def shownStatus (line : String) : String := String.ofList ((line.toList.drop 1).takeWhile (· ≠ ']'))

def shownTime (line : String) : String :=
  String.ofList (((line.toList.dropWhile (· ≠ ' ')).drop 1).takeWhile (· ≠ ' '))

theorem takeWhile_word {c : Char} {word rest : List Char} (h : c ∉ word) :
    (word ++ c :: rest).takeWhile (· ≠ c) = word ∧ (word ++ c :: rest).dropWhile (· ≠ c) = c :: rest := by
  have hword : ∀ d ∈ word, decide (d ≠ c) = true := fun d hd => decide_eq_true (ne_of_mem_of_not_mem hd h)
  rw [List.takeWhile_append_of_pos hword, List.dropWhile_append_of_pos hword]
  simp

/-- What times are written with. -/
def IsTimeCharacter (c : Char) : Prop := c.isDigit = true ∨ c ∈ ['+', '-', ':', 'T']

instance (c : Char) : Decidable (IsTimeCharacter c) :=
  inferInstanceAs (Decidable (c.isDigit = true ∨ c ∈ ['+', '-', ':', 'T']))

theorem isTimeCharacter_of_mem_timeText (a : Alert) : ∀ c ∈ a.timeText.toList, IsTimeCharacter c := by
  have hdigits (width n : Nat) : ∀ c ∈ (digits width n).toList, IsTimeCharacter c :=
    fun c hc => .inl (isDigit_of_mem_digits hc)
  have hsign (s : Option Sign) : ∀ c ∈ signText s, IsTimeCharacter c := by
    intro c hc
    obtain ⟨sign, -, rfl⟩ := List.mem_map.mp hc
    cases sign <;> decide
  rw [timeText]
  split
  · rw [toList_momentText, toList_yearText]
    simp only [List.forall_mem_append, List.forall_mem_cons, List.not_mem_nil, false_imp_iff, implies_true, and_true]
    refine ⟨⟨hsign _, hdigits _ _⟩, ?_, hdigits _ _, ?_, hdigits _ _, ?_, hdigits _ _, ?_, hdigits _ _, ?_,
      hdigits _ _, ?_⟩
    all_goals decide
  · rw [toList_toString_int, List.forall_mem_append]
    exact ⟨hsign _, fun c hc => .inl (isDigit_of_mem_repr hc)⟩

theorem blank_notMem_timeText (a : Alert) : ' ' ∉ a.timeText.toList := by
  intro h
  exact absurd (isTimeCharacter_of_mem_timeText a ' ' h) (by decide)

theorem toList_summary (a : Alert) : ∃ rest,
    a.summary.toList = '[' :: (a.status.name.toList ++ ']' :: ' ' :: (a.timeText.toList ++ ' ' :: rest)) := by
  refine ⟨("element=" ++ a.element ++ " severity=" ++ (if a.severity == "" then "-" else a.severity) ++
    " description=" ++ Text.Quoted.encode a.description ++
    (if a.actions.isEmpty then "" else " actions=[" ++ ", ".intercalate a.actions ++ "]")).toList, ?_⟩
  simp only [summary, String.toList_append, List.append_assoc]
  rfl

theorem shownStatus_summary (a : Alert) : shownStatus a.summary = a.status.name := by
  obtain ⟨rest, hsummary⟩ := toList_summary a
  have hname : ']' ∉ a.status.name.toList := by cases a.status <;> decide
  rw [shownStatus, hsummary, List.drop_one, List.tail_cons, (takeWhile_word hname).1, String.ofList_toList]

theorem shownTime_summary (a : Alert) : shownTime a.summary = a.timeText := by
  obtain ⟨rest, hsummary⟩ := toList_summary a
  have hname : ' ' ∉ ('[' :: a.status.name.toList ++ [']']) := by cases a.status <;> decide
  have hline : a.summary.toList =
      ('[' :: a.status.name.toList ++ [']']) ++ ' ' :: (a.timeText.toList ++ ' ' :: rest) := by
    rw [hsummary]
    simp
  rw [shownTime, hline, (takeWhile_word hname).2, List.drop_one, List.tail_cons,
    (takeWhile_word (blank_notMem_timeText a)).1, String.ofList_toList]

/-! The line tells the alert. -/

theorem occurredAt_eq_some_iff (a : Alert) (m : Moment) :
    a.occurredAt = some m ↔
      (earliest ≤ a.timestamp.toInt ∧ a.timestamp.toInt ≤ latest) ∧ Moment.ofSeconds a.timestamp.toInt = m := by
  simp [occurredAt]

/-- The time that a line shows: the place of a moment in the calendar, or a number. -/
def timestamp? (line : String) : Option Int :=
  ((Moment.ofText? (shownTime line)).map Moment.count).or (shownTime line).toInt?

theorem timestamp?_summary (a : Alert) : timestamp? a.summary = some a.timestamp.toInt := by
  rw [timestamp?, shownTime_summary, timeText]
  cases hm : a.occurredAt with
  | some m =>
      obtain ⟨-, rfl⟩ := (occurredAt_eq_some_iff a m).mp hm
      obtain ⟨hvalid, hcount⟩ := Moment.ofSeconds_spec a.timestamp.toInt
      simp only [ofText?_momentText hvalid, Option.map_some, Option.some_or, hcount]
  | none =>
      rw [ofText?_toString, Option.map_none, Option.none_or, Int.toString_eq_repr, Int.toInt?_repr]

/-- The dates that are known are those of the years -262143 to 262142. -/
theorem known_iff_year (t : Int) :
    earliest ≤ t ∧ t ≤ latest ↔
      -262143 ≤ (Moment.ofSeconds t).date.year ∧ (Moment.ofSeconds t).date.year ≤ 262142 := by
  obtain ⟨hvalid, hcount⟩ := Date.ofDays_spec (t / 86400)
  have hfirst := Date.le_year_iff hvalid (-262143)
  have hpast := Date.le_year_iff hvalid 262143
  have hepoch : Date.yearStart 1970 = 719528 := by decide
  have hstart : Date.yearStart (-262143) = -95745764 := by decide
  have hend : Date.yearStart 262143 = 95745765 := by decide
  rw [hcount, hepoch] at hfirst hpast
  simp only [Moment.ofSeconds, Moment.day, earliest, latest]
  omega

/-- The status and the time that a line shows are those of the alert: a moment in the place that its timestamp
has in the calendar, and a number outside the times that dates are known for. -/
theorem summary_identifies (a : Alert) :
    (∀ m, a.occurredAt = some m →
      Moment.ofText? (shownTime a.summary) = some m ∧ m.IsValid ∧ m.count = a.timestamp.toInt) ∧
    (a.occurredAt = none → shownTime a.summary = toString a.timestamp.toInt) ∧
    ((a.occurredAt.isSome ↔ earliest ≤ a.timestamp.toInt ∧ a.timestamp.toInt ≤ latest) ∧
      earliest ≤ 0 ∧ 0 ≤ latest ∧
      (a.occurredAt.isSome ↔ -262143 ≤ (Moment.ofSeconds a.timestamp.toInt).date.year ∧
        (Moment.ofSeconds a.timestamp.toInt).date.year ≤ 262142)) ∧
    ∀ b : Alert, a.summary = b.summary → a.status = b.status ∧ a.timestamp = b.timestamp := by
  have hknown : a.occurredAt.isSome ↔ earliest ≤ a.timestamp.toInt ∧ a.timestamp.toInt ≤ latest := by
    simp only [Option.isSome_iff_exists, occurredAt_eq_some_iff, exists_and_left, exists_eq', and_true]
  refine ⟨?_, ?_, ⟨hknown, by decide, by decide, hknown.trans (known_iff_year _)⟩, ?_⟩
  · intro m hm
    obtain ⟨-, rfl⟩ := (occurredAt_eq_some_iff a m).mp hm
    obtain ⟨hvalid, hcount⟩ := Moment.ofSeconds_spec a.timestamp.toInt
    refine ⟨?_, hvalid, hcount⟩
    simp only [shownTime_summary, timeText, hm, ofText?_momentText hvalid]
  · intro hnone
    simp only [shownTime_summary, timeText, hnone]
  · intro b h
    constructor
    · apply AlertStatus.name_injective
      rw [← shownStatus_summary a, h, shownStatus_summary]
    · rw [← Int64.toInt_inj]
      apply Option.some.inj
      rw [← timestamp?_summary a, h, timestamp?_summary]

end Alert
end Gauge
