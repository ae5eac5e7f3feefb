import Gauge.Numeral.Decimal
import Gauge.Numeral.Fixed
import Gauge.Script.Bytes

/-!
Numbers as scripts write them: the texts that stand for an integer or a float, and the text a number
is shown as.
-/

namespace Gauge.Script

/-- An integer or a float. -/
inductive Numeral where
  | int (n : Int64)
  | float (x : Float)

namespace Numeral

/-- The double nearest to an integer. -/
def ofInt64 (n : Int64) : Float :=
  if n < 0 then -((0 - n).toUInt64.toFloat) else n.toUInt64.toFloat

/-- The integer a float stands for, if it is one of sixty-four bits. -/
def float? (x : Float) : Option Int64 :=
  match x.toInt? with
  | some n => if -(2 ^ 63) ≤ n && n < 2 ^ 63 then some (Int64.ofInt n) else none
  | none => none

def skipSpaces (s : ByteArray) (i : Nat) : Nat :=
  if h : i < s.size then
    if s[i].isSpace then skipSpaces s (i + 1) else i
  else i
termination_by s.size - i

/-- Reads digits of a base while they last: their value put behind `acc`, and the position after
them. -/
def digitsFrom (s : ByteArray) (base : Nat) (i acc : Nat) : Nat × Nat :=
  if h : i < s.size then
    let d := s[i].digitValue
    if d < base then digitsFrom s base (i + 1) (acc * base + d) else (acc, i)
  else (acc, i)
termination_by s.size - i

/-- Whether nothing but spaces is left from position `i` on. -/
def onlySpaces (s : ByteArray) (i : Nat) : Bool := skipSpaces s i == s.size

/-- The sign at a position and the position after it. -/
def sign (s : ByteArray) (i : Nat) : Bool × Nat :=
  if s.byte i == '-'.toUInt8 then (true, i + 1)
  else if s.byte i == '+'.toUInt8 then (false, i + 1)
  else (false, i)

def isHexMark (s : ByteArray) (i : Nat) : Bool :=
  s.byte i == '0'.toUInt8 && (s.byte (i + 1)).toLower == 'x'.toUInt8

/-- An integer text: hexadecimal digits wrap around, decimal ones must fit. -/
def readInt? (s : ByteArray) : Option Int64 :=
  let (negative, i) := sign s (skipSpaces s 0)
  if isHexMark s i then
    let (n, j) := digitsFrom s 16 (i + 2) 0
    if j == i + 2 || !onlySpaces s j then none
    else
      let v := Int64.ofNat n
      some (if negative then 0 - v else v)
  else
    let (n, j) := digitsFrom s 10 i 0
    if j == i || !onlySpaces s j then none
    else if n < 2 ^ 63 || (negative && n == 2 ^ 63) then
      let v := Int64.ofNat n
      some (if negative then 0 - v else v)
    else none

/-- The digits around a point: their value without it, how many stand after it, and the position
after them; nothing if there is no digit. -/
def mantissa? (s : ByteArray) (base i : Nat) : Option (Nat × Nat × Nat) :=
  let (whole, j) := digitsFrom s base i 0
  if s.byte j == '.'.toUInt8 then
    let (n, k) := digitsFrom s base (j + 1) whole
    if j == i && k == j + 1 then none else some (n, k - (j + 1), k)
  else if j == i then none
  else some (whole, 0, j)

/-- A decimal exponent after its mark, if digits follow; what does not is left unread. -/
def exponentAt (s : ByteArray) (mark : UInt8) (i : Nat) : Int × Nat :=
  if (s.byte i).toLower == mark then
    let (negative, j) := sign s (i + 1)
    let (n, k) := digitsFrom s 10 j 0
    if k == j then (0, i) else (if negative then -(n : Int) else n, k)
  else (0, i)

/-- A float text, decimal or hexadecimal, and the position after it. -/
def readFloat? (s : ByteArray) : Option Float :=
  let (negative, i) := sign s (skipSpaces s 0)
  if isHexMark s i then
    match mantissa? s 16 (i + 2) with
    | none => none
    | some (n, places, j) =>
      let (e, k) := exponentAt s 'p'.toUInt8 j
      if onlySpaces s k then some (Float.ofDyadic negative n (e - 4 * places)) else none
  else
    match mantissa? s 10 i with
    | none => none
    | some (n, places, j) =>
      let (e, k) := exponentAt s 'e'.toUInt8 j
      if onlySpaces s k then some (Decimal.toFloat negative ⟨n, e - places⟩) else none

/-- The number a text stands for. Spaces may stand around it. -/
def read? (s : ByteArray) : Option Numeral :=
  match readInt? s with
  | some n => some (.int n)
  | none => (readFloat? s).map .float

/-- Fourteen significant digits; a whole number is marked as a float by `.0`. -/
def floatText (x : Float) : String :=
  match x.decode with
  | .nan => if x.isNegative then "-nan" else "nan"
  | .infinite negative => if negative then "-inf" else "inf"
  | .finite negative m e =>
    let s := Fixed.general 14 false m e
    let s := if s.toList.all (fun c => c.isDigit) then s ++ ".0" else s
    if negative then "-" ++ s else s

def text : Numeral → String
  | .int n => toString n.toInt
  | .float x => floatText x

end Numeral

end Gauge.Script
