import Gauge.Script.Syntax

/-!
Arithmetic of numerals. Integers wrap around at sixty-four bits, division and remainder go to the
floor, and an operation on a float gives a float.
-/

namespace Gauge.Script.Numeral

/-- Why an operation on two numbers has no result. -/
inductive Undefined where
  | divisionByZero
  | remainderByZero
  | noInteger

def toFloat : Numeral → Float
  | .int n => ofInt64 n
  | .float x => x

def toInt64? : Numeral → Option Int64
  | .int n => some n
  | .float x => float? x

/-- The quotient rounded down; the divisor is not zero. -/
def floorDivInt (a b : Int64) : Int64 :=
  if b == -1 then 0 - a
  else
    let q := a / b
    if (a < 0) != (b < 0) && q * b != a then q - 1 else q

/-- The remainder of the quotient rounded down; it has the sign of the divisor. -/
def floorModInt (a b : Int64) : Int64 :=
  if b == -1 then 0
  else
    let r := a % b
    if r != 0 && (r < 0) != (b < 0) then r + b else r

/-- The remainder of the quotient rounded toward zero, which is always a double. -/
def remainder (a b : Float) : Float :=
  match a.decode, b.decode with
  | .finite negative m e, .finite _ m' e' =>
    if m' == 0 then 0.0 / 0.0
    else
      let low := min e e'
      Float.ofDyadic negative ((m * 2 ^ (e - low).toNat) % (m' * 2 ^ (e' - low).toNat)) low
  | .finite .., .infinite _ => a
  | _, _ => 0.0 / 0.0

/-- The remainder with the sign of the divisor. -/
def floorMod (a b : Float) : Float :=
  let r := remainder a b
  if (r > 0 && b < 0) || (r < 0 && b > 0) then r + b else r

/-- The greatest whole number that is not above a float. -/
def floor (x : Float) : Float :=
  match x.floorInt? with
  | some n => if n == 0 && x.isNegative then -0.0 else Float.ofDyadic (n < 0) n.natAbs 0
  | none => x

def ceil (x : Float) : Float := -floor (-x)

def power (a b : Float) : Float := if b == 2 then a * a else Float.pow a b

/-- Shifts left by `by`, right by a negative amount; bits shifted in are zero. -/
def shiftLeft (a amount : Int64) : Int64 :=
  if amount ≤ -64 || amount ≥ 64 then 0
  else if amount ≥ 0 then (a.toUInt64 <<< amount.toUInt64).toInt64
  else (a.toUInt64 >>> (0 - amount).toUInt64).toInt64

def intArith (op : ArithOp) (a b : Int64) : Except Undefined Numeral :=
  match op with
  | .add => .ok (.int (a + b))
  | .sub => .ok (.int (a - b))
  | .mul => .ok (.int (a * b))
  | .mod => if b == 0 then .error .remainderByZero else .ok (.int (floorModInt a b))
  | .idiv => if b == 0 then .error .divisionByZero else .ok (.int (floorDivInt a b))
  | .pow => .ok (.float (power (ofInt64 a) (ofInt64 b)))
  | .div => .ok (.float (ofInt64 a / ofInt64 b))
  | .band => .ok (.int (a &&& b))
  | .bor => .ok (.int (a ||| b))
  | .bxor => .ok (.int (a ^^^ b))
  | .shl => .ok (.int (shiftLeft a b))
  | .shr => .ok (.int (shiftLeft a (0 - b)))

def floatArith (op : ArithOp) (a b : Float) : Float :=
  match op with
  | .add => a + b
  | .sub => a - b
  | .mul => a * b
  | .mod => floorMod a b
  | .idiv => floor (a / b)
  | .pow => power a b
  | .div => a / b
  | _ => 0

def isBitwise : ArithOp → Bool
  | .band | .bor | .bxor | .shl | .shr => true
  | _ => false

def arith (op : ArithOp) (a b : Numeral) : Except Undefined Numeral :=
  match a, b with
  | .int m, .int n => intArith op m n
  | _, _ =>
    if isBitwise op then
      match a.toInt64?, b.toInt64? with
      | some m, some n => intArith op m n
      | _, _ => .error .noInteger
    else .ok (.float (floatArith op a.toFloat b.toFloat))

def negate : Numeral → Numeral
  | .int n => .int (0 - n)
  | .float x => .float (-x)

def complement? (a : Numeral) : Option Numeral :=
  a.toInt64?.map fun n => .int (~~~n)

/-- The order of an integer and a float, by their exact values; none for a NaN. -/
def compareMixed (n : Int64) (x : Float) : Option Ordering :=
  match x.decode with
  | .nan => none
  | .infinite negative => some (if negative then .gt else .lt)
  | .finite .. =>
    match x.floorInt? with
    | none => none
    | some f =>
      if n.toInt < f then some .lt
      else if n.toInt > f then some .gt
      else if x == Float.ofDyadic (f < 0) f.natAbs 0 then some .eq
      else some .lt

def compareFloats (x y : Float) : Option Ordering :=
  if x < y then some .lt else if x == y then some .eq else if x > y then some .gt else none

/-- The order of two numbers; none if one is a NaN. -/
def order (a b : Numeral) : Option Ordering :=
  match a, b with
  | .int m, .int n => some (if m < n then .lt else if m == n then .eq else .gt)
  | .float x, .float y => compareFloats x y
  | .int m, .float y => compareMixed m y
  | .float x, .int n => (compareMixed n x).map Ordering.swap

def isLess (a b : Numeral) : Bool := order a b == some .lt
def isLessEqual (a b : Numeral) : Bool := order a b == some .lt || order a b == some .eq
def isEqual (a b : Numeral) : Bool := order a b == some .eq

end Gauge.Script.Numeral
