import Gauge.Instances

/-!
Double-precision numbers as exact dyadic values. `Float.decode` splits a number into sign, significand
and binary exponent; `Float.ofDyadic` rounds a dyadic value to the nearest number, ties to even.
-/

namespace Gauge

/-- What the sixty-four bits of a number stand for: a finite one is `± m · 2 ^ e`. -/
inductive Binary64 where
  | nan
  | infinite (negative : Bool)
  | finite (negative : Bool) (m : Nat) (e : Int)
deriving Repr, DecidableEq

namespace Binary64

def ofBits (bits : UInt64) : Binary64 :=
  let negative := bits >>> 63 == 1
  let expo := ((bits >>> 52) &&& 0x7ff).toNat
  let frac := (bits &&& 0xfffffffffffff).toNat
  if expo == 0x7ff then
    if frac == 0 then .infinite negative else .nan
  else if expo == 0 then .finite negative frac (-1074)
  else .finite negative (frac + 2 ^ 52) ((expo : Int) - 1075)

/-- The bits of the number nearest to `m · 2 ^ e`, an exact half going to the even significand;
a value beyond the largest finite number becomes an infinity. -/
def roundBits (negative : Bool) (m : Nat) (e : Int) : UInt64 :=
  let sign : UInt64 := if negative then 0x8000000000000000 else 0
  if m == 0 then sign
  else
    -- the unit in the last place is `2 ^ q`, never below `2 ^ -1074`
    let q : Int := max (Int.ofNat (Nat.log2 m) + e - 52) (-1074)
    let units : Nat :=
      if q ≤ e then m * 2 ^ (e - q).toNat
      else
        let shift := (q - e).toNat
        let low := m % 2 ^ shift
        let high := m / 2 ^ shift
        let half := 2 ^ (shift - 1)
        if low > half || (low == half && high % 2 == 1) then high + 1 else high
    -- a carry into the exponent field is what rounding up past the last significand means
    let raw : Nat := ((q + 1074).toNat) * 2 ^ 52 + units
    if raw ≥ 0x7ff * 2 ^ 52 then sign ||| 0x7ff0000000000000
    else sign ||| UInt64.ofNat raw

end Binary64

end Gauge

namespace Float

def decode (x : Float) : Gauge.Binary64 := Gauge.Binary64.ofBits x.toBits

/-- The number nearest to `± m · 2 ^ e`. A value far below the least positive number is settled before
any power is formed, and so is one far beyond the greatest. -/
def ofDyadic (negative : Bool) (m : Nat) (e : Int) : Float :=
  if Nat.log2 m + e < -1100 then Float.ofBits (Gauge.Binary64.roundBits negative 0 0)
  else Float.ofBits (Gauge.Binary64.roundBits negative m (min e 5000))

/-- The integer a number stands for, if it is one. -/
def toInt? (x : Float) : Option Int :=
  match x.decode with
  | .finite negative m e =>
    let magnitude : Option Nat :=
      if 0 ≤ e then some (m * 2 ^ e.toNat)
      else
        let d := 2 ^ (-e).toNat
        if m % d == 0 then some (m / d) else none
    magnitude.map fun n => if negative then -(n : Int) else n
  | _ => none

/-- The greatest integer that is not above a finite number. -/
def floorInt? (x : Float) : Option Int :=
  match x.decode with
  | .finite negative m e =>
    let v : Int := if negative then -(m : Int) else m
    some (if 0 ≤ e then v * 2 ^ e.toNat else Int.fdiv v (2 ^ (-e).toNat))
  | _ => none

def isNegative (x : Float) : Bool := x.toBits >>> 63 == 1

end Float
