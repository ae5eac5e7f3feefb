import Gauge.Numeral.Binary64

/-!
Decimal values `digits · 10 ^ exponent`: how one is read from digits, and the double nearest to it.
-/

namespace Gauge

structure Decimal where
  digits : Nat
  exponent : Int
deriving Repr, DecidableEq

namespace Decimal

/-- The double nearest to `± digits · 10 ^ exponent`, ties to even. Exponents whose result is an
infinity or a zero whatever the digits say are settled before any power is formed. -/
def toFloat (negative : Bool) (d : Decimal) : Float :=
  let size := Nat.log2 d.digits
  if d.digits == 0 then Float.ofDyadic negative 0 0
  else if d.exponent > 400 then Float.ofDyadic negative 1 5000
  else if d.exponent < -400 - (size : Int) then Float.ofDyadic negative 0 0
  else if 0 ≤ d.exponent then Float.ofDyadic negative (d.digits * 10 ^ d.exponent.toNat) 0
  else
    let unit := 10 ^ (-d.exponent).toNat
    let shift := Nat.log2 unit + 70
    let scaled := d.digits <<< shift
    -- the last bit stands for whatever the division leaves over
    let sticky := if scaled % unit == 0 then 0 else 1
    Float.ofDyadic negative (2 * (scaled / unit) + sticky) (-(shift : Int) - 1)

/-- Drops trailing zeros of the digits into the exponent, at most `fuel` of them. -/
def normalize : Nat → Decimal → Decimal
  | 0, d => d
  | fuel + 1, d =>
    if d.digits != 0 && d.digits % 10 == 0 then
      normalize fuel ⟨d.digits / 10, d.exponent + 1⟩
    else d

/-- The greatest `k` with `10 ^ k ≤ m · 2 ^ e`, for a positive `m`. -/
def floorLog10 (m : Nat) (e : Int) : Int :=
  let reached (k : Int) : Bool :=
    m * 2 ^ e.toNat * 10 ^ (-k).toNat ≥ 10 ^ k.toNat * 2 ^ (-e).toNat
  -- `30103 / 100000` is a little above `log10 2`, so the estimate is off by one at most each way
  let estimate := Int.fdiv ((Nat.log2 m + e) * 30103) 100000
  if reached (estimate + 1) then estimate + 1
  else if reached estimate then estimate
  else estimate - 1

/-- The decimal on the grid `10 ^ place` nearest to `m · 2 ^ e`, an exact half going to the even
digit. -/
def onGrid (m : Nat) (e place : Int) : Nat :=
  let num := m * 2 ^ e.toNat * 10 ^ (-place).toNat
  let den := 2 ^ (-e).toNat * 10 ^ place.toNat
  let q := num / den
  let r := num % den
  if 2 * r > den || (2 * r == den && q % 2 == 1) then q + 1 else q

/-- The decimal of `count` significant digits nearest to `m · 2 ^ e`. -/
def significant (count : Nat) (m : Nat) (e : Int) : Decimal :=
  let place := floorLog10 m e - count + 1
  let digits := onGrid m e place
  if digits == 10 ^ count then ⟨10 ^ (count - 1), place + 1⟩ else ⟨digits, place⟩

end Decimal

end Gauge
