import Gauge.Numeral.Decimal

/-!
The shortest decimal that reads back as a given double. The reals that round to `m · 2 ^ e` form an
interval, closed exactly when `m` is even; the first power-of-ten grid with a point in it is taken,
and on that grid the point nearest to the value.
-/

namespace Gauge

/-- What becomes of a value half-way between two points of the grid. -/
inductive Tie where
  | even
  | up
deriving Repr, DecidableEq

namespace Decimal

/-- The interval of reals that round to `m · 2 ^ e`, in units of `2 ^ (e - 2)`: below a power of two
the neighbours lie twice as close. -/
def roundingInterval (m : Nat) (e : Int) : Nat × Nat :=
  (if m == 2 ^ 52 && e > -1074 then 4 * m - 1 else 4 * m - 2, 4 * m + 2)

/-- The nearer of the two neighbours of `m · 2 ^ e` on the grid `10 ^ place`, of those that lie in
its rounding interval. -/
def onGrid? (tie : Tie) (m : Nat) (e place : Int) : Option Nat :=
  let (low, high) := roundingInterval m e
  let unit := 2 ^ (e - 2).toNat * 10 ^ (-place).toNat
  let den := 2 ^ (2 - e).toNat * 10 ^ place.toNat
  let inside (c : Nat) : Bool :=
    let x := c * den
    if m % 2 == 0 then low * unit ≤ x && x ≤ high * unit else low * unit < x && x < high * unit
  let num := 4 * m * unit
  let below := num / den
  let rest := num % den
  match inside below, inside (below + 1) with
  | false, false => none
  | true, false => some below
  | false, true => some (below + 1)
  | true, true =>
    if 2 * rest < den then some below
    else if 2 * rest > den then some (below + 1)
    else match tie with
      | .up => some (below + 1)
      | .even => some (if below % 2 == 0 then below else below + 1)

/-- Tries the grids from `place` downwards. -/
def searchGrids (tie : Tie) (m : Nat) (e : Int) : Nat → Int → Decimal
  | 0, place => ⟨onGrid m e place, place⟩
  | fuel + 1, place =>
    match onGrid? tie m e place with
    | some digits => normalize 20 ⟨digits, place⟩
    | none => searchGrids tie m e fuel (place - 1)

/-- The shortest decimal that reads back as `m · 2 ^ e`; seventeen digits always do. -/
def shortest (tie : Tie) (m : Nat) (e : Int) : Decimal :=
  if m == 0 then ⟨0, 0⟩ else searchGrids tie m e 17 (floorLog10 m e)

end Decimal

end Gauge
