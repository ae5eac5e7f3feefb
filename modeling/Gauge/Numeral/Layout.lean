import Gauge.Numeral.Shortest

/-!
Laying out the shortest decimal of a double as text. `NumeralStyle` holds what one output format
decides; `NumeralStyle.write` does the rest.
-/

namespace Gauge

/-- How a format writes numbers. A number whose decimal point stands `p` places after its first
digit's left edge is written positionally when `lowest < p ≤ highest`; a missing bound never
ends that range. -/
structure NumeralStyle where
  lowest : Option Int
  highest : Option Int
  /-- A whole number ends in `.0`. -/
  pointKept : Bool
  /-- A positive exponent has a plus sign. -/
  exponentPlus : Bool
  tie : Tie
  nan : String
  infinity : String
  negativeInfinity : String

namespace NumeralStyle

/-- Digits with the point after the first `point` of them, zeros filling what is missing. -/
def positional (pointKept : Bool) (digits : String) (point : Int) : String :=
  let count : Int := digits.length
  if point ≤ 0 then "0." ++ String.ofList (List.replicate (-point).toNat '0') ++ digits
  else if count ≤ point then
    digits ++ String.ofList (List.replicate (point - count).toNat '0') ++ (if pointKept then ".0" else "")
  else
    String.ofList (digits.toList.take point.toNat) ++ "." ++ String.ofList (digits.toList.drop point.toNat)

def scientific (exponentPlus : Bool) (digits : String) (point : Int) : String :=
  let leading := digits.toList.take 1
  let rest := digits.toList.drop 1
  let mantissa := String.ofList (if rest.isEmpty then leading else leading ++ '.' :: rest)
  let exponent := point - 1
  let sign := if exponent < 0 then "-" else if exponentPlus then "+" else ""
  mantissa ++ "e" ++ sign ++ toString exponent.natAbs

def write (style : NumeralStyle) (x : Float) : String :=
  match x.decode with
  | .nan => style.nan
  | .infinite negative => if negative then style.negativeInfinity else style.infinity
  | .finite negative m e =>
    let d := Decimal.shortest style.tie m e
    let digits := toString d.digits
    let point : Int := if m == 0 then 1 else digits.length + d.exponent
    let inside := style.lowest.all (· < point) && style.highest.all (point ≤ ·)
    (if negative then "-" else "") ++
      (if inside then positional style.pointKept digits point
       else scientific style.exponentPlus digits point)

/-- Plain decimals: always positional, whole numbers without a point. -/
def plain : NumeralStyle :=
  ⟨none, none, false, false, .up, "NaN", "inf", "-inf"⟩

end NumeralStyle

end Gauge
