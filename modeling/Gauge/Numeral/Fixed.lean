import Gauge.Numeral.Decimal

/-!
Numbers written to a set precision: so many places, so many significant digits, or the bits in
hexadecimal. What is rounded is the exact value of the double, an exact half going to the even digit.
-/

namespace Gauge

namespace Fixed

def zeros (n : Nat) : String := String.ofList (List.replicate n '0')

/-- At least `width` digits, zeros filled in on the left. -/
def padded (width : Nat) (n : Nat) : String :=
  let s := toString n
  zeros (width - s.length) ++ s

/-- The digits of `n` with a point before the last `places` of them. -/
def withPlaces (places n : Nat) (point : Bool) : String :=
  let s := padded (places + 1) n
  let cut := s.length - places
  if places == 0 then (if point then s ++ "." else s)
  else String.ofList (s.toList.take cut) ++ "." ++ String.ofList (s.toList.drop cut)

/-- Positional notation with `places` digits after the point. -/
def places (count : Nat) (point : Bool) (m : Nat) (e : Int) : String :=
  withPlaces count (Decimal.onGrid m e (-(count : Int))) point

/-- An exponent has a sign and at least two digits. -/
def exponentText (e : Int) : String :=
  (if e < 0 then "-" else "+") ++ padded 2 e.natAbs

def withExponent (mantissa : String) (e : Int) : String :=
  mantissa ++ "e" ++ exponentText e

/-- One digit before the point and `count` after it, times a power of ten. -/
def scientific (count : Nat) (point : Bool) (m : Nat) (e : Int) : String :=
  if m == 0 then withExponent (withPlaces count 0 point) 0
  else
    let d := Decimal.significant (count + 1) m e
    withExponent (withPlaces count d.digits point) (d.exponent + count)

/-- Drops the zeros at the end of a fraction, and the point if nothing is left after it. -/
def trimFraction (s : String) : String :=
  if s.toList.contains '.' then
    let kept := s.toList.reverse.dropWhile (· == '0')
    String.ofList (match kept with
      | '.' :: rest => rest
      | _ => kept).reverse
  else s

/-- `count` significant digits, positionally where the exponent allows it. Zeros at the end of the
fraction are dropped unless `point` asks to keep them. -/
def general (count : Nat) (point : Bool) (m : Nat) (e : Int) : String :=
  let count := if count == 0 then 1 else count
  let d : Decimal := if m == 0 then ⟨0, 1 - (count : Int)⟩ else Decimal.significant count m e
  let exponent := d.exponent + count - 1
  let trim (s : String) := if point then s else trimFraction s
  if exponent < -4 || exponent ≥ count then
    withExponent (trim (withPlaces (count - 1) d.digits point)) exponent
  else
    let shown := (count : Int) - 1 - exponent
    trim (withPlaces shown.toNat d.digits point)

def hexDigit (n : Nat) : Char :=
  Char.ofNat (if n < 10 then 48 + n else 87 + n)

/-- `count` hexadecimal digits of `n`. -/
def hexDigits : Nat → Nat → List Char
  | 0, _ => []
  | count + 1, n => hexDigits count (n / 16) ++ [hexDigit (n % 16)]

/-- The significand in hexadecimal with a binary exponent; `count` digits after the point, or as
many as it takes. -/
def hexadecimal (count : Option Nat) (point : Bool) (m : Nat) (e : Int) : String :=
  -- the digit before the point is the leading bit of a normal number, 0 for a subnormal one
  let exponent : Int := if m == 0 then 0 else e + 52
  let (lead, digits) : Nat × List Char :=
    match count with
    | none =>
      let all := hexDigits 13 (m % 2 ^ 52)
      (m / 2 ^ 52, (all.reverse.dropWhile (· == '0')).reverse)
    | some n =>
      if n ≥ 13 then (m / 2 ^ 52, hexDigits 13 (m % 2 ^ 52) ++ List.replicate (n - 13) '0')
      else
        let unit := 2 ^ (52 - 4 * n)
        let q := m / unit
        let r := m % unit
        let rounded := if 2 * r > unit || (2 * r == unit && q % 2 == 1) then q + 1 else q
        (rounded / 2 ^ (4 * n), hexDigits n (rounded % 2 ^ (4 * n)))
  "0x" ++ toString lead ++ (if digits.isEmpty && !point then "" else ".") ++ String.ofList digits ++
    "p" ++ (if exponent < 0 then "-" else "+") ++ toString exponent.natAbs

end Fixed

end Gauge
