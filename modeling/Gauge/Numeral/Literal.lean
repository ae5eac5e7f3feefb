import Gauge.Numeral.Decimal

/-!
Reading numbers from plain text: a sign, digits with a point, and a power of ten, or the words for
infinity and for no number.
-/

namespace Gauge

/-- Why a text is no number. -/
inductive LiteralError where
  | empty
  | malformed
deriving DecidableEq, Repr

def LiteralError.message : LiteralError → String
  | .empty => "cannot parse float from empty string"
  | .malformed => "invalid float literal"

namespace Literal

def digitValue (c : Char) : Nat := c.toNat - '0'.toNat

/-- The number that digits stand for, before which `acc` has been read. -/
def ofDigits (acc : Nat) (digits : List Char) : Nat :=
  digits.foldl (fun acc c => acc * 10 + digitValue c) acc

/-- The sign at the front of a text, and the rest. -/
def sign : List Char → Bool × List Char
  | '-' :: rest => (true, rest)
  | '+' :: rest => (false, rest)
  | s => (false, s)

/-- The exponent that a text consists of; no text at all is the exponent 0. -/
def exponent? : List Char → Option Int
  | [] => some 0
  | mark :: rest =>
    if mark == 'e' || mark == 'E' then
      let (negative, digits) := sign rest
      if digits.isEmpty || !digits.all Char.isDigit then none
      else
        let n : Int := ofDigits 0 digits
        some (if negative then -n else n)
    else none

/-- The decimal of a text without a sign. -/
def decimal? (s : List Char) : Option Decimal :=
  let whole := s.takeWhile Char.isDigit
  let rest := s.dropWhile Char.isDigit
  let (fraction, rest) : List Char × List Char :=
    match rest with
    | '.' :: rest => (rest.takeWhile Char.isDigit, rest.dropWhile Char.isDigit)
    | rest => ([], rest)
  if whole.isEmpty && fraction.isEmpty then none
  else (exponent? rest).map fun e => ⟨ofDigits (ofDigits 0 whole) fraction, e - fraction.length⟩

/-- The words for what is no finite number, in any case of letters. -/
def word? (negative : Bool) (s : List Char) : Option Float :=
  match String.ofList (s.map Char.toLower) with
  | "inf" | "infinity" => some (Float.ofBits (if negative then 0xfff0000000000000 else 0x7ff0000000000000))
  | "nan" => some (Float.ofBits (if negative then 0xfff8000000000000 else 0x7ff8000000000000))
  | _ => none

/-- The double nearest to the number that a text stands for. -/
def read (s : String) : Except LiteralError Float :=
  if s.isEmpty then .error .empty
  else
    let (negative, rest) := sign s.toList
    match decimal? rest with
    | some d => .ok (d.toFloat negative)
    | none =>
      match word? negative rest with
      | some x => .ok x
      | none => .error .malformed

end Literal

end Gauge
