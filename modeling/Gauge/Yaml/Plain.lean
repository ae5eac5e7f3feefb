import Gauge.Numeral.Literal
import Gauge.Numeral.Layout

/-!
What plain text means: nothing, a truth value, a number, or itself.
-/

namespace Gauge.Yaml

inductive Meaning where
  | null
  | boolean (b : Bool)
  | integer (n : Int)
  | real (x : Float)
  | text

namespace Plain

def isNull (s : String) : Bool := ["null", "Null", "NULL", "~"].contains s

def boolean? (s : String) : Option Bool :=
  if ["true", "True", "TRUE"].contains s then some true
  else if ["false", "False", "FALSE"].contains s then some false
  else none

def digitValue? (c : Char) : Option Nat :=
  if c.isDigit then some (c.toNat - '0'.toNat)
  else if 'a' ≤ c && c ≤ 'z' then some (c.toNat - 'a'.toNat + 10)
  else if 'A' ≤ c && c ≤ 'Z' then some (c.toNat - 'A'.toNat + 10)
  else none

/-- The number that digits to a base stand for; there is at least one. -/
def natural? (base : Nat) (digits : List Char) : Option Nat :=
  if digits.isEmpty then none
  else digits.foldlM (fun n c => do
    let d ← digitValue? c
    if d < base then some (n * base + d) else none) 0

/-- Digits that begin with a needless zero are no number. -/
def hasNeedlessZero : List Char → Bool
  | '0' :: c :: rest => (c :: rest).all Char.isDigit
  | _ => false

/-- A whole number without a sign. -/
def magnitude? (s : List Char) : Option Nat :=
  match s with
  | '0' :: 'x' :: digits => natural? 16 digits
  | '0' :: 'o' :: digits => natural? 8 digits
  | '0' :: 'b' :: digits => natural? 2 digits
  | digits => if hasNeedlessZero digits then none else natural? 10 digits

/-- A whole number, of 128 bits at the most. -/
def integer? (s : String) : Option Int :=
  let bounded (low high n : Int) : Option Int := if low ≤ n && n ≤ high then some n else none
  match s.toList with
  | '-' :: rest => (magnitude? rest).bind fun n => bounded (-2 ^ 127) 0 (-n)
  | '+' :: rest => (magnitude? rest).bind fun n => bounded 0 (2 ^ 128 - 1) n
  | rest => (magnitude? rest).bind fun n => bounded 0 (2 ^ 128 - 1) n

def infinity : Float := Float.ofBits 0x7ff0000000000000
def nan : Float := Float.ofBits 0x7ff8000000000000

/-- A double; one that is not finite only by the word for it. -/
def real? (s : String) : Option Float :=
  let positive := match s.toList with
    | '+' :: rest => rest
    | rest => rest
  if s.startsWith "+" && (positive.head? == some '+' || positive.head? == some '-') then none
  else if [".inf", ".Inf", ".INF"].contains (String.ofList positive) then some infinity
  else if ["-.inf", "-.Inf", "-.INF"].contains s then some (-infinity)
  else if [".nan", ".NaN", ".NAN"].contains s then some nan
  else
    match Literal.read (String.ofList positive) with
    | .ok x => if x.isFinite then some x else none
    | .error _ => none

def unsigned (s : String) : List Char :=
  match s.toList with
  | '+' :: rest | '-' :: rest => rest
  | rest => rest

/-- What plain text without a tag means. -/
def meaning (s : String) : Meaning :=
  if s.isEmpty || isNull s then .null
  else
    match boolean? s with
    | some b => .boolean b
    | none =>
      match integer? s with
      | some n => .integer n
      | none =>
        if hasNeedlessZero (unsigned s) then .text
        else
          match real? s with
          | some x => .real x
          | none => .text

end Plain

end Gauge.Yaml
