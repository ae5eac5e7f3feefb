import Gauge.Numeral.Layout

/-!
Writing JSON without white space.
-/

namespace Gauge.Json

/-- A digit in base sixteen, in small letters. -/
def hexDigit (n : Nat) : Char := if n < 10 then Char.ofNat (48 + n) else Char.ofNat (87 + n)

/-- Quotes, backslashes and control characters are escaped, by a letter where they have one. -/
def escape (c : Char) : List Char :=
  if c == '"' then ['\\', '"']
  else if c == '\\' then ['\\', '\\']
  else if c == '\n' then ['\\', 'n']
  else if c == '\r' then ['\\', 'r']
  else if c == '\t' then ['\\', 't']
  else if c.toNat == 8 then ['\\', 'b']
  else if c.toNat == 12 then ['\\', 'f']
  else if c.toNat < 32 then
    ['\\', 'u', '0', '0', hexDigit (c.toNat / 16), hexDigit (c.toNat % 16)]
  else [c]

def string (s : String) : String := "\"" ++ String.ofList (s.toList.flatMap escape) ++ "\""

/-- The shortest digits that read back; below 10 ^ -5 and from 10 ^ 16 on with an exponent that has a
sign. What is no finite number has no form. -/
def numberStyle : NumeralStyle :=
  ⟨some (-5), some 16, true, true, .even, "null", "null", "null"⟩

def number (x : Float) : String := numberStyle.write x

def int (n : Int) : String := toString n

def array (items : List String) : String := "[" ++ ",".intercalate items ++ "]"

def object (fields : List (String × String)) : String :=
  "\x7b" ++ ",".intercalate (fields.map fun f => string f.1 ++ ":" ++ f.2) ++ "\x7d"

end Gauge.Json
