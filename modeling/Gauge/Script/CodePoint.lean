import Gauge.Script.Bytes

/-!
Code points as bytes, in the encoding of up to six bytes that reaches to `2 ^ 31`. Text in UTF-8 uses
the part of it up to U+10FFFF without the surrogates.
-/

namespace Gauge.Script.CodePoint

/-- The largest code point there is an encoding for. -/
def max : Nat := 0x7fffffff

def encode (n : Nat) : List UInt8 :=
  if n < 0x80 then [n.toUInt8]
  else
    let tail (k : Nat) : UInt8 := (0x80 + n / 64 ^ k % 64).toUInt8
    if n < 0x800 then [(0xc0 + n / 64).toUInt8, tail 0]
    else if n < 0x10000 then [(0xe0 + n / 64 ^ 2).toUInt8, tail 1, tail 0]
    else if n < 0x200000 then [(0xf0 + n / 64 ^ 3).toUInt8, tail 2, tail 1, tail 0]
    else if n < 0x4000000 then [(0xf8 + n / 64 ^ 4).toUInt8, tail 3, tail 2, tail 1, tail 0]
    else [(0xfc + n / 64 ^ 5).toUInt8, tail 4, tail 3, tail 2, tail 1, tail 0]

/-- Whether a byte is one of those after the first of an encoding. -/
def isTail (b : UInt8) : Bool := b &&& 0xc0 == 0x80

/-- How many bytes follow the first one of an encoding, and the part of the code point in the first. -/
def lead? (b : UInt8) : Option (Nat × Nat) :=
  if b < 0x80 then some (0, b.toNat)
  else if b < 0xc0 then none
  else if b < 0xe0 then some (1, b.toNat % 32)
  else if b < 0xf0 then some (2, b.toNat % 16)
  else if b < 0xf8 then some (3, b.toNat % 8)
  else if b < 0xfc then some (4, b.toNat % 4)
  else if b < 0xfe then some (5, b.toNat % 2)
  else none

/-- Takes in the bytes after the first. -/
def tailFrom (s : ByteArray) (i acc : Nat) : Nat → Option Nat
  | 0 => some acc
  | n + 1 => if isTail (s.byte i) then tailFrom s (i + 1) (acc * 64 + (s.byte i).toNat % 64) n else none

/-- The least code point that needs so many bytes after the first. -/
def least : Nat → Nat
  | 0 => 0
  | 1 => 0x80
  | 2 => 0x800
  | 3 => 0x10000
  | 4 => 0x200000
  | _ => 0x4000000

/-- The code point at a position and the position after it. A longer encoding than needed is none;
under `strict`, so is one of a surrogate or beyond U+10FFFF. -/
def decode? (s : ByteArray) (i : Nat) (strict : Bool) : Option (Nat × Nat) := do
  let (count, first) ← lead? (s.byte i)
  let n ← tailFrom s (i + 1) first count
  guard (least count ≤ n)
  guard (!strict || (n ≤ 0x10ffff && !(0xd800 ≤ n && n ≤ 0xdfff)))
  return (n, i + 1 + count)

end Gauge.Script.CodePoint
