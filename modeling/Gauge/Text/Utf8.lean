/-!
Bytes read as UTF-8. What is no UTF-8 becomes the replacement character, once for each longest
beginning of a character that breaks off.
-/

namespace Gauge.Text.Utf8

/-- What stands for bytes that are no character. -/
def replacement : Char := '\ufffd'

def isTail (b : UInt8) : Bool := 0x80 ≤ b && b < 0xc0

/-- The first bytes of characters of more than one byte: how many bytes follow, and the range of the
next one, which rules out surrogates, needless length and numbers beyond U+10FFFF. -/
def lead? (b : UInt8) : Option (Nat × UInt8 × UInt8) :=
  if 0xc2 ≤ b && b < 0xe0 then some (1, 0x80, 0xbf)
  else if b == 0xe0 then some (2, 0xa0, 0xbf)
  else if b == 0xed then some (2, 0x80, 0x9f)
  else if 0xe1 ≤ b && b < 0xf0 then some (2, 0x80, 0xbf)
  else if b == 0xf0 then some (3, 0x90, 0xbf)
  else if 0xf1 ≤ b && b < 0xf4 then some (3, 0x80, 0xbf)
  else if b == 0xf4 then some (3, 0x80, 0x8f)
  else none

/-- What of the first byte counts towards the character. -/
def leadValue (b : UInt8) : Nat :=
  if b < 0xe0 then b.toNat % 32 else if b < 0xf0 then b.toNat % 16 else b.toNat % 8

/-- Takes in up to `n` bytes that follow, the first of them in the given range: the value, how many
were taken, and whether none is missing. -/
def tail (low high : UInt8) (value taken : Nat) : Nat → List UInt8 → Nat × Nat × Bool
  | 0, _ => (value, taken, true)
  | _ + 1, [] => (value, taken, false)
  | n + 1, b :: rest =>
    if low ≤ b && b ≤ high then tail 0x80 0xbf (value * 64 + b.toNat % 64) (taken + 1) n rest
    else (value, taken, false)

/-- The next character and how many bytes are taken up after the first. -/
def next (b : UInt8) (rest : List UInt8) : Char × Nat :=
  if b < 0x80 then (Char.ofNat b.toNat, 0)
  else
    match lead? b with
    | none => (replacement, 0)
    | some (count, low, high) =>
      let (value, taken, whole) := tail low high (leadValue b) 0 count rest
      (if whole then Char.ofNat value else replacement, taken)

def chars : List UInt8 → List Char
  | [] => []
  | b :: rest =>
    let (c, taken) := next b rest
    c :: chars (rest.drop taken)
termination_by bytes => bytes.length
decreasing_by simp only [List.length_drop, List.length_cons]; omega

/-- The text of bytes, whatever they are. -/
def lossy (bytes : ByteArray) : String :=
  match String.fromUTF8? bytes with
  | some s => s
  | none => String.ofList (chars bytes.toList)

end Gauge.Text.Utf8
