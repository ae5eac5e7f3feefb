import Gauge.Script.Library.Arguments

/-!
Numbers and strings as bytes in a layout that a format text describes.
-/

namespace Gauge.Script.Pack

/-- One item of a layout. -/
inductive Item where
  | signed (size : Nat)
  | unsigned (size : Nat)
  | single
  | double
  /-- A string of a fixed size. -/
  | chars (size : Nat)
  /-- A string after its length in so many bytes. -/
  | counted (size : Nat)
  /-- A string up to a zero byte. -/
  | zeroEnded
  | padding
  | align
  | nothing

/-- Byte order and greatest alignment, as far as the format has set them. -/
structure Mode where
  little : Bool
  maxAlign : Nat

def Mode.initial : Mode := ⟨true, 1⟩

def maxIntSize : Nat := 16
def nativeAlign : Nat := 8

def isDigitAt (s : ByteArray) (i : Nat) : Bool := (s.byte i).isDigit

/-- A number in the format at position `i`, if there is one; it stops short of overflowing. -/
def number (s : ByteArray) (i default : Nat) : Nat × Nat :=
  if isDigitAt s i then
    let rec go : Nat → Nat → Nat → Nat × Nat
      | 0, i, acc => (acc, i)
      | fuel + 1, i, acc =>
        if isDigitAt s i && acc ≤ (2147483647 - 9) / 10 then
          go fuel (i + 1) (acc * 10 + ((s.byte i).toNat - 48))
        else (acc, i)
    go s.size i 0
  else (default, i)

/-- The size of an integer at position `i` of the format. -/
def intSize (s : ByteArray) (i default : Nat) : Native (Nat × Nat) := do
  let (n, j) := number s i default
  if n > maxIntSize || n == 0 then
    Native.failAtCaller ("integral size (" ++ toString n ++ ") out of limits [1,16]")
  return (n, j)

/-- The item at position `i` of the format, what it sets, and the position after it. -/
def readItem (s : ByteArray) (i : Nat) (mode : Mode) : Native (Item × Mode × Nat) := do
  let next := i + 1
  let plain (item : Item) : Native (Item × Mode × Nat) := return (item, mode, next)
  match Char.ofNat (s.byte i).toNat with
  | 'b' => plain (.signed 1)
  | 'B' => plain (.unsigned 1)
  | 'h' => plain (.signed 2)
  | 'H' => plain (.unsigned 2)
  | 'i' => do
    let (n, j) ← intSize s next 4
    return (.signed n, mode, j)
  | 'I' => do
    let (n, j) ← intSize s next 4
    return (.unsigned n, mode, j)
  | 'l' | 'j' => plain (.signed 8)
  | 'L' | 'J' | 'T' => plain (.unsigned 8)
  | 'f' => plain .single
  | 'd' | 'n' => plain .double
  | 's' => do
    let (n, j) ← intSize s next 8
    return (.counted n, mode, j)
  | 'c' => do
    if !isDigitAt s next then Native.failAtCaller "missing size for format option 'c'"
    let (n, j) := number s next 0
    return (.chars n, mode, j)
  | 'z' => plain .zeroEnded
  | 'x' => plain .padding
  | 'X' => plain .align
  | ' ' => plain .nothing
  | '<' => return (.nothing, { mode with little := true }, next)
  | '>' => return (.nothing, { mode with little := false }, next)
  | '=' => return (.nothing, { mode with little := true }, next)
  | '!' => do
    let (n, j) ← intSize s next nativeAlign
    return (.nothing, { mode with maxAlign := n }, j)
  | c => Native.fail (.atCaller ("invalid format option '".toUTF8 ++ ByteArray.singleton c.toUInt8 ++
      "'".toUTF8))

/-- How many bytes an item takes, strings aside. -/
def Item.size : Item → Nat
  | .signed n | .unsigned n | .chars n | .counted n => n
  | .single => 4
  | .double => 8
  | .padding => 1
  | _ => 0

def Item.alignsLike : Item → Nat
  | .signed n | .unsigned n | .counted n => n
  | .single => 4
  | .double => 8
  | _ => 0

def isPowerOfTwo (n : Nat) : Bool := n != 0 && 2 ^ Nat.log2 n == n

/-- The item at position `i` with the number of bytes to skip so that it is aligned. An alignment item
takes the alignment of what follows it, which it consumes. -/
def readAligned (s : ByteArray) (i total : Nat) (mode : Mode) :
    Native (Item × Nat × Mode × Nat) := do
  let (item, mode, j) ← readItem s i mode
  let (align, mode, j) ← match item with
    | .align => do
      if j ≥ s.size then Native.failArgument 1 "invalid next option for option 'X'"
      let (next, mode, k) ← readItem s j mode
      let size := match next with
        | .chars _ => 0
        | next => next.size
      if size == 0 then Native.failArgument 1 "invalid next option for option 'X'"
      pure (size, mode, k)
    | item => pure (item.alignsLike, mode, j)
  if align ≤ 1 then return (item, 0, mode, j)
  let align := min align mode.maxAlign
  if !isPowerOfTwo align then Native.failArgument 1 "format asks for alignment not power of 2"
  return (item, (align - total % align) % align, mode, j)

/-- The bytes of a number, the lowest first. -/
def lowBytes : Nat → Nat → List UInt8
  | 0, _ => []
  | n + 1, v => (v % 256).toUInt8 :: lowBytes n (v / 256)

def ordered (mode : Mode) (bytes : List UInt8) : ByteArray :=
  ByteArray.ofList (if mode.little then bytes else bytes.reverse)

/-- An integer in a number of bytes, by two's complement. -/
def intBytes (mode : Mode) (size : Nat) (n : Int) : ByteArray :=
  ordered mode (lowBytes size (n % ((2 ^ (8 * size) : Nat) : Int)).toNat)

def numberOf (mode : Mode) (bytes : ByteArray) : Nat :=
  let l := if mode.little then bytes.toList.reverse else bytes.toList
  l.foldl (fun n b => n * 256 + b.toNat) 0

/-- The bits of a number in single precision. -/
def singleBits (x : Float) : Nat :=
  match x.decode with
  | .nan => 0x7fc00000
  | .infinite negative => if negative then 0xff800000 else 0x7f800000
  | .finite negative m e =>
    let sign := if negative then 2 ^ 31 else 0
    if m == 0 then sign
    else
      let q : Int := max (Int.ofNat (Nat.log2 m) + e - 23) (-149)
      let units : Nat :=
        if q ≤ e then m * 2 ^ (e - q).toNat
        else
          let shift := (q - e).toNat
          let low := m % 2 ^ shift
          let high := m / 2 ^ shift
          let half := 2 ^ (shift - 1)
          if low > half || (low == half && high % 2 == 1) then high + 1 else high
      let raw := (q + 149).toNat * 2 ^ 23 + units
      sign + (if raw ≥ 0xff * 2 ^ 23 then 0xff * 2 ^ 23 else raw)

/-- The number that bits in single precision stand for. -/
def ofSingleBits (bits : Nat) : Float :=
  let negative : Bool := bits ≥ 2 ^ 31
  let expo : Nat := bits / 2 ^ 23 % 256
  let frac : Nat := bits % 2 ^ 23
  if expo == 255 then
    if frac == 0 then Float.ofDyadic negative 1 5000 else 0.0 / 0.0
  else if expo == 0 then Float.ofDyadic negative frac (-149)
  else Float.ofDyadic negative (frac + 2 ^ 23) ((expo : Int) - 150)

def packItem (mode : Mode) (item : Item) (args : Args) (i : Nat) : Native (ByteArray × Bool) := do
  match item with
  | .signed size =>
    let n ← args.integer i
    if size < 8 then
      let limit : Int := 2 ^ (8 * size - 1)
      if n.toInt < -limit || n.toInt ≥ limit then Native.failArgument i "integer overflow"
    return (intBytes mode size n.toInt, true)
  | .unsigned size =>
    let n ← args.integer i
    if size < 8 && n.toUInt64.toNat ≥ 2 ^ (8 * size) then
      Native.failArgument i "unsigned overflow"
    return (ordered mode (lowBytes size n.toUInt64.toNat), true)
  | .single => return (ordered mode (lowBytes 4 (singleBits (← args.number i))), true)
  | .double => return (ordered mode (lowBytes 8 (← args.number i).toBits.toNat), true)
  | .chars size =>
    let s ← args.text i
    if s.size > size then Native.failArgument i "string longer than given size"
    return (s ++ ByteArray.replicate (size - s.size) 0, true)
  | .counted size =>
    let s ← args.text i
    if size < 8 && s.size ≥ 2 ^ (8 * size) then
      Native.failArgument i "string length does not fit in given size"
    return (ordered mode (lowBytes size s.size) ++ s, true)
  | .zeroEnded =>
    let s ← args.text i
    if (s.findByte? 0 0).isSome then Native.failArgument i "string contains zeros"
    return (s.push 0, true)
  | .padding => return (ByteArray.singleton 0, false)
  | .align | .nothing => return (ByteArray.empty, false)

def packFrom (format : ByteArray) (args : Args) :
    Nat → Nat → Nat → Mode → ByteArray → Native ByteArray
  | 0, _, _, _, acc => return acc
  | fuel + 1, i, next, mode, acc => do
    if i ≥ format.size then return acc
    let (item, skip, mode, j) ← readAligned format i acc.size mode
    let acc := acc ++ ByteArray.replicate skip 0
    let (bytes, used) ← packItem mode item args next
    packFrom format args fuel j (if used then next + 1 else next) mode (acc ++ bytes)

def pack (args : Args) : Native (Array Value) := do
  let format ← args.text 1
  Native.text (← packFrom format args (format.size + 1) 0 2 Mode.initial ByteArray.empty)

def sizeFrom (format : ByteArray) : Nat → Nat → Mode → Nat → Native Nat
  | 0, _, _, total => return total
  | fuel + 1, i, mode, total => do
    if i ≥ format.size then return total
    let (item, skip, mode, j) ← readAligned format i total mode
    match item with
    | .counted _ | .zeroEnded => Native.failArgument 1 "variable-length format"
    | _ => pure ()
    let size := item.size + skip
    if total + size > 2147483647 then Native.failArgument 1 "format result too large"
    sizeFrom format fuel j mode (total + size)

def packsize (args : Args) : Native (Array Value) := do
  let format ← args.text 1
  Native.nat (← sizeFrom format (format.size + 1) 0 Mode.initial 0)

/-- The integer in some bytes; what does not fit must be an extension of the sign. -/
def unpackInt (mode : Mode) (bytes : ByteArray) (isSigned : Bool) : Native Int64 := do
  let n := numberOf mode bytes
  let size := bytes.size
  if size ≤ 8 then
    let negative := isSigned && n ≥ 2 ^ (8 * size - 1)
    return Int64.ofInt (if negative then (n : Int) - 2 ^ (8 * size) else n)
  else
    let high := n / 2 ^ 64
    let low := Int64.ofNat (n % 2 ^ 64)
    let allOnes := 2 ^ (8 * (size - 8)) - 1
    if high == 0 || (isSigned && low < 0 && high == allOnes) then return low
    else Native.failAtCaller (toString size ++ "-byte integer does not fit into Lua Integer")

def unpackFrom (format data : ByteArray) :
    Nat → Nat → Nat → Mode → Array Value → Native (Array Value)
  | 0, _, pos, _, acc => return acc.push (.ofNat (pos + 1))
  | fuel + 1, i, pos, mode, acc => do
    if i ≥ format.size then return acc.push (.ofNat (pos + 1))
    let (item, skip, mode, j) ← readAligned format i pos mode
    if skip + item.size > data.size - pos then Native.failArgument 2 "data string too short"
    let pos := pos + skip
    let bytes := data.extract pos (pos + item.size)
    let go (v : Value) (pos : Nat) := unpackFrom format data fuel j pos mode (acc.push v)
    match item with
    | .signed size => go (.int (← unpackInt mode bytes true)) (pos + size)
    | .unsigned size => go (.int (← unpackInt mode bytes false)) (pos + size)
    | .single => go (.float (ofSingleBits (numberOf mode bytes))) (pos + 4)
    | .double => go (.float (Float.ofBits (numberOf mode bytes).toUInt64)) (pos + 8)
    | .chars size => go (.string bytes) (pos + size)
    | .counted size =>
      let n := (← unpackInt mode bytes false).toUInt64.toNat
      if n > data.size - pos - size then Native.failArgument 2 "data string too short"
      go (.string (data.extract (pos + size) (pos + size + n))) (pos + size + n)
    | .zeroEnded =>
      match data.findByte? 0 pos with
      | some e => go (.string (data.extract pos e)) (e + 1)
      | none => Native.failArgument 2 "unfinished string for format 'z'"
    | .padding => unpackFrom format data fuel j (pos + 1) mode acc
    | .align | .nothing => unpackFrom format data fuel j pos mode acc

/-- A position counted from 1, or from the end if negative. -/
def startPosition (n : Int64) (size : Nat) : Nat :=
  let i := n.toInt
  if i > 0 then i.toNat
  else if i == 0 then 1
  else if i < -(size : Int) then 1
  else (size + i + 1).toNat

def unpack (args : Args) : Native (Array Value) := do
  let format ← args.text 1
  let data ← args.text 2
  let pos := startPosition (← args.optInteger 3 1) data.size - 1
  if pos > data.size then Native.failArgument 3 "initial position out of string"
  unpackFrom format data (format.size + 1) 0 pos Mode.initial #[]

end Gauge.Script.Pack
