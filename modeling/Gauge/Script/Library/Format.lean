import Gauge.Script.Library.Arguments

/-!
Formatted text: conversions with flags, a width and a precision.
-/

namespace Gauge.Script.Format

/-- A conversion as it is written, from the percent sign to the letter. -/
structure Conversion where
  written : ByteArray
  leftAligned : Bool
  plus : Bool
  space : Bool
  alternate : Bool
  zero : Bool
  width : Nat
  precision : Option Nat

/-- The number of bytes from `i` on that are in a set. -/
def span (s set : ByteArray) (i : Nat) : Nat :=
  if h : i < s.size then
    if set.toList.contains s[i] then span s set (i + 1) + 1 else 0
  else 0
termination_by s.size - i

/-- The value of up to two digits and the position after them. -/
def twoDigits (s : ByteArray) (i : Nat) : Nat × Nat :=
  let n := min 2 (span s "0123456789".toUTF8 i)
  ((Numeral.digitsFrom (s.extract i (i + n)) 10 0 0).1, i + n)

/-- Reads a conversion, whose letter is its last byte; nothing if its flags or its sizes are not what
the letter allows. -/
def conversion? (written : ByteArray) (flags : String) (precision : Bool) : Option Conversion :=
  let count := span written flags.toUTF8 1
  let given := written.extract 1 (1 + count)
  let has (c : Char) := given.toList.contains c.toUInt8
  let i := 1 + count
  let (width, i, prec) : Nat × Nat × Option Nat :=
    if written.byte i == 48 then (0, i, none)
    else
      let (w, j) := twoDigits written i
      if written.byte j == 46 && precision then
        let (p, k) := twoDigits written (j + 1)
        (w, k, some p)
      else (w, j, none)
  if (written.byte i).isLetter then
    some ⟨written, has '-', has '+', has ' ', has '#', has '0', width, prec⟩
  else none

/-- Fills up to the width, on the right if aligned to the left. -/
def pad (c : Conversion) (s : ByteArray) : ByteArray :=
  let missing := c.width - s.size
  if c.leftAligned then s ++ ByteArray.replicate missing 32
  else ByteArray.replicate missing 32 ++ s

/-- Fills up to the width; with the zero flag, by zeros between the sign or the base and the digits. -/
def padNumber (c : Conversion) (zero : Bool) (lead digits : String) : ByteArray :=
  if zero && !c.leftAligned then
    (lead ++ Fixed.zeros (c.width - lead.length - digits.length) ++ digits).toUTF8
  else pad c (lead ++ digits).toUTF8

def signOf (c : Conversion) (negative : Bool) : String :=
  if negative then "-" else if c.plus then "+" else if c.space then " " else ""

/-- Digits with at least as many places as the precision says; none for zero at precision zero. -/
def withPrecision (c : Conversion) (digits : String) : String :=
  match c.precision with
  | some 0 => if digits == "0" then "" else digits
  | some p => Fixed.zeros (p - digits.length) ++ digits
  | none => digits

def signed (c : Conversion) (n : Int64) : ByteArray :=
  let digits := withPrecision c (toString n.toInt.natAbs)
  padNumber c (c.zero && c.precision.isNone) (signOf c (n < 0)) digits

/-- The digits of a number in base 8 or 16. -/
def digitsInBase (base : Nat) : Nat → Nat → List Char → List Char
  | 0, _, acc => acc
  | fuel + 1, n, acc =>
    let acc := Fixed.hexDigit (n % base) :: acc
    if n / base == 0 then acc else digitsInBase base fuel (n / base) acc

def unsigned (c : Conversion) (letter : UInt8) (n : Int64) : ByteArray :=
  let m := n.toUInt64.toNat
  let plain : String :=
    match Char.ofNat letter.toNat with
    | 'o' => String.ofList (digitsInBase 8 64 m [])
    | 'x' => String.ofList (digitsInBase 16 64 m [])
    | 'X' => (String.ofList (digitsInBase 16 64 m [])).map Char.toUpper
    | _ => toString m
  let digits := withPrecision c plain
  let isOctal := letter == 'o'.toUInt8
  let digits := if isOctal && c.alternate && !digits.startsWith "0" then "0" ++ digits else digits
  let lead :=
    if c.alternate && m != 0 && !isOctal then (if letter == 'X'.toUInt8 then "0X" else "0x") else ""
  padNumber c (c.zero && c.precision.isNone) lead digits

def upperIf (upper : Bool) (s : String) : String := if upper then s.map Char.toUpper else s

def float (c : Conversion) (letter : UInt8) (x : Float) : ByteArray :=
  let upper := letter.isUpper
  match x.decode with
  | .nan => padNumber c false (signOf c x.isNegative) (upperIf upper "nan")
  | .infinite negative => padNumber c false (signOf c negative) (upperIf upper "inf")
  | .finite negative m e =>
    let places := c.precision.getD 6
    let (lead, digits) : String × String :=
      match Char.ofNat letter.toLower.toNat with
      | 'e' => ("", Fixed.scientific places c.alternate m e)
      | 'f' => ("", Fixed.places places c.alternate m e)
      | 'g' => ("", Fixed.general places c.alternate m e)
      | _ => ("0x", ((Fixed.hexadecimal c.precision c.alternate m e).drop 2).toString)
    padNumber c c.zero (signOf c negative ++ upperIf upper lead) (upperIf upper digits)

/-- A string as it is written in a script. -/
def quotedString (s : ByteArray) : ByteArray :=
  let body := s.size.fold (fun i _ (acc : ByteArray) =>
    let b := s.byte i
    if b == 34 || b == 92 || b == 10 then (acc.push 92).push b
    else if b.isControl then
      let digits := toString b.toNat
      acc ++ ("\\" ++ (if (s.byte (i + 1)).isDigit then Fixed.zeros (3 - digits.length) else "") ++
        digits).toUTF8
    else acc.push b) (ByteArray.singleton 34)
  body.push 34

/-- A value as it is written in a script, so that it reads back exactly. -/
def literal? (v : Value) : Option ByteArray :=
  match v with
  | .nil => some "nil".toUTF8
  | .bool b => some (if b then "true" else "false").toUTF8
  | .int n =>
    some (if n == Int64.minValue then "0x8000000000000000" else toString n.toInt).toUTF8
  | .float x =>
    match x.decode with
    | .nan => some "(0/0)".toUTF8
    | .infinite negative => some (if negative then "-1e9999" else "1e9999").toUTF8
    | .finite negative m e =>
      some ((if negative then "-" else "") ++ Fixed.hexadecimal none false m e).toUTF8
  | .string s => some (quotedString s)
  | _ => none

/-- The longest conversion that is looked at. -/
def maxConversion : Nat := 22

/-- The text of one conversion applied to one argument. -/
def apply (written : ByteArray) (letter : UInt8) (args : Args) (i : Nat) : Native ByteArray := do
  let read (flags : String) (precision : Bool) : Native Conversion :=
    match conversion? written flags precision with
    | some c => pure c
    | none =>
      Native.fail (.atCaller ("invalid conversion specification: '".toUTF8 ++ written ++ "'".toUTF8))
  let floatFlags := "-+ #0"
  match Char.ofNat letter.toNat with
  | 'c' =>
    let n ← args.integer i
    let c ← read "-" false
    return pad c (ByteArray.singleton n.toUInt64.toUInt8)
  | 'd' | 'i' =>
    let n ← args.integer i
    return signed (← read "-+0 " true) n
  | 'u' =>
    let n ← args.integer i
    return unsigned (← read "-0" true) letter n
  | 'o' | 'x' | 'X' =>
    let n ← args.integer i
    return unsigned (← read "-#0" true) letter n
  | 'a' | 'A' =>
    let c ← read floatFlags true
    return float c letter (← args.number i)
  | 'e' | 'E' | 'f' | 'g' | 'G' =>
    let x ← args.number i
    return float (← read floatFlags true) letter x
  | 'p' =>
    let c ← read "-" false
    let shown : String :=
      match args.value i with
      | .table _ | .closure _ | .builtin _ | .thread _ | .stream _ | .string _ =>
        Native.addressOf (args.value i)
      | _ => "(null)"
    return pad c shown.toUTF8
  | 'q' =>
    if written.size > 2 then Native.failAtCaller "specifier '%q' cannot have modifiers"
    match literal? (args.value i) with
    | some s => return s
    | none => Native.failArgument i "value has no literal form"
  | 's' =>
    let s ← Native.toText (args.value i)
    if written.size == 2 then return s
    else
      if (s.findByte? 0 0).isSome then Native.failArgument i "string contains zeros"
      let c ← read "-" true
      if c.precision.isNone && s.size ≥ 100 then return s
      return pad c (match c.precision with
        | some p => s.extract 0 p
        | none => s)
  | _ =>
    Native.fail (.atCaller ("invalid conversion '".toUTF8 ++ written.untilNul ++ "' to 'format'".toUTF8))

/-- Formats from position `i` of the format on; `next` is the argument for the next conversion. -/
def formatFrom (format : ByteArray) (args : Args) : Nat → Nat → Nat → ByteArray → Native ByteArray
  | 0, _, _, acc => return acc
  | fuel + 1, i, next, acc => do
    if i ≥ format.size then return acc
    else if format.byte i != 37 then formatFrom format args fuel (i + 1) next (acc.push (format.byte i))
    else if format.byte (i + 1) == 37 then formatFrom format args fuel (i + 2) next (acc.push 37)
    else
      if next > args.size then Native.failArgument next "no value"
      let count := span format "-+ #0123456789.".toUTF8 (i + 1) + 1
      if count ≥ maxConversion then Native.failAtCaller "invalid format string to 'format'"
      let written := format.extract i (i + 1 + count)
      let s ← apply written (format.byte (i + count)) args next
      formatFrom format args fuel (i + 1 + count) (next + 1) (acc ++ s)

def run (args : Args) : Native (Array Value) := do
  let format ← args.text 1
  Native.text (← formatFrom format args (format.size + 1) 0 2 ByteArray.empty)

end Gauge.Script.Format
