import Gauge.Script.Library.Arguments

/-!
Mathematical functions.
-/

namespace Gauge.Script.Math

open Native

def float (x : Float) : Native (Array Value) := one (.float x)

def pi : Float := Float.ofBits 0x400921fb54442d18

def huge : Float := Float.ofBits 0x7ff0000000000000

/-- A whole float as an integer, if it fits. -/
def integral (x : Float) : Value :=
  match Numeral.float? x with
  | some n => .int n
  | none => .float x

def toFloor (args : Args) (round : Float → Float) : Native (Array Value) := do
  match args.value 1 with
  | .int n => int n
  | _ => one (integral (round (← args.number 1)))

def abs (args : Args) : Native (Array Value) := do
  match args.value 1 with
  | .int n => int (if n < 0 then 0 - n else n)
  | _ => float (← args.number 1).abs

def fmod (args : Args) : Native (Array Value) := do
  match args.value 1, args.value 2 with
  | .int a, .int b =>
    if b == 0 then failArgument 2 "zero"
    else if b == -1 then int 0
    else int (a % b)
  | _, _ =>
    let a ← args.number 1
    let b ← args.number 2
    float (Numeral.remainder a b)

def modf (args : Args) : Native (Array Value) := do
  match args.value 1 with
  | .int n => return #[.int n, .float 0]
  | _ =>
    let x ← args.number 1
    let whole := if x < 0 then Numeral.ceil x else Numeral.floor x
    return #[integral whole, .float (if x == whole then 0 else x - whole)]

def log (args : Args) : Native (Array Value) := do
  let x ← args.number 1
  if args.isAbsent 2 then float x.log
  else
    let base ← args.number 2
    if base == 2 then float x.log2
    else if base == 10 then float x.log10
    else float (x.log / base.log)

/-- The argument that comes first in an order. -/
def extreme (args : Args) (precedes : Value → Value → Native Bool) : Native (Array Value) := do
  let _ ← args.any 1
  let rec go : List Value → Value → Native Value
    | [], best => return best
    | v :: rest, best => do
      if ← precedes v best then go rest v else go rest best
  one (← go (args.toList.drop 1) (args.value 1))

def tointeger (args : Args) : Native (Array Value) := do
  match (args.value 1).toInt64? with
  | some n => int n
  | none =>
    let _ ← args.any 1
    one .nil

def type (args : Args) : Native (Array Value) := do
  match args.value 1 with
  | .int _ => one (.ofString "integer")
  | .float _ => one (.ofString "float")
  | _ =>
    let _ ← args.any 1
    one .nil

/-- A significand in `[0.5, 1)` and a power of two. -/
def frexp (args : Args) : Native (Array Value) := do
  let x ← args.number 1
  match x.decode with
  | .finite negative m e =>
    if m == 0 then return #[.float x, .int 0]
    let size := Nat.log2 m + 1
    return #[.float (Float.ofDyadic negative m (-(size : Int))), .int (Int64.ofInt (e + size))]
  | _ => return #[.float x, .int 0]

def ldexp (args : Args) : Native (Array Value) := do
  let x ← args.number 1
  let e ← args.integer 2
  match x.decode with
  | .finite negative m e' => float (Float.ofDyadic negative m (e' + e.toInt))
  | _ => float x

/-! Random numbers: xoshiro256**, seeded by two integers. -/

def rotateLeft (x : UInt64) (n : UInt64) : UInt64 := (x <<< n) ||| (x >>> (64 - n))

def nextRandom (s : UInt64 × UInt64 × UInt64 × UInt64) :
    UInt64 × (UInt64 × UInt64 × UInt64 × UInt64) :=
  let (s0, s1, s2, s3) := s
  let s2' := s2 ^^^ s0
  let s3' := s3 ^^^ s1
  let r := rotateLeft (s1 * 5) 7 * 9
  (r, (s0 ^^^ s3', s1 ^^^ s2', s2' ^^^ (s1 <<< 17), rotateLeft s3' 45))

def seeded (a b : UInt64) : UInt64 × UInt64 × UInt64 × UInt64 :=
  (List.range 16).foldl (fun s _ => (nextRandom s).2) (a, 0xff, b, 0)

def draw : Native UInt64 := update fun h =>
  let (r, s) := nextRandom h.random
  (r, { h with random := s })

/-- A number in `0 … limit`: numbers are drawn until one of the right size fits. -/
def project (limit : UInt64) : Nat → UInt64 → Native UInt64
  | 0, r => return r % (limit + 1)
  | fuel + 1, r => do
    let mask := if limit == 0 then 0 else (2 ^ (Nat.log2 limit.toNat + 1) - 1 : Nat).toUInt64
    let v := r &&& mask
    if v ≤ limit then return v else project limit fuel (← draw)

def random (args : Args) : Native (Array Value) := do
  let r ← draw
  let between (low up : Int64) (i : Nat) : Native (Array Value) := do
    if low > up then failArgument i "interval is empty"
    let v ← project (up.toUInt64 - low.toUInt64) 1000 r
    int (v + low.toUInt64).toInt64
  match args.size with
  | 0 => float ((r >>> 11).toFloat * Float.ofDyadic false 1 (-53))
  | 1 =>
    let up ← args.integer 1
    if up == 0 then int r.toInt64 else between 1 up 1
  | 2 =>
    let low ← args.integer 1
    between low (← args.integer 2) 2
  | _ => failAtCaller "wrong number of arguments"

def randomseed (args : Args) : Native (Array Value) := do
  let (a, b) ← if args.isEmpty then pure ((0 : UInt64), (0 : UInt64))
    else do
      let a ← match args.value 1 with
        | .int n => pure n.toUInt64
        | _ => do
          let x ← args.number 1
          pure (match Numeral.float? x with
            | some n => n.toUInt64
            | none => x.toBits)
      let b ← args.optInteger 2 0
      pure (a, b.toUInt64)
  modifyHeap fun h => { h with random := seeded a b }
  return #[.int a.toInt64, .int b.toInt64]

def run (f : MathFunction) (args : Args) : Native (Array Value) :=
  let apply (g : Float → Float) : Native (Array Value) := do float (g (← args.number 1))
  match f with
  | .abs => abs args
  | .acos => apply Float.acos
  | .asin => apply Float.asin
  | .atan => do
    let y ← args.number 1
    float (Float.atan2 y (← args.optNumber 2 1))
  | .ceil => toFloor args Numeral.ceil
  | .cos => apply Float.cos
  | .cosh => apply Float.cosh
  | .deg => apply fun x => x * (180.0 / pi)
  | .exp => apply Float.exp
  | .floor => toFloor args Numeral.floor
  | .fmod => fmod args
  | .frexp => frexp args
  | .ldexp => ldexp args
  | .log => log args
  | .log10 => apply Float.log10
  | .max => extreme args fun v best => lessThan best v
  | .min => extreme args fun v best => lessThan v best
  | .modf => modf args
  | .pow => do
    let x ← args.number 1
    float (Float.pow x (← args.number 2))
  | .rad => apply fun x => x * (pi / 180.0)
  | .random => random args
  | .randomseed => randomseed args
  | .sin => apply Float.sin
  | .sinh => apply Float.sinh
  | .sqrt => apply Float.sqrt
  | .tan => apply Float.tan
  | .tanh => apply Float.tanh
  | .tointeger => tointeger args
  | .type => type args
  | .ult => do
    let a ← args.integer 1
    let b ← args.integer 2
    bool (a.toUInt64 < b.toUInt64)

end Gauge.Script.Math
