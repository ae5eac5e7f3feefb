import Gauge.Script.CodePoint
import Gauge.Script.Library.Arguments

/-!
Functions on strings as texts in UTF-8. Positions are those of bytes, counted from 1.
-/

namespace Gauge.Script.Utf8

open Native

/-- A position in a string of the given size; a negative one counts from the end. -/
def position (n : Int64) (size : Nat) : Int :=
  let n := n.toInt
  if n ≥ 0 then n else if -n > size then 0 else size + 1 + n

def isTailAt (s : ByteArray) (i : Nat) : Bool := CodePoint.isTail (s.byte i)

def failInvalid {α : Type} : Native α := failAtCaller "invalid UTF-8 code"

def charsFrom (args : Args) : Nat → Native ByteArray
  | 0 => return ByteArray.empty
  | n + 1 => do
    let before ← charsFrom args n
    let code ← args.integer (n + 1)
    if code < 0 || code.toInt > CodePoint.max then failArgument (n + 1) "value out of range"
    return before ++ ByteArray.ofList (CodePoint.encode code.toInt.toNat)

/-- The code points from byte `i` on up to `stop`. -/
def codesBetween (s : ByteArray) (stop : Nat) (strict : Bool) :
    Nat → Nat → Array Value → Native (Array Value)
  | 0, _, acc => return acc
  | fuel + 1, i, acc => do
    if i ≥ stop then return acc
    match CodePoint.decode? s i strict with
    | some (n, next) => codesBetween s stop strict fuel next (acc.push (.ofNat n))
    | none => failInvalid

def codepoint (args : Args) : Native (Array Value) := do
  let s ← args.text 1
  let first := position (← args.optInteger 2 1) s.size
  let last := position (← args.optInteger 3 (Int64.ofInt first)) s.size
  if first < 1 then failArgument 2 "out of bounds"
  if last > s.size then failArgument 3 "out of bounds"
  if first > last then none_
  else
    let count := (last - first + 1).toNat
    if count ≥ (← inspect).room then failAtCaller "stack overflow (string slice too long)"
    codesBetween s last.toNat (!(args.value 4).isTruthy) s.size (first.toNat - 1) #[]

/-- Counts the code points from byte `i` on that begin before `stop`; or gives the place of bytes that
are none. -/
def countFrom (s : ByteArray) (stop : Int) (strict : Bool) : Nat → Nat → Nat → Except Nat Nat
  | 0, _, count => .ok count
  | fuel + 1, i, count =>
    if (i : Int) ≥ stop then .ok count
    else
      match CodePoint.decode? s i strict with
      | some (_, next) => countFrom s stop strict fuel next (count + 1)
      | none => .error i

def len (args : Args) : Native (Array Value) := do
  let s ← args.text 1
  let first := position (← args.optInteger 2 1) s.size
  let last := position (← args.optInteger 3 (-1)) s.size
  if first < 1 || first > s.size + 1 then failArgument 2 "initial position out of bounds"
  if last > s.size then failArgument 3 "final position out of bounds"
  match countFrom s last (!(args.value 4).isTruthy) (s.size + 1) (first.toNat - 1) 0 with
  | .ok n => nat n
  | .error i => return #[.nil, .ofNat (i + 1)]

/-- The start of the code point that byte `i` belongs to. -/
def startOf (s : ByteArray) : Nat → Nat
  | 0 => 0
  | i + 1 => if isTailAt s (i + 1) then startOf s i else i + 1

/-- Goes back over `n` code points; also how many there were not. -/
def backward (s : ByteArray) : Nat → Nat → Nat × Nat
  | 0, i => (i, 0)
  | n + 1, i => if i == 0 then (0, n + 1) else backward s n (startOf s (i - 1))

/-- The end of the bytes that follow the first one of a code point. -/
def afterTail (s : ByteArray) (i : Nat) : Nat :=
  if h : i < s.size then
    if isTailAt s i then afterTail s (i + 1) else i
  else i
termination_by s.size - i

def forward (s : ByteArray) : Nat → Nat → Nat × Nat
  | 0, i => (i, 0)
  | n + 1, i => if i ≥ s.size then (i, n + 1) else forward s n (afterTail s (i + 1))

def offset (args : Args) : Native (Array Value) := do
  let s ← args.text 1
  let n ← args.integer 2
  let default := if n > 0 then 1 else Int64.ofNat (s.size + 1)
  let i := position (← args.optInteger 3 default) s.size
  if i < 1 || i > s.size + 1 then failArgument 3 "position out of bounds"
  let i := i.toNat - 1
  if n == 0 then nat (startOf s i + 1)
  else
    if isTailAt s i then failAtCaller "initial position is a continuation byte"
    let steps := min n.toInt.natAbs (s.size + 2)
    let (i, missing) := if n < 0 then backward s steps i else forward s (steps - 1) i
    if missing == 0 then nat (i + 1) else one .nil

def codes (args : Args) : Native (Array Value) := do
  let s ← args.text 1
  if isTailAt s 0 then failArgument 1 "invalid UTF-8 code"
  return #[.builtin (.utf8 (.codesNext (!(args.value 2).isTruthy))), .string s, .int 0]

def codesNext (args : Args) (strict : Bool) : Native (Array Value) := do
  let s ← args.text 1
  let n := ((args.value 2).toInt64?.getD 0).toUInt64.toNat
  let i := afterTail s n
  if i ≥ s.size then none_
  else
    match CodePoint.decode? s i strict with
    | some (code, next) =>
      if isTailAt s next then failInvalid
      return #[.ofNat (i + 1), .ofNat code]
    | none => failInvalid

/-- A pattern that matches one code point. -/
def charpattern : ByteArray :=
  ByteArray.ofList [91, 0, 45, 0x7f, 0xc2, 45, 0xfd, 93, 91, 0x80, 45, 0xbf, 93, 42]

def run (f : Utf8Function) (args : Args) : Native (Array Value) :=
  match f with
  | .char => do text (← charsFrom args args.size)
  | .codepoint => codepoint args
  | .codes => codes args
  | .codesNext strict => codesNext args strict
  | .len => len args
  | .offset => offset args

end Gauge.Script.Utf8
