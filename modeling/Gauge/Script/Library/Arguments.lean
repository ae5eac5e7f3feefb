import Gauge.Script.Operators

/-!
What functions ask of their arguments. Arguments are counted from 1, as messages count them.
-/

namespace Gauge.Script

abbrev Args := Array Value

namespace Args

def value? (args : Args) (i : Nat) : Option Value := args[i - 1]?

def value (args : Args) (i : Nat) : Value := args.getD (i - 1) .nil

/-- Whether an argument is missing or nil. -/
def isAbsent (args : Args) (i : Nat) : Bool := (args.value i).isNil

/-- Refuses an argument of the wrong kind. -/
def failKind {α : Type} (args : Args) (i : Nat) (expected : String) : Native α := do
  let got ← match args.value? i with
    | none => pure "no value".toUTF8
    | some v => Native.read (·.kindName v)
  Native.fail (.argument i ((expected ++ " expected, got ").toUTF8 ++ got))

def any (args : Args) (i : Nat) : Native Value := do
  match args.value? i with
  | some v => return v
  | none => Native.failArgument i "value expected"

/-- An integer, or what stands for one. -/
def integer (args : Args) (i : Nat) : Native Int64 := do
  match (args.value i).toNumeral? with
  | some n =>
    match n.toInt64? with
    | some k => return k
    | none => Native.failArgument i "number has no integer representation"
  | none => args.failKind i "number"

def optInteger (args : Args) (i : Nat) (default : Int64) : Native Int64 :=
  if args.isAbsent i then pure default else args.integer i

/-- A number, or a string that stands for one. -/
def numeral (args : Args) (i : Nat) : Native Numeral := do
  match (args.value i).toNumeral? with
  | some n => return n
  | none => args.failKind i "number"

def number (args : Args) (i : Nat) : Native Float := return (← args.numeral i).toFloat

def optNumber (args : Args) (i : Nat) (default : Float) : Native Float :=
  if args.isAbsent i then pure default else args.number i

/-- A string, or the text of a number. -/
def text (args : Args) (i : Nat) : Native ByteArray := do
  match (args.value i).text? with
  | some s => return s
  | none => args.failKind i "string"

def optText (args : Args) (i : Nat) (default : ByteArray) : Native ByteArray :=
  if args.isAbsent i then pure default else args.text i

def table (args : Args) (i : Nat) : Native Nat := do
  match args.value i with
  | .table id => return id
  | _ => args.failKind i "table"

def function (args : Args) (i : Nat) : Native Value := do
  match args.value i with
  | .closure id => return .closure id
  | .builtin f => return .builtin f
  | _ => args.failKind i "function"

/-- One of some names. -/
def option (args : Args) (i : Nat) (default : Option String) (names : List String) : Native String := do
  let s ← match default with
    | some d => args.optText i d.toUTF8
    | none => args.text i
  match names.find? (·.toUTF8 == s) with
  | some name => return name
  | none =>
    Native.fail (.argument i ("invalid option '".toUTF8 ++ s.untilNul ++ "'".toUTF8))

end Args

namespace Native

def none_ : Native (Array Value) := pure #[]
def one (v : Value) : Native (Array Value) := pure #[v]
def text (s : ByteArray) : Native (Array Value) := pure #[.string s]
def int (n : Int64) : Native (Array Value) := pure #[.int n]
def nat (n : Nat) : Native (Array Value) := pure #[.ofNat n]
def bool (b : Bool) : Native (Array Value) := pure #[.bool b]

def newTable (t : Table) : Native Value := update fun h =>
  let (id, h) := h.newTable t
  (.table id, h)

/-- Does something for each number below `n`. -/
def forBelow (f : Nat → Native Unit) : Nat → Native Unit
  | 0 => pure ()
  | n + 1 => do
    forBelow f n
    f n

end Native

end Gauge.Script
