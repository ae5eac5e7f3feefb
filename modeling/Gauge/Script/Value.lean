import Gauge.Script.Arithmetic

/-!
The values of scripts. Tables, closures, threads and streams are given by their number in the heap;
the functions that come with the language are a type of their own.
-/

namespace Gauge.Script

inductive BaseFunction where
  | assert | collectgarbage | dofile | error | getmetatable | ipairs | ipairsNext | load | loadfile | loadPieces
  | next | pairs | pcall | print | rawequal | rawget | rawlen | rawset | require | select
  | setmetatable | tonumber | tostring | type | warn | xpcall
deriving DecidableEq, BEq, Hashable, Repr

inductive StringFunction where
  | byte | char | dump | find | format | gmatch | gsub | len | lower | match | pack | packsize
  | rep | reverse | sub | unpack | upper
  | arith (op : ArithOp) | minus
deriving DecidableEq, BEq, Hashable, Repr

inductive TableFunction where
  | concat | insert | move | pack | remove | sort | unpack
deriving DecidableEq, BEq, Hashable, Repr

inductive MathFunction where
  | abs | acos | asin | atan | ceil | cos | cosh | deg | exp | floor | fmod | frexp | ldexp | log
  | log10 | max | min | modf | pow | rad | random | randomseed | sin | sinh | sqrt | tan | tanh
  | tointeger | type | ult
deriving DecidableEq, BEq, Hashable, Repr

inductive Utf8Function where
  | char | codepoint | codes | codesNext (strict : Bool) | len | offset
deriving DecidableEq, BEq, Hashable, Repr

inductive CoroutineFunction where
  | close | create | isyieldable | resume | running | status | wrap | yield
deriving DecidableEq, BEq, Hashable, Repr

inductive OsFunction where
  | clock | date | difftime | execute | exit | getenv | remove | rename | setlocale | time | tmpname
deriving DecidableEq, BEq, Hashable, Repr

inductive IoFunction where
  | close | flush | input | lines | open | output | popen | read | tmpfile | type | write
deriving DecidableEq, BEq, Hashable, Repr

inductive StreamMethod where
  | close | flush | lines | read | seek | setvbuf | write | gc | tostring
deriving DecidableEq, BEq, Hashable, Repr

inductive PackageFunction where
  | loadlib | searchpath | searchPreload | searchScript | searchLibrary
deriving DecidableEq, BEq, Hashable, Repr

/-- The functions that come with the language. Three of them carry a number: what they work on. -/
inductive Builtin where
  | base (f : BaseFunction)
  | string (f : StringFunction)
  | table (f : TableFunction)
  | math (f : MathFunction)
  | utf8 (f : Utf8Function)
  | coroutine (f : CoroutineFunction)
  | os (f : OsFunction)
  | io (f : IoFunction)
  | stream (f : StreamMethod)
  | package (f : PackageFunction)
  /-- Gives the next match of a search. -/
  | matches (search : Nat)
  /-- Resumes a thread. -/
  | resumes (thread : Nat)
  /-- Reads lines from a stream. -/
  | reads (stream : Nat)
deriving DecidableEq, BEq, Hashable, Repr

/-- A value that is its own identity: what may be a key of a table, floats given by their bits. -/
inductive Key where
  | bool (b : Bool)
  | int (n : Int64)
  | float (bits : UInt64)
  | string (s : ByteArray)
  | table (id : Nat)
  | closure (id : Nat)
  | builtin (f : Builtin)
  | thread (id : Nat)
  | stream (id : Nat)
  | failure (message : ByteArray)
deriving DecidableEq

inductive Value where
  | nil
  | bool (b : Bool)
  | int (n : Int64)
  | float (x : Float)
  | string (s : ByteArray)
  | table (id : Nat)
  | closure (id : Nat)
  | builtin (f : Builtin)
  | thread (id : Nat)
  | stream (id : Nat)
  /-- An error of the host's own, which scripts cannot look into. -/
  | failure (message : ByteArray)
deriving DecidableEq

instance : Inhabited Value := ⟨.nil⟩

/-- The kinds of values. -/
inductive Kind where
  | nil | boolean | number | string | table | function | thread | userdata
deriving DecidableEq, BEq

def Kind.name : Kind → String
  | .nil => "nil"
  | .boolean => "boolean"
  | .number => "number"
  | .string => "string"
  | .table => "table"
  | .function => "function"
  | .thread => "thread"
  | .userdata => "userdata"

namespace Value

def kind : Value → Kind
  | .nil => .nil
  | .bool _ => .boolean
  | .int _ | .float _ => .number
  | .string _ => .string
  | .table _ => .table
  | .closure _ | .builtin _ => .function
  | .thread _ => .thread
  | .stream _ | .failure _ => .userdata

def ofNumeral : Numeral → Value
  | .int n => .int n
  | .float x => .float x

def ofLiteral : Literal → Value
  | .nil => .nil
  | .bool b => .bool b
  | .number n => ofNumeral n
  | .string s => .string s

def ofString (s : String) : Value := .string s.toUTF8

def ofNat (n : Nat) : Value := .int (Int64.ofNat n)

@[inline] def isTruthy : Value → Bool
  | .nil => false
  | .bool b => b
  | _ => true

@[inline] def isNil : Value → Bool
  | .nil => true
  | _ => false

/-- The number a value is, without any conversion. -/
def numeral? : Value → Option Numeral
  | .int n => some (.int n)
  | .float x => some (.float x)
  | _ => none

/-- The number a value is or, for a string, stands for. -/
def toNumeral? : Value → Option Numeral
  | .int n => some (.int n)
  | .float x => some (.float x)
  | .string s => Numeral.read? s
  | _ => none

/-- The integer a value is or stands for. -/
def toInt64? (v : Value) : Option Int64 := v.toNumeral?.bind Numeral.toInt64?

/-- The text of a string or a number. -/
def text? : Value → Option ByteArray
  | .string s => some s
  | .int n => some (Numeral.int n).text.toUTF8
  | .float x => some (Numeral.float x).text.toUTF8
  | _ => none

/-- The key a value is. A float that is an integer is the same key as that integer; nil and NaN are
no keys. -/
def key? : Value → Option Key
  | .nil => none
  | .bool b => some (.bool b)
  | .int n => some (.int n)
  | .float x =>
    match Numeral.float? x with
    | some n => some (.int n)
    | none => if x == x then some (.float x.toBits) else none
  | .string s => some (.string s)
  | .table id => some (.table id)
  | .closure id => some (.closure id)
  | .builtin f => some (.builtin f)
  | .thread id => some (.thread id)
  | .stream id => some (.stream id)
  | .failure message => some (.failure message)

def ofKey : Key → Value
  | .bool b => .bool b
  | .int n => .int n
  | .float bits => .float (Float.ofBits bits)
  | .string s => .string s
  | .table id => .table id
  | .closure id => .closure id
  | .builtin f => .builtin f
  | .thread id => .thread id
  | .stream id => .stream id
  | .failure message => .failure message

/-- Equality without metamethods. -/
def rawEquals (a b : Value) : Bool :=
  match a, b with
  | .nil, .nil => true
  | .bool x, .bool y => x == y
  | .int m, .int n => m == n
  | .float x, .float y => x == y
  | .int m, .float y => Numeral.isEqual (.int m) (.float y)
  | .float x, .int n => Numeral.isEqual (.float x) (.int n)
  | .string s, .string t => s == t
  | .table i, .table j => i == j
  | .closure i, .closure j => i == j
  | .builtin f, .builtin g => f == g
  | .thread i, .thread j => i == j
  | .stream i, .stream j => i == j
  | .failure s, .failure t => s == t
  | _, _ => false

end Value

end Gauge.Script
