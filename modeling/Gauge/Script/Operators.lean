import Gauge.Script.Native

/-!
The operators of the language on values of any kind. Where an operand has no meaning for an operator
of its own, its metatable is asked for one.
-/

namespace Gauge.Script

/-! The names under which metatables hold what an operator means. -/

def ArithOp.name : ArithOp → String
  | .add => "add" | .sub => "sub" | .mul => "mul" | .mod => "mod" | .pow => "pow" | .div => "div"
  | .idiv => "idiv" | .band => "band" | .bor => "bor" | .bxor => "bxor" | .shl => "shl"
  | .shr => "shr"

namespace Event

def index : ByteArray := "__index".toUTF8
def newindex : ByteArray := "__newindex".toUTF8
def call : ByteArray := "__call".toUTF8
def concat : ByteArray := "__concat".toUTF8
def len : ByteArray := "__len".toUTF8
def eq : ByteArray := "__eq".toUTF8
def lt : ByteArray := "__lt".toUTF8
def le : ByteArray := "__le".toUTF8
def unm : ByteArray := "__unm".toUTF8
def bnot : ByteArray := "__bnot".toUTF8
def close : ByteArray := "__close".toUTF8
def name : ByteArray := "__name".toUTF8
def tostring : ByteArray := "__tostring".toUTF8

def arith (op : ArithOp) : ByteArray := ("__" ++ op.name).toUTF8

end Event

/-- The name of a value's kind; tables and streams may have one of their own. -/
def Heap.kindName (h : Heap) (v : Value) : ByteArray :=
  match v with
  | .table _ | .stream _ =>
    match h.metamethod v Event.name with
    | .string s => s
    | _ => v.kind.name.toUTF8
  | .failure _ => "error".toUTF8
  | v => v.kind.name.toUTF8

namespace Native

/-- Refuses an operand of a kind that an operation does not work on. -/
def failOperand {α : Type} (index : Nat) (action : String) (v : Value) : Native α := do
  let kind ← read (·.kindName v)
  fail (.operand index (("attempt to " ++ action ++ " a ").toUTF8 ++ kind ++ " value".toUTF8)
    ByteArray.empty)

/-- As `failOperand`, of a value that is no operand itself. -/
def failValue {α : Type} (action : String) (v : Value) : Native α := do
  let kind ← read (·.kindName v)
  fail (.atOperation (("attempt to " ++ action ++ " a ").toUTF8 ++ kind ++ " value".toUTF8))

def metamethod (v : Value) (event : ByteArray) : Native Value := read (·.metamethod v event)

def isCallable : Value → Bool
  | .closure _ | .builtin _ => true
  | _ => false

/-- How many metatables an access may pass through. -/
def maxChain : Nat := 2000

/-- The value under a key of `o`, which is the operand itself on the first round. -/
def indexFrom (first : Bool) (o k : Value) : Nat → Native Value
  | 0 => failAtOperation "'__index' chain too long; possible loop"
  | fuel + 1 => do
    let direct ← read fun h =>
      match o with
      | .table id =>
        let t := h.table id
        let v := t.getValue k
        if v.isNil then
          match t.metatable with
          | none => some Value.nil
          | some m =>
            if ((h.table m).getSlot (.string Event.index)).isNil then some .nil else none
        else some v
      | _ => none
    match direct with
    | some v => return v
    | none =>
      let via ← metamethod o Event.index
      if via.isNil then
        if first then failOperand 0 "index" o else failValue "index" o
      else if isCallable via then call1 via #[o, k]
      else indexFrom false via k fuel

def index (o k : Value) : Native Value := indexFrom true o k maxChain

/-- Stores in a table itself. -/
def rawSet (id : Nat) (k v : Value) : Native Unit :=
  match k.key? with
  | some key => modifyHeap (·.modifyTable id fun t => t.set key v)
  | none =>
    match k with
    | .nil => failAtOperation "table index is nil"
    | _ => failAtOperation "table index is NaN"

def setIndexFrom (first : Bool) (o k v : Value) : Nat → Native Unit
  | 0 => failAtOperation "'__newindex' chain too long; possible loop"
  | fuel + 1 => do
    let direct : Option Nat ← read fun h =>
      match o with
      | .table id =>
        let t := h.table id
        match t.metatable with
        | none => some id
        | some m =>
          if ((h.table m).getSlot (.string Event.newindex)).isNil then some id
          else if (t.getValue k).isNil then none
          else some id
      | _ => none
    match direct with
    | some id => rawSet id k v
    | none =>
      let via ← metamethod o Event.newindex
      if via.isNil then
        if first then failOperand 0 "index" o else failValue "index" o
      else if isCallable via then
        let _ ← call via #[o, k, v]
      else setIndexFrom false via k v fuel

def setIndex (o k v : Value) : Native Unit := setIndexFrom true o k v maxChain

/-- What the metatable of either operand says of an operation. -/
def binaryMethod (a b : Value) (event : ByteArray) : Native Value := do
  let m ← metamethod a event
  if m.isNil then metamethod b event else return m

def failNoInteger {α : Type} (a : Value) : Native α :=
  let index := match a.numeral?.bind Numeral.toInt64? with
    | some _ => 1
    | none => 0
  fail (.operand index "number".toUTF8 " has no integer representation".toUTF8)

/-- The operation on numbers, as far as it is defined. -/
def numericArith (op : ArithOp) (a b : Value) : Option (Except Numeral.Undefined Numeral) := do
  let m ← a.numeral?
  let n ← b.numeral?
  return Numeral.arith op m n

def arith (op : ArithOp) (a b : Value) : Native Value := do
  match numericArith op a b with
  | some (.ok n) => return .ofNumeral n
  | some (.error .divisionByZero) => failAtOperation "attempt to divide by zero"
  | some (.error .remainderByZero) => failAtOperation "attempt to perform 'n%0'"
  | _ =>
    let m ← binaryMethod a b (Event.arith op)
    if !m.isNil then call1 m #[a, b]
    else
      match a.numeral?, b.numeral? with
      | some _, some _ => failNoInteger a
      | some _, none =>
        failOperand 1
          (if Numeral.isBitwise op then "perform bitwise operation on" else "perform arithmetic on") b
      | none, _ =>
        failOperand 0
          (if Numeral.isBitwise op then "perform bitwise operation on" else "perform arithmetic on") a

def minus (a : Value) : Native Value := do
  match a.numeral? with
  | some n => return .ofNumeral n.negate
  | none =>
    let m ← metamethod a Event.unm
    if !m.isNil then call1 m #[a, a] else failOperand 0 "perform arithmetic on" a

def bnot (a : Value) : Native Value := do
  match a.numeral? with
  | some n =>
    match n.complement? with
    | some n => return .ofNumeral n
    | none => failNoInteger a
  | none =>
    let m ← metamethod a Event.bnot
    if !m.isNil then call1 m #[a, a] else failOperand 0 "perform bitwise operation on" a

def length (a : Value) : Native Value := do
  match a with
  | .string s => return .ofNat s.size
  | a =>
    let m ← metamethod a Event.len
    if !m.isNil then call1 m #[a, a]
    else
      match a with
      | .table id => return .ofNat (← read fun h => (h.table id).length)
      | a => failOperand 0 "get length of" a

def unary (op : UnaryOp) (a : Value) : Native Value :=
  match op with
  | .minus => minus a
  | .bnot => bnot a
  | .length => length a

/-- Tables and streams may say themselves when they are equal. -/
def equals (a b : Value) : Native Bool := do
  if a.rawEquals b then return true
  match a, b with
  | .table _, .table _ | .stream _, .stream _ =>
    let m ← binaryMethod a b Event.eq
    if m.isNil then return false else return (← call1 m #[a, b]).isTruthy
  | _, _ => return false

def failOrder {α : Type} (a b : Value) : Native α := do
  let s ← read (·.kindName a)
  let t ← read (·.kindName b)
  if s == t then fail (.atOperation ("attempt to compare two ".toUTF8 ++ s ++ " values".toUTF8))
  else fail (.atOperation ("attempt to compare ".toUTF8 ++ s ++ " with ".toUTF8 ++ t))

def lessThan (a b : Value) : Native Bool := do
  match a.numeral?, b.numeral? with
  | some m, some n => return Numeral.isLess m n
  | _, _ =>
    match a, b with
    | .string s, .string t => return s.order t == .lt
    | a, b =>
      let m ← binaryMethod a b Event.lt
      if m.isNil then failOrder a b else return (← call1 m #[a, b]).isTruthy

/-- Where no metatable knows `≤`, it is taken as the opposite of `<` the other way round. -/
def lessEqual (a b : Value) : Native Bool := do
  match a.numeral?, b.numeral? with
  | some m, some n => return Numeral.isLessEqual m n
  | _, _ =>
    match a, b with
    | .string s, .string t => return s.order t != .gt
    | a, b =>
      let m ← binaryMethod a b Event.le
      if !m.isNil then return (← call1 m #[a, b]).isTruthy
      let m ← binaryMethod b a Event.lt
      if m.isNil then failOrder a b else return !(← call1 m #[b, a]).isTruthy

def compare (rel : Relation) (a b : Value) : Native Bool :=
  match rel with
  | .eq => equals a b
  | .lt => lessThan a b
  | .le => lessEqual a b

/-- Joins values from the right: `acc` is what the operands from `items` on have given so far. -/
def concatFrom : List Value → Value → Native Value
  | [], acc => return acc
  | a :: rest, acc => do
    match a.text?, acc.text? with
    | some s, some t => concatFrom rest (.string (s ++ t))
    | sa, _ =>
      let m ← binaryMethod a acc Event.concat
      if !m.isNil then concatFrom rest (← call1 m #[a, acc])
      else if sa.isSome then failOperand (rest.length + 1) "concatenate" acc
      else failOperand rest.length "concatenate" a

/-- How many operands at the end of a list, given from the last on, are texts, and their bytes. -/
def textRun : List Value → List ByteArray → List ByteArray × List Value
  | [], acc => (acc, [])
  | v :: rest, acc =>
    match v.text? with
    | some s => textRun rest (s :: acc)
    | none => (acc, v :: rest)

/-- Joins values in one go where they are all texts, else two by two from the right. -/
def concat (items : Array Value) : Native Value := do
  match textRun items.toList.reverse [] with
  | (texts, []) => return .string (texts.foldl (· ++ ·) ByteArray.empty)
  | _ =>
    match items.toList.reverse with
    | [] => return .string ByteArray.empty
    | last :: rest => concatFrom rest last

/-- An address in place of the identity of a value. -/
def addressOf (v : Value) : String :=
  let n : Nat :=
    match v with
    | .table id => 0x1000 + 64 * id
    | .closure id => 0x2000 + 64 * id
    | .thread id => 0x3000 + 64 * id
    | .stream id => 0x4000 + 64 * id
    | .builtin f => (hash f).toNat % 2 ^ 28 * 16
    | _ => 0
  "0x" ++ String.ofList (Fixed.hexDigits 14 (0x55550000000000 % 2 ^ 56 / 256 + n % 2 ^ 40))

/-- The text of a value without asking its metatable for one. -/
def plainText (h : Heap) (v : Value) : ByteArray :=
  match v with
  | .nil => "nil".toUTF8
  | .bool b => (if b then "true" else "false").toUTF8
  | .int n => (Numeral.int n).text.toUTF8
  | .float x => (Numeral.float x).text.toUTF8
  | .string s => s
  | .failure message => message
  | v => h.kindName v ++ (": " ++ addressOf v).toUTF8

/-- The text that shows a value. -/
def toText (v : Value) : Native ByteArray := do
  let m ← metamethod v Event.tostring
  if m.isNil then read (plainText · v)
  else
    match (← call1 m #[v]).text? with
    | some s => return s
    | none => failAtCaller "'__tostring' must return a string"

end Native

end Gauge.Script
