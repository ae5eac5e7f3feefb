import Gauge.Script.Library.Arguments

/-!
Functions on tables as sequences. They read and store as scripts do, so that metatables have their
say.
-/

namespace Gauge.Script.Sequence

open Native

/-- An argument that is a table or, by what its metatable says, can stand for one. -/
def tableLike (args : Args) (i : Nat) (events : List ByteArray) : Native Value := do
  match args.value i with
  | .table id => return .table id
  | v =>
    let known ← read fun h =>
      (h.metatable v).isSome && events.all fun e => !(h.metamethod v e).isNil
    if known then return v
    else
      let _ ← args.table i
      return v

def reading : List ByteArray := [Event.index, Event.len]
def writing : List ByteArray := [Event.index, Event.newindex, Event.len]

/-- The length of a table as an integer. -/
def lengthOf (t : Value) : Native Int64 := do
  match ← length t with
  | .int n => return n
  | v =>
    match v.toInt64? with
    | some n => return n
    | none => failAtCaller "object length is not an integer"

def get (t : Value) (i : Int64) : Native Value := index t (.int i)
def set (t : Value) (i : Int64) (v : Value) : Native Unit := setIndex t (.int i) v

/-- Copies items from position `i` on to position `j` on, the first one first. -/
def copyUp (source target : Value) (i j : Int64) : Nat → Native Unit
  | 0 => pure ()
  | n + 1 => do
    set target j (← get source i)
    copyUp source target (i + 1) (j + 1) n

/-- As `copyUp`, but the last one first; the positions are those of the last. -/
def copyDown (source target : Value) (i j : Int64) : Nat → Native Unit
  | 0 => pure ()
  | n + 1 => do
    set target j (← get source i)
    copyDown source target (i - 1) (j - 1) n

def insert (args : Args) : Native (Array Value) := do
  let t ← tableLike args 1 writing
  let e := (← lengthOf t) + 1
  match args.size with
  | 2 => set t e (args.value 2)
  | 3 =>
    let pos ← args.integer 2
    if (pos - 1).toUInt64 ≥ e.toUInt64 then failArgument 2 "position out of bounds"
    copyDown t t (e - 1) e (e - pos).toInt.toNat
    set t pos (args.value 3)
  | _ => failAtCaller "wrong number of arguments to 'insert'"
  none_

def remove (args : Args) : Native (Array Value) := do
  let t ← tableLike args 1 writing
  let size ← lengthOf t
  let pos ← args.optInteger 2 size
  if args.size > 1 && (size + 1).toUInt64 < (pos - 1).toUInt64 + 1 then
    failArgument 2 "position out of bounds"
  let v ← get t pos
  copyUp t t (pos + 1) pos (size - pos).toInt.toNat
  set t (if pos < size then size else pos) .nil
  one v

def move (args : Args) : Native (Array Value) := do
  let f ← args.integer 2
  let e ← args.integer 3
  let t ← args.integer 4
  let source ← tableLike args 1 [Event.index]
  let target ← if args.isAbsent 5 then tableLike args 1 [Event.newindex]
    else tableLike args 5 [Event.newindex]
  if e ≥ f then
    let count := e.toInt - f.toInt + 1
    if !(f > 0 || e.toInt < 2 ^ 63 - 1 + f.toInt) then
      failArgument 3 "too many elements to move"
    if t.toInt > 2 ^ 63 - 1 - count + 1 then failArgument 4 "destination wrap around"
    let same ← if args.isAbsent 5 then pure true else equals source target
    if t > e || t ≤ f || !same then copyUp source target f t count.toNat
    else copyDown source target e (t + (e - f)) count.toNat
  one target

def concatFrom (t : Value) (sep : ByteArray) (last : Int64) : Nat → Int64 → ByteArray → Native ByteArray
  | 0, _, acc => return acc
  | n + 1, i, acc => do
    match (← get t i).text? with
    | none =>
      failAtCaller ("invalid value (at index " ++ toString i.toInt ++ ") in table for 'concat'")
    | some s =>
      let acc := acc ++ s
      concatFrom t sep last n (i + 1) (if i == last then acc else acc ++ sep)

def concat (args : Args) : Native (Array Value) := do
  let t ← tableLike args 1 reading
  let size ← lengthOf t
  let sep ← args.optText 2 ByteArray.empty
  let first ← args.optInteger 3 1
  let last ← args.optInteger 4 size
  text (← concatFrom t sep last (last.toInt - first.toInt + 1).toNat first ByteArray.empty)

def pack (args : Args) : Native (Array Value) := do
  let t := (Table.ofArray args).set (.string "n".toUTF8) (.ofNat args.size)
  one (← newTable t)

def unpackFrom (t : Value) : Nat → Int64 → Array Value → Native (Array Value)
  | 0, _, acc => return acc
  | n + 1, i, acc => do
    let v ← get t i
    unpackFrom t n (i + 1) (acc.push v)

def unpack (args : Args) : Native (Array Value) := do
  let t := args.value 1
  let first ← args.optInteger 2 1
  let last ← if args.isAbsent 3 then lengthOf t else args.integer 3
  if first > last then none_
  else
    let count := (last.toInt - first.toInt + 1).toNat
    if count ≥ (← inspect).room then failAtCaller "too many results to unpack"
    unpackFrom t count first #[]

/-! Sorting picks the middle of three items, moves what is less before it and the rest behind it, and
sorts both parts, the shorter one first. -/

def isLess (order : Value) (a b : Value) : Native Bool := do
  if order.isNil then lessThan a b else return (← call1 order #[a, b]).isTruthy

def swap (t : Value) (i j : Int64) (atI atJ : Value) : Native Unit := do
  set t i atI
  set t j atJ

def invalidOrder {α : Type} : Native α := failAtCaller "invalid order function for sorting"

/-- The first item from behind `i` on that is not less than the pivot, with its position. -/
def scanUp (t order pivot : Value) (up : Int64) : Nat → Int64 → Native (Int64 × Value)
  | 0, _ => invalidOrder
  | fuel + 1, i => do
    let i := i + 1
    let v ← get t i
    if ← isLess order v pivot then
      if i == up - 1 then invalidOrder
      scanUp t order pivot up fuel i
    else return (i, v)

/-- The last item before `j` that the pivot is not less than, with its position. -/
def scanDown (t order pivot : Value) (i : Int64) : Nat → Int64 → Native (Int64 × Value)
  | 0, _ => invalidOrder
  | fuel + 1, j => do
    let j := j - 1
    let v ← get t j
    if ← isLess order pivot v then
      if j < i then invalidOrder
      scanDown t order pivot i fuel j
    else return (j, v)

/-- Divides the items between `lo` and `up` around the pivot, which is at `up - 1`; gives its place. -/
def partition (t order pivot : Value) (up : Int64) (size : Nat) :
    Nat → Int64 → Int64 → Native Int64
  | 0, _, _ => invalidOrder
  | fuel + 1, i, j => do
    let (i, vi) ← scanUp t order pivot up size i
    let (j, vj) ← scanDown t order pivot i size j
    if j < i then
      let last ← get t (up - 1)
      swap t (up - 1) i vi last
      return i
    else
      swap t i j vj vi
      partition t order pivot up size fuel i j

def sortBetween (t order : Value) (size : Nat) : Nat → Int64 → Int64 → Native Unit
  | 0, _, _ => pure ()
  | fuel + 1, lo, up => do
    if lo ≥ up then return ()
    let a ← get t lo
    let b ← get t up
    if ← isLess order b a then swap t lo up b a
    if up - lo == 1 then return ()
    let p := (lo + up) / 2
    let c ← get t p
    let a ← get t lo
    if ← isLess order c a then swap t p lo a c
    else
      let b ← get t up
      if ← isLess order b c then swap t p up b c
    if up - lo == 2 then return ()
    let pivot ← get t p
    let last ← get t (up - 1)
    swap t p (up - 1) last pivot
    let p ← partition t order pivot up size size lo (up - 1)
    if p - lo < up - p then
      sortBetween t order size fuel lo (p - 1)
      sortBetween t order size fuel (p + 1) up
    else
      sortBetween t order size fuel (p + 1) up
      sortBetween t order size fuel lo (p - 1)

def sort (args : Args) : Native (Array Value) := do
  let t ← tableLike args 1 writing
  let size ← lengthOf t
  if size > 1 then
    if size ≥ 2147483647 then failArgument 1 "array too big"
    if !args.isAbsent 2 then
      let _ ← args.function 2
    let n := size.toInt.toNat
    sortBetween t (args.value 2) (n + 2) (n + 2) 1 size
  none_

def run (f : TableFunction) (args : Args) : Native (Array Value) :=
  match f with
  | .concat => concat args
  | .insert => insert args
  | .move => move args
  | .pack => pack args
  | .remove => remove args
  | .sort => sort args
  | .unpack => unpack args

end Gauge.Script.Sequence
