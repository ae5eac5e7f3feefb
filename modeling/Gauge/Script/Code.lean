import Gauge.Script.Value

/-!
The code a function is turned into: instructions over numbered slots. A local variable that inner
functions use lives in a cell of its own, so that they share it; all others live in slots.
-/

namespace Gauge.Script

inductive Operand where
  | slot (i : Nat)
  | cell (i : Nat)
  | captured (i : Nat)
  | constant (v : Value)
deriving DecidableEq

/-- How many values a call or an expression is wanted for. -/
inductive Wanted where
  | exactly (n : Nat)
  /-- As many as there are; they are kept aside for the instruction that uses them up. -/
  | all
deriving DecidableEq, BEq

/-- Values in consecutive slots, and after them those kept aside if `andOpen`. -/
structure Run where
  first : Nat
  count : Nat
  andOpen : Bool
deriving DecidableEq

/-- How an order of operands is tested. -/
inductive Relation where
  | eq | lt | le
deriving DecidableEq, BEq

inductive Instr where
  | move (dst : Nat) (src : Operand)
  | setCell (cell : Nat) (src : Operand)
  | setCaptured (i : Nat) (src : Operand)
  /-- A new variable in a cell, apart from the one an earlier round of a loop had there. -/
  | newCell (cell : Nat) (src : Operand)
  | closure (dst : Nat) (inner : Nat)
  | newTable (dst arraySize hashSize : Nat)
  | setList (table : Nat) (values : Run) (from_ : Nat)
  | index (dst : Nat) (object key : Operand)
  | setIndex (object key value : Operand)
  | method (dst : Nat) (object : Operand) (name : ByteArray)
  | arith (op : ArithOp) (dst : Nat) (a b : Operand)
  | unary (op : UnaryOp) (dst : Nat) (a : Operand)
  | not (dst : Nat) (a : Operand)
  | concat (dst first count : Nat)
  | compare (rel : Relation) (dst : Nat) (a b : Operand) (negated : Bool)
  | jump (target : Nat)
  /-- Jumps if the operand's truth is `expected`. -/
  | branch (a : Operand) (expected : Bool) (target : Nat)
  | branchCompare (rel : Relation) (a b : Operand) (expected : Bool) (target : Nat)
  | call (base : Nat) (args : Run) (wanted : Wanted)
  | tailCall (base : Nat) (args : Run)
  | return (values : Run)
  | varargs (dst : Nat) (wanted : Wanted)
  | countPrepare (base target : Nat)
  | countNext (base target : Nat)
  | eachCall (base wanted : Nat)
  | eachNext (base target : Nat)
  | markToBeClosed (slot : Nat) (name : ByteArray)
  /-- Closes the variables to be closed in slots from `from_` on. -/
  | closeFrom (from_ : Nat)
deriving DecidableEq

/-- What an operand was in the text of the script, as far as a message can say. -/
inductive Origin where
  | unknown
  | local (name : ByteArray)
  | captured (name : ByteArray)
  | global (name : ByteArray)
  | field (name : ByteArray)
  | method (name : ByteArray)
  | constant (text : ByteArray)
  | loopIterator
deriving DecidableEq

/-- The line of an instruction and the origins of its operands. -/
structure Note where
  line : Nat
  origins : Array Origin
deriving DecidableEq, Inhabited

instance : Inhabited Instr := ⟨.jump 0⟩

/-- Where a new closure finds a variable it captures: in a cell of the function that makes it or
among what that one has captured. -/
inductive CodeCapture where
  | cell (i : Nat)
  | captured (i : Nat)
deriving DecidableEq

/-- `params` counts the parameters, which take the first slots; `stack` is the room that a call of the
function asks for. -/
structure Code where
  params : Nat
  isVarargs : Bool
  slots : Nat
  cells : Nat
  stack : Nat
  instrs : Array Instr
  notes : Array Note
  captures : Array CodeCapture
  inner : Array Code
deriving Inhabited

/-! Code is compared together with that of the functions in it. -/

mutual

def Code.decEq : (c d : Code) → Decidable (c = d)
  | ⟨params, isVarargs, slots, cells, stack, instrs, notes, captures, ⟨inner⟩⟩,
    ⟨params', isVarargs', slots', cells', stack', instrs', notes', captures', ⟨inner'⟩⟩ =>
    have := Code.decEqAll inner inner'
    decidable_of_iff (params = params' ∧ isVarargs = isVarargs' ∧ slots = slots' ∧ cells = cells' ∧
      stack = stack' ∧ instrs = instrs' ∧ notes = notes' ∧ captures = captures' ∧ inner = inner') (by simp)

def Code.decEqAll : (cs ds : List Code) → Decidable (cs = ds)
  | [], [] => .isTrue rfl
  | [], _ :: _ => .isFalse nofun
  | _ :: _, [] => .isFalse nofun
  | c :: cs, d :: ds =>
    have := Code.decEq c d
    have := Code.decEqAll cs ds
    decidable_of_iff (c = d ∧ cs = ds) (by simp)

end

instance : DecidableEq Code := Code.decEq

end Gauge.Script
