import Gauge.Script.Numeral

/-!
The syntax of scripts after names are resolved. A local variable is given by its number among all
that its function declares, a variable of an enclosing function by its place in the list of captured
variables. Lines are those a run-time error names.
-/

namespace Gauge.Script

inductive ArithOp where
  | add | sub | mul | mod | pow | div | idiv | band | bor | bxor | shl | shr
deriving DecidableEq, BEq, Hashable, Repr

inductive UnaryOp where
  | minus | bnot | length
deriving DecidableEq, BEq, Repr

inductive CompareOp where
  | eq | ne | lt | le | gt | ge
deriving DecidableEq, BEq, Repr

inductive Variable where
  | local (id : Nat)
  | captured (index : Nat)

/-- Where a function finds a captured variable when it is made: among the locals of the enclosing
function or among what that one has captured. -/
inductive Capture where
  | enclosingLocal (id : Nat)
  | enclosingCaptured (index : Nat)

/-- A literal, or a variable known to be one. -/
inductive Literal where
  | nil
  | bool (b : Bool)
  | number (n : Numeral)
  | string (s : ByteArray)

/-- What a declaration says about a local variable. -/
inductive LocalMode where
  | regular
  | constant
  | toBeClosed
deriving DecidableEq, BEq

mutual

inductive Expr where
  | literal (l : Literal)
  | varargs
  | function (f : Function)
  | variable (x : Variable) (name : ByteArray)
  | index (object key : Expr) (line : Nat)
  | call (f : Expr) (args : ExprList) (line : Nat)
  | method (object : Expr) (name : ByteArray) (args : ExprList) (nameLine line : Nat)
  /-- An expression in parentheses, cut to one value. -/
  | paren (e : Expr)
  | and (a b : Expr)
  | or (a b : Expr)
  | not (a : Expr)
  | unary (op : UnaryOp) (a : Expr) (line : Nat)
  | arith (op : ArithOp) (a b : Expr) (line : Nat)
  | compare (op : CompareOp) (a b : Expr) (line : Nat)
  /-- Two or more operands joined in one go. -/
  | concat (items : ExprList) (line : Nat)
  | table (fields : FieldList) (line : Nat)

inductive ExprList where
  | nil
  | cons (e : Expr) (rest : ExprList)

inductive FieldList where
  | nil
  | item (e : Expr) (line : Nat) (rest : FieldList)
  | field (key value : Expr) (line : Nat) (rest : FieldList)

inductive Statement where
  | local (ids : List (Nat × LocalMode)) (values : ExprList) (line : Nat)
  | localFunction (id : Nat) (f : Function)
  | assign (targets : ExprList) (values : ExprList) (line : Nat)
  | call (e : Expr)
  | block (body : StatementList)
  | while (condition : Expr) (body : StatementList) (leave : Nat)
  | repeat (body : StatementList) (condition : Expr) (leave : Nat)
  | if (arms : ArmList) (otherwise : StatementList)
  | count (id : Nat) (bounds : ExprList) (body : StatementList) (leave prepareLine : Nat)
  | each (ids : List Nat) (values : ExprList) (body : StatementList) (leave prepareLine line : Nat)
  | return (values : ExprList) (tail : Bool) (line : Nat)
  /-- A jump by its number: `Function.jumps` says to which label. -/
  | goto (jump : Nat)
  | label (id : Nat)

inductive StatementList where
  | nil
  | cons (s : Statement) (rest : StatementList)

inductive ArmList where
  | nil
  | cons (condition : Expr) (body : StatementList) (rest : ArmList)

inductive Function where
  /-- `isCaptured` marks the locals that inner functions use, `jumps` gives the label of each jump,
  `labels` how many variables to be closed are in scope at each label. -/
  | mk (params : List Nat) (isVarargs : Bool) (body : StatementList) (captures : Array Capture)
      (captureNames localNames : Array ByteArray) (isCaptured : Array Bool)
      (jumps labels : Array Nat) (stack lineDefined : Nat)

end

instance : Inhabited Expr := ⟨.literal .nil⟩

namespace ExprList

def append : ExprList → ExprList → ExprList
  | .nil, l => l
  | .cons e rest, l => .cons e (append rest l)

def length : ExprList → Nat
  | .nil => 0
  | .cons _ rest => rest.length + 1

def ofList : List Expr → ExprList
  | [] => .nil
  | e :: rest => .cons e (ofList rest)

end ExprList

namespace StatementList

def ofList : List Statement → StatementList
  | [] => .nil
  | s :: rest => .cons s (ofList rest)

end StatementList

namespace FieldList

def ofList : List (Option Expr × Expr × Nat) → FieldList
  | [] => .nil
  | (none, e, line) :: rest => .item e line (ofList rest)
  | (some k, e, line) :: rest => .field k e line (ofList rest)

end FieldList

namespace Expr

/-- Whether the expression can give any number of values. -/
def isMulti : Expr → Bool
  | .call .. | .method .. | .varargs => true
  | _ => false

def isCall : Expr → Bool
  | .call .. | .method .. => true
  | _ => false

end Expr

end Gauge.Script
