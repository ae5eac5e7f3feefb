import Gauge.Script.Code
import Gauge.Script.Syntax.Parser

/-!
Turning the syntax of a function into code. Intermediate results take the slots above those of the
locals in scope. What is read early and what late is part of the language: a local operand is read
when the operation is carried out, a captured one before the operand to its right is evaluated.
-/

namespace Gauge.Script.Generator

structure State where
  captureNames : Array ByteArray
  localNames : Array ByteArray
  isCaptured : Array Bool
  /-- For each jump its label, for each label the number of variables to be closed there. -/
  jumps : Array Nat
  labelDepths : Array Nat
  instrs : Array Instr
  notes : Array Note
  places : Array Operand
  free : Nat
  slots : Nat
  freeCell : Nat
  cells : Nat
  /-- Where each label stands; jumps name labels until the code is complete. -/
  labels : Array Nat
  /-- The slots of the variables to be closed in scope, the innermost first. -/
  closing : List Nat
  inner : Array Code

abbrev Gen := StateM State

/-- What an expression is evaluated for. -/
inductive Goal where
  | slot (dst : Nat)
  /-- Any operand. -/
  | any
  /-- A jump to a label if its truth is `expected`. -/
  | branch (expected : Bool) (label : Nat)
  /-- All its values, kept aside. -/
  | all
  /-- So many values, from a slot on. -/
  | values (first count : Nat)

/-- An operand and where it came from. -/
abbrev Result := Operand × Origin

def emit (i : Instr) (line : Nat) (origins : Array Origin) : Gen Unit :=
  modify fun s => { s with instrs := s.instrs.push i, notes := s.notes.push ⟨line, origins⟩ }

def emitPlain (i : Instr) : Gen Unit := emit i 0 #[]

def newSlot : Gen Nat := do
  let s ← get
  set { s with free := s.free + 1, slots := max s.slots (s.free + 1) }
  return s.free

def newSlots : Nat → Gen Nat
  | 0 => return (← get).free
  | n + 1 => do
    let first ← newSlot
    let _ ← newSlots n
    return first

def release (free : Nat) : Gen Unit := modify fun s => { s with free := free }

def newLabel : Gen Nat := do
  let s ← get
  set { s with labels := s.labels.push 0 }
  return s.labels.size

def place (label : Nat) : Gen Unit :=
  modify fun s => { s with labels := s.labels.setIfInBounds label s.instrs.size }

def setPlace (id : Nat) (operand : Operand) : Gen Unit :=
  modify fun s => { s with places := s.places.setIfInBounds id operand }

def operandOf (x : Variable) : Gen Operand := do
  match x with
  | .local id => return (← get).places.getD id (.constant .nil)
  | .captured i => return .captured i

def originOf (x : Variable) (name : ByteArray) : Origin :=
  match x with
  | .local _ => .local name
  | .captured _ => .captured name

def isSimple : Expr → Bool
  | .literal _ | .variable .. => true
  | _ => false

def isText : Expr → Bool
  | .literal (.string _) => true
  | _ => false

def literalOrigin : Literal → Origin
  | .string s => .constant s
  | _ => .unknown

/-- What a message calls a value read from a table. -/
def indexOrigin (object key : Expr) : Origin :=
  match key with
  | .literal (.string k) =>
    match object with
    | .variable _ name => if name == Parser.environmentName then .global k else .field k
    | _ => .field k
  | .literal (.number (.int n)) =>
    .field (if 0 ≤ n && n ≤ 255 then "integer index".toUTF8 else "?".toUTF8)
  | _ => .field "?".toUTF8

/-- Hands over a value that is at hand as an operand. -/
def deliver (goal : Goal) (r : Result) : Gen Result := do
  match goal with
  | .any | .all => return r
  | .slot dst =>
    emitPlain (.move dst r.1)
    return (.slot dst, r.2)
  | .values first count =>
    if count > 0 then emitPlain (.move first r.1)
    for i in [1:count] do emitPlain (.move (first + i) (.constant .nil))
    return r
  | .branch expected label =>
    emitPlain (.branch r.1 expected label)
    return r

/-- The slot to compute a result in, and what is left to do with it. -/
def resultSlot (goal : Goal) : Gen (Nat × Goal) := do
  match goal with
  | .slot dst => return (dst, .any)
  | .values first count => if count == 1 then return (first, .any) else return (← newSlot, goal)
  | goal => return (← newSlot, goal)

/-- As `resultSlot`, for a result that is built up in its slot: one above all others in use. -/
def freshSlot (goal : Goal) : Gen (Nat × Goal) := do
  match goal with
  | .slot dst =>
    if dst + 1 == (← get).free then return (dst, .any) else return (← newSlot, goal)
  | goal => return (← newSlot, goal)

/-- Where a call puts its function, with nothing in use from there on, and what is left to do with the
results. -/
def callBase (goal : Goal) : Gen (Nat × Goal) := do
  let free := (← get).free
  let (base, rest) : Nat × Goal :=
    match goal with
    | .slot dst => if dst + 1 == free then (dst, .any) else (free, goal)
    | .values first _ => if first + 1 == free then (first, .any) else (free, goal)
    | .all => (free, .any)
    | goal => (free, goal)
  release base
  return (base, rest)

def wantedFor (goal : Goal) : Wanted :=
  match goal with
  | .all => .all
  | .values _ count => .exactly count
  | _ => .exactly 1

/-- Hands over the results of a call, which stand from its base slot on. -/
def finishCall (goal rest : Goal) (base : Nat) : Gen Result := do
  match goal with
  | .all =>
    release base
    return (.constant .nil, .unknown)
  | .values first count =>
    release base
    let _ ← newSlots count
    match rest with
    | .any => return (.slot first, .unknown)
    | _ =>
      for i in [0:count] do emitPlain (.move (first + i) (.slot (base + i)))
      release (max base (first + count))
      return (.slot first, .unknown)
  | _ =>
    release (base + 1)
    deliver rest (.slot base, .unknown)

/-- Copies a captured variable, unless what is evaluated next cannot change it. -/
def readEarly (r : Result) (next : Expr) : Gen Result := do
  match r.1 with
  | .captured i =>
    if isSimple next then return r
    else
      let t ← newSlot
      emitPlain (.move t (.captured i))
      return (.slot t, r.2)
  | _ => return r

def copyCaptured (o : Operand) : Gen Operand := do
  match o with
  | .captured i =>
    let t ← newSlot
    emitPlain (.move t (.captured i))
    return .slot t
  | o => return o

/-- Puts a new local whose initial value is in a slot into place. -/
def bindLocal (id slot : Nat) : Gen Unit := do
  let s ← get
  if s.isCaptured.getD id false then
    set { s with freeCell := s.freeCell + 1, cells := max s.cells (s.freeCell + 1) }
    emitPlain (.newCell s.freeCell (.slot slot))
    setPlace id (.cell s.freeCell)
  else setPlace id (.slot slot)

def closeDownTo (depth : Nat) : Gen Unit := do
  let closing := (← get).closing
  if closing.length > depth then
    match closing[closing.length - depth - 1]? with
    | some slot => emitPlain (.closeFrom slot)
    | none => pure ()

/-- Runs a part in a block of its own: its locals give back their room at the end. -/
def inBlock (part : Gen Unit) : Gen Unit := do
  let before ← get
  part
  closeDownTo before.closing.length
  modify fun s => { s with
    free := before.free, freeCell := before.freeCell, closing := before.closing }

/-- Where a value is to be stored. -/
inductive Target where
  | place (o : Operand)
  | index (object key : Operand) (line : Nat) (origins : Array Origin)
  | nowhere

def sameVariable (a b : Operand) : Bool :=
  match a, b with
  | .slot i, .slot j => i == j
  | .cell i, .cell j => i == j
  | .captured i, .captured j => i == j
  | _, _ => false

/-- An access through a variable that the same statement assigns to uses the value it has before. -/
def keepBefore (assigned copy : Operand) (t : Target) : Target :=
  match t with
  | .index o k line origins =>
    .index (if sameVariable o assigned then copy else o) (if sameVariable k assigned then copy else k)
      line origins
  | t => t

def usesVariable (assigned : Operand) : Target → Bool
  | .index o k _ _ => sameVariable o assigned || sameVariable k assigned
  | _ => false

/-- Copies each assigned variable that an earlier target makes use of. -/
def resolveConflicts : List Target → List Target → Gen (List Target)
  | done, [] => return done.reverse
  | done, .place o :: rest => do
    if done.any (usesVariable o) then
      let t ← newSlot
      emitPlain (.move t o)
      resolveConflicts (.place o :: done.map (keepBefore o (.slot t))) rest
    else resolveConflicts (.place o :: done) rest
  | done, t :: rest => resolveConflicts (t :: done) rest

def store (t : Target) (v : Operand) : Gen Unit := do
  match t with
  | .place (.slot i) => emitPlain (.move i v)
  | .place (.cell i) => emitPlain (.setCell i v)
  | .place (.captured i) => emitPlain (.setCaptured i v)
  | .place (.constant _) | .nowhere => pure ()
  | .index o k line origins => emit (.setIndex o k v) line origins

/-- Stores the values in slots from `first` on, the last one first. -/
def storeAll (targets : List Target) (first : Nat) : Gen Unit := do
  match targets with
  | [] => pure ()
  | t :: rest =>
    storeAll rest (first + 1)
    store t (.slot first)

/-- Stores in a table are made in batches of at most this many items. -/
def itemsPerBatch : Nat := 50

def countItems : FieldList → Nat
  | .nil => 0
  | .item e _ .nil => if e.isMulti then 0 else 1
  | .item _ _ rest => countItems rest + 1
  | .field _ _ _ rest => countItems rest

def countFields : FieldList → Nat
  | .nil => 0
  | .item _ _ rest => countFields rest
  | .field _ _ _ rest => countFields rest + 1

def targetOf (e : Expr) : Option (Expr × Expr × Nat) :=
  match e with
  | .index o k line => some (o, k, line)
  | _ => none

def relationOf : CompareOp → Relation × Bool × Bool
  | .eq => (.eq, false, false)
  | .ne => (.eq, false, true)
  | .lt => (.lt, false, false)
  | .le => (.le, false, false)
  | .gt => (.lt, true, false)
  | .ge => (.le, true, false)

/-- Jumps name labels while code is made; this puts in their positions. -/
def linkInstr (labels : Array Nat) (i : Instr) : Instr :=
  let at_ (l : Nat) := labels.getD l 0
  match i with
  | .jump l => .jump (at_ l)
  | .branch a e l => .branch a e (at_ l)
  | .branchCompare r a b e l => .branchCompare r a b e (at_ l)
  | .countPrepare base l => .countPrepare base (at_ l)
  | .countNext base l => .countNext base (at_ l)
  | .eachNext base l => .eachNext base (at_ l)
  | i => i

def captureOf (places : Array Operand) : Capture → CodeCapture
  | .enclosingLocal id =>
    match places.getD id (.constant .nil) with
    | .cell i => .cell i
    | _ => .cell 0
  | .enclosingCaptured i => .captured i

def emptyState (captureNames localNames : Array ByteArray) (isCaptured : Array Bool)
    (jumps labelDepths : Array Nat) : State :=
  { captureNames, localNames, isCaptured, jumps, labelDepths
    instrs := #[], notes := #[], places := Array.replicate localNames.size (.constant .nil)
    free := 0, slots := 0, freeCell := 0, cells := 0
    labels := Array.replicate labelDepths.size 0, closing := [], inner := #[] }

def bindLocals : List Nat → Nat → Gen Unit
  | [], _ => pure ()
  | id :: rest, slot => do
    bindLocal id slot
    bindLocals rest (slot + 1)

/-- Marks the variables of a declaration that are to be closed. -/
def markLocals : List (Nat × LocalMode) → Nat → Nat → Gen Unit
  | [], _, _ => pure ()
  | (id, mode) :: rest, slot, line => do
    if mode == .toBeClosed then
      let name := (← get).localNames.getD id ByteArray.empty
      emit (.markToBeClosed slot name) line #[]
      modify fun s => { s with closing := slot :: s.closing }
    markLocals rest (slot + 1) line

/-- Puts nil into new slots. -/
def fillNil : Nat → Gen Unit
  | 0 => pure ()
  | n + 1 => do
    let t ← newSlot
    emitPlain (.move t (.constant .nil))
    fillNil n

mutual

def expr (goal : Goal) : Expr → Gen Result
  | .literal l => deliver goal (.constant (Value.ofLiteral l), literalOrigin l)
  | .varargs => do
    match goal with
    | .all =>
      emitPlain (.varargs 0 .all)
      return (.constant .nil, .unknown)
    | .values first count =>
      emitPlain (.varargs first (.exactly count))
      return (.slot first, .unknown)
    | goal =>
      let (dst, rest) ← resultSlot goal
      emitPlain (.varargs dst (.exactly 1))
      deliver rest (.slot dst, .unknown)
  | .function f => do
    let (dst, rest) ← resultSlot goal
    let (captures, code) := function f
    let places := (← get).places
    let linked := { code with captures := captures.map (captureOf places) }
    let inner := (← get).inner
    modify fun s => { s with inner := s.inner.push linked }
    emitPlain (.closure dst inner.size)
    deliver rest (.slot dst, .unknown)
  | .variable x name => do deliver goal (← operandOf x, originOf x name)
  | .paren e => do
    match goal with
    | .all => expr .any e
    | .values first count =>
      let r ← expr (.slot first) e
      for i in [1:count] do emitPlain (.move (first + i) (.constant .nil))
      return r
    | goal => expr goal e
  | .index object key line => do
    let base := (← get).free
    let (o, oo) ← expr .any object
    let (k, _) ← expr .any key
    release base
    let (dst, rest) ← resultSlot goal
    emit (.index dst o k) line #[oo]
    deliver rest (.slot dst, indexOrigin object key)
  | .call f args line => do
    let (base, rest) ← callBase goal
    let _ ← newSlot
    let (_, origin) ← expr (.slot base) f
    let run ← exprRun (base + 1) args
    emit (.call base run (wantedFor goal)) line #[origin]
    finishCall goal rest base
  | .method object name args nameLine line => do
    let (base, rest) ← callBase goal
    let _ ← newSlots 2
    let (o, origin) ← expr .any object
    emit (.method base o name) nameLine #[origin]
    release (base + 2)
    let run ← exprRun (base + 2) args
    emit (.call base { run with first := base + 1, count := run.count + 1 } (wantedFor goal)) line #[.method name]
    finishCall goal rest base
  | .and a b => do
    match goal with
    | .branch true label =>
      let skip ← newLabel
      let base := (← get).free
      let _ ← expr (.branch false skip) a
      release base
      let _ ← expr (.branch true label) b
      release base
      place skip
      return (.constant .nil, .unknown)
    | .branch false label =>
      let base := (← get).free
      let _ ← expr (.branch false label) a
      release base
      let _ ← expr (.branch false label) b
      release base
      return (.constant .nil, .unknown)
    | goal =>
      let (dst, rest) ← freshSlot goal
      let skip ← newLabel
      let _ ← expr (.slot dst) a
      emitPlain (.branch (.slot dst) false skip)
      release (dst + 1)
      let _ ← expr (.slot dst) b
      release (dst + 1)
      place skip
      deliver rest (.slot dst, .unknown)
  | .or a b => do
    match goal with
    | .branch false label =>
      let skip ← newLabel
      let base := (← get).free
      let _ ← expr (.branch true skip) a
      release base
      let _ ← expr (.branch false label) b
      release base
      place skip
      return (.constant .nil, .unknown)
    | .branch true label =>
      let base := (← get).free
      let _ ← expr (.branch true label) a
      release base
      let _ ← expr (.branch true label) b
      release base
      return (.constant .nil, .unknown)
    | goal =>
      let (dst, rest) ← freshSlot goal
      let skip ← newLabel
      let _ ← expr (.slot dst) a
      emitPlain (.branch (.slot dst) true skip)
      release (dst + 1)
      let _ ← expr (.slot dst) b
      release (dst + 1)
      place skip
      deliver rest (.slot dst, .unknown)
  | .not a => do
    match goal with
    | .branch expected label => expr (.branch (!expected) label) a
    | goal =>
      let base := (← get).free
      let (o, _) ← expr .any a
      release base
      let (dst, rest) ← resultSlot goal
      emitPlain (.not dst o)
      deliver rest (.slot dst, .unknown)
  | .unary op a line => do
    let base := (← get).free
    let (o, origin) ← expr .any a
    release base
    let (dst, rest) ← resultSlot goal
    emit (.unary op dst o) line #[origin]
    deliver rest (.slot dst, .unknown)
  | .arith op a b line => do
    let base := (← get).free
    let ra ← expr .any a
    let (x, ox) ← readEarly ra b
    let (y, oy) ← expr .any b
    release base
    let (dst, rest) ← resultSlot goal
    emit (.arith op dst x y) line #[ox, oy]
    deliver rest (.slot dst, .unknown)
  | .compare op a b line => do
    let base := (← get).free
    let ra ← expr .any a
    let (x, _) ← readEarly ra b
    let (y, _) ← expr .any b
    release base
    let (rel, swapped, negated) := relationOf op
    let (x, y) := if swapped then (y, x) else (x, y)
    match goal with
    | .branch expected label =>
      emit (.branchCompare rel x y (expected != negated) label) line #[]
      return (.constant .nil, .unknown)
    | goal =>
      let (dst, rest) ← resultSlot goal
      emit (.compare rel dst x y negated) line #[]
      deliver rest (.slot dst, .unknown)
  | .concat items line => do
    let base := (← get).free
    let origins ← exprOrigins items
    release base
    let (dst, rest) ← resultSlot goal
    emit (.concat dst base origins.size) line origins
    deliver rest (.slot dst, .unknown)
  | .table fields line => do
    let (dst, rest) ← freshSlot goal
    emit (.newTable dst (countItems fields) (countFields fields)) line #[]
    tableFields dst 1 0 fields
    release (dst + 1)
    deliver rest (.slot dst, .unknown)

/-- Evaluates operands into consecutive new slots. -/
def exprOrigins : ExprList → Gen (Array Origin)
  | .nil => return #[]
  | .cons e rest => do
    let t ← newSlot
    let (_, origin) ← expr (.slot t) e
    release (t + 1)
    return #[origin] ++ (← exprOrigins rest)

/-- Evaluates expressions into slots from `first` on; the values of a last one that can have many are
kept aside. -/
def exprRun (first : Nat) : ExprList → Gen Run
  | .nil => return ⟨first, 0, false⟩
  | .cons e .nil => do
    if e.isMulti then
      let _ ← expr .all e
      return ⟨first, 0, true⟩
    else
      let t ← newSlot
      let _ ← expr (.slot t) e
      release (t + 1)
      return ⟨first, 1, false⟩
  | .cons e rest => do
    let t ← newSlot
    let _ ← expr (.slot t) e
    release (t + 1)
    let run ← exprRun first rest
    return { run with count := run.count + 1 }

/-- Evaluates expressions for exactly `count` values in new slots. -/
def exprValues : Nat → ExprList → Gen Unit
  | n, .nil => fillNil n
  | 0, .cons e rest => do
    let base := (← get).free
    let t ← newSlot
    let _ ← expr (.slot t) e
    release base
    exprValues 0 rest
  | n + 1, .cons e .nil => do
    let t ← newSlot
    let _ ← expr (.values t (n + 1)) e
    release (t + n + 1)
    modify fun s => { s with slots := max s.slots (t + n + 1) }
  | n + 1, .cons e rest => do
    let t ← newSlot
    let _ ← expr (.slot t) e
    release (t + 1)
    exprValues n rest

/-- The fields of a table in slot `dst`: `next` is the index of the next batch of items, `waiting`
how many items wait above the table to be stored. -/
def tableFields (dst next waiting : Nat) : FieldList → Gen Unit
  | .nil => do
    if waiting > 0 then emitPlain (.setList dst ⟨dst + 1, waiting, false⟩ next)
  | .item e line .nil => do
    if e.isMulti then
      let _ ← expr .all e
      emit (.setList dst ⟨dst + 1, waiting, true⟩ next) line #[]
    else
      let t ← newSlot
      let _ ← expr (.slot t) e
      emit (.setList dst ⟨dst + 1, waiting + 1, false⟩ next) line #[]
  | .item e line rest => do
    let t ← newSlot
    let _ ← expr (.slot t) e
    release (t + 1)
    if waiting + 1 == itemsPerBatch then
      emit (.setList dst ⟨dst + 1, itemsPerBatch, false⟩ next) line #[]
      release (dst + 1)
      tableFields dst (next + itemsPerBatch) 0 rest
    else tableFields dst next (waiting + 1) rest
  | .field key value line rest => do
    let base := (← get).free
    let (k, _) ← expr .any key
    let k ← copyCaptured k
    let (v, _) ← expr .any value
    emit (.setIndex (.slot dst) k v) line #[.unknown]
    release base
    tableFields dst next waiting rest

/-- The targets of an assignment. -/
def targets : ExprList → Gen (List Target)
  | .nil => return []
  | .cons (.variable x _) rest => do
    let o ← operandOf x
    return .place o :: (← targets rest)
  | .cons (.index object key line) rest => do
    let (o, origin) ← expr .any object
    let (k, _) ← expr .any key
    let k ← copyCaptured k
    let o ← if isText key then pure o else copyCaptured o
    return .index o k line #[origin] :: (← targets rest)
  | .cons _ rest => do return .nowhere :: (← targets rest)

/-- Evaluates as many expressions as there are targets, storing the last value at once. -/
def assignEqual : List Target → ExprList → Gen Unit
  | [t], .cons e .nil => do
    match t with
    | .place (.slot i) =>
      let _ ← expr (.slot i) e
    | t =>
      let (v, _) ← expr .any e
      store t v
  | t :: more, .cons e rest => do
    let slot ← newSlot
    let _ ← expr (.slot slot) e
    release (slot + 1)
    assignEqual more rest
    store t (.slot slot)
  | _, _ => pure ()

def statement : Statement → Gen Unit
  | .local ids values line => do
    let first := (← get).free
    exprValues ids.length values
    release (first + ids.length)
    bindLocals (ids.map (·.1)) first
    markLocals ids first line
  | .localFunction id f => do
    let slot ← newSlot
    bindLocal id slot
    let place := (← get).places.getD id (.slot slot)
    let t ← newSlot
    let (captures, code) := function f
    let places := (← get).places
    let inner := (← get).inner
    modify fun s => { s with
      inner := s.inner.push { code with captures := captures.map (captureOf places) } }
    emitPlain (.closure t inner.size)
    store (.place place) (.slot t)
    release (slot + 1)
  | .assign lhs values _ => do
    let base := (← get).free
    let ts ← targets lhs
    let ts ← resolveConflicts [] ts
    if ts.length == values.length then assignEqual ts values
    else
      let first := (← get).free
      exprValues ts.length values
      storeAll ts first
    release base
  | .call e => do
    let base := (← get).free
    let _ ← newSlot
    let _ ← expr (.values base 0) e
    release base
  | .block body => inBlock (statements body)
  | .while condition body leave => do
    let top ← newLabel
    place top
    let base := (← get).free
    let _ ← expr (.branch false leave) condition
    release base
    inBlock (statements body)
    emitPlain (.jump top)
    place leave
  | .repeat body condition leave => do
    let top ← newLabel
    let again ← newLabel
    place top
    let before ← get
    statements body
    let base := (← get).free
    let _ ← expr (.branch false again) condition
    release base
    closeDownTo before.closing.length
    emitPlain (.jump leave)
    place again
    closeDownTo before.closing.length
    modify fun s => { s with
      free := before.free, freeCell := before.freeCell, closing := before.closing }
    emitPlain (.jump top)
    place leave
  | .if arms otherwise => do
    let done ← newLabel
    ifArms done arms
    inBlock (statements otherwise)
    place done
  | .count id bounds body leave prepareLine => do
    let base := (← get).free
    let top ← newLabel
    let done ← newLabel
    exprValues 3 bounds
    let slot ← newSlot
    emit (.countPrepare base done) prepareLine #[]
    place top
    inBlock do
      bindLocal id slot
      statements body
    emitPlain (.countNext base top)
    place done
    release base
    place leave
  | .each ids values body leave prepareLine line => do
    let base := (← get).free
    let top ← newLabel
    let next ← newLabel
    exprValues 4 values
    let before ← get
    emit (.markToBeClosed (base + 3) Parser.loopStateName) prepareLine #[]
    modify fun s => { s with closing := (base + 3) :: s.closing }
    emitPlain (.jump next)
    place top
    let count := ids.length
    let first ← newSlots (max count 3)
    inBlock do
      bindLocals ids first
      statements body
    place next
    emit (.eachCall base count) line #[.loopIterator]
    emitPlain (.eachNext base top)
    emitPlain (.closeFrom (base + 3))
    modify fun s => { s with closing := before.closing }
    release base
    place leave
  | .return values tail line => do
    let base := (← get).free
    match tail, values with
    | true, .cons (.call f args callLine) .nil => do
      let b ← newSlot
      let (_, origin) ← expr (.slot b) f
      release (b + 1)
      let run ← exprRun (b + 1) args
      emit (.tailCall b run) callLine #[origin]
    | true, .cons (.method object name args nameLine callLine) .nil => do
      let b ← newSlots 2
      let (o, origin) ← expr .any object
      emit (.method b o name) nameLine #[origin]
      release (b + 2)
      let run ← exprRun (b + 2) args
      emit (.tailCall b { run with first := b + 1, count := run.count + 1 }) callLine #[.method name]
    | _, values => do
      let run ← exprRun base values
      emit (.return run) line #[]
    release base
  | .goto jump => do
    let s ← get
    let label := s.jumps.getD jump 0
    closeDownTo (s.labelDepths.getD label 0)
    emitPlain (.jump label)
  | .label id => place id

def ifArms (done : Nat) : ArmList → Gen Unit
  | .nil => pure ()
  | .cons condition body rest => do
    let next ← newLabel
    let base := (← get).free
    let _ ← expr (.branch false next) condition
    release base
    inBlock (statements body)
    emitPlain (.jump done)
    place next
    ifArms done rest

def statements : StatementList → Gen Unit
  | .nil => pure ()
  | .cons s rest => do
    statement s
    statements rest

/-- The code of a function, and where it finds what it captures. -/
def function : Function → Array Capture × Code
  | .mk params isVarargs body captures captureNames localNames isCaptured jumps labels stack _ =>
    let start := emptyState captureNames localNames isCaptured jumps labels
    let ((), s) := (do
      let first ← newSlots params.length
      bindLocals params first
      statements body
      emitPlain (.return ⟨0, 0, false⟩) : Gen Unit).run start
    (captures,
      { params := params.length, isVarargs := isVarargs, slots := s.slots, cells := s.cells
        stack := stack, instrs := s.instrs.map (linkInstr s.labels), notes := s.notes
        captures := #[], inner := s.inner })

end

end Gauge.Script.Generator

namespace Gauge.Script.Code

/-- The code of a whole script, whose one captured variable is the environment. -/
def ofFunction (f : Function) : Code :=
  let (_, code) := Generator.function f
  { code with captures := #[.captured 0] }

end Gauge.Script.Code
