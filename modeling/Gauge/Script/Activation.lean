import Gauge.Script.Operators

/-!
A call of a script's function in progress, and what one of its instructions does. Anything that may
involve another call is left to the machine: `Activation.exec` says what is wanted, and `deliver`
takes the results in.
-/

namespace Gauge.Script

/-- What to do with the results of what an instruction has asked for. -/
inductive Delivery where
  /-- So many of them go into slots. -/
  | slots (first count : Nat)
  /-- All are kept aside. -/
  | kept
  | truth (dst : Nat) (negated : Bool)
  | branch (expected : Bool) (target : Nat)
  | dropped
  /-- The function returns these values once all its variables are closed. -/
  | leaving (values : Array Value)
  /-- Closing goes on with the variables in slots from `from_` on. -/
  | closing (from_ : Nat)

structure Activation where
  code : Code
  captured : Array Nat
  source : ByteArray
  slots : Array Value
  cells : Array Nat
  /-- The next instruction. -/
  pc : Nat
  varargs : Array Value
  kept : Array Value
  /-- The slots of the variables to be closed, the innermost first. -/
  toClose : List Nat
  delivery : Delivery
  /-- Where on the stack the first slot is. -/
  base : Nat

/-- What an instruction comes to. -/
inductive Effect where
  | next (a : Activation) (h : Heap)
  /-- A program is to run; its results are delivered. -/
  | perform (a : Activation) (s : Step (Array Value))
  | enter (a : Activation) (f : Value) (args : Array Value) (h : Heap)
  /-- A call in place of this one. -/
  | become (a : Activation) (f : Value) (args : Array Value) (h : Heap)
  | leave (values : Array Value) (h : Heap)
  | raise (a : Activation) (f : Fault) (h : Heap)

namespace Activation

/-- How many values the stack holds. -/
def stackLimit : Nat := 1000000

@[inline] def read (a : Activation) (h : Heap) : Operand → Value
  | .slot i => a.slots.getD i .nil
  | .cell i => h.cell (a.cells.getD i 0)
  | .captured i => h.cell (a.captured.getD i 0)
  | .constant v => v

@[inline] def put (a : Activation) (i : Nat) (v : Value) : Activation :=
  { a with slots := a.slots.setIfInBounds i v }

@[inline] def goto (a : Activation) (pc : Nat) : Activation := { a with pc := pc }

def note (a : Activation) : Note := a.code.notes.getD (a.pc - 1) default

/-- The place of the current instruction, as a message begins with it. -/
def place (a : Activation) : ByteArray :=
  a.source ++ (":" ++ toString a.note.line ++ ": ").toUTF8

/-- Puts values into slots, `count` of them from `first` on; missing ones are nil. -/
def putAll (slots : Array Value) (first : Nat) (values : Array Value) : Nat → Array Value
  | 0 => slots
  | n + 1 => (putAll slots first values n).setIfInBounds (first + n) (values.getD n .nil)

def putFrom (a : Activation) (first count : Nat) (values : Array Value) : Activation :=
  { a with slots := putAll a.slots first values count }

/-- The values of a run; what was kept aside is used up. -/
def take (a : Activation) (r : Run) : Array Value × Activation :=
  let values := a.slots.extract r.first (r.first + r.count)
  if r.andOpen then (values ++ a.kept, { a with kept := #[] }) else (values, a)

/-- Asks for a program to be run. -/
@[inline] def ask (a : Activation) (h : Heap) (d : Delivery) (p : Native (Array Value)) : Effect :=
  .perform { a with delivery := d } (p h)

def single (p : Native Value) : Native (Array Value) := do return #[← p]
def truth (p : Native Bool) : Native (Array Value) := do return #[.bool (← p)]
def nothing (p : Native Unit) : Native (Array Value) := do
  p
  return #[]

/-- Calls what closes a variable, with the error on the way if there is one. -/
def closeValue (v : Value) (error : Value) : Native (Array Value) := do
  let m ← Native.metamethod v Event.close
  Native.call (if m.isNil then v else m) #[v, error]

/-- Closes the innermost variable in a slot from `from_` on, and then the others; then does `last`. -/
@[inline] def closeNext (a : Activation) (h : Heap) (from_ : Nat) (again : Delivery)
    (last : Activation → Heap → Effect) : Effect :=
  match a.toClose with
  | slot :: rest =>
    if from_ ≤ slot then
      let v := a.slots.getD slot .nil
      ask { a with toClose := rest } h again (closeValue v .nil)
    else last a h
  | [] => last a h

def leave (a : Activation) (values : Array Value) (h : Heap) : Effect :=
  closeNext a h 0 (.leaving values) fun _ h => .leave values h

def closeFrom (a : Activation) (from_ : Nat) (h : Heap) : Effect :=
  closeNext a h from_ (.closing from_) fun a h => .next a h

/-- Takes in the results of what the current instruction has asked for. -/
def deliver (a : Activation) (values : Array Value) (h : Heap) : Effect :=
  match a.delivery with
  | .slots first count => .next (a.putFrom first count values) h
  | .kept => .next { a with kept := values } h
  | .truth dst negated => .next (a.put dst (.bool ((values.getD 0 .nil).isTruthy != negated))) h
  | .branch expected target =>
    .next (if (values.getD 0 .nil).isTruthy == expected then a.goto target else a) h
  | .dropped => .next a h
  | .leaving results => a.leave results h
  | .closing from_ => a.closeFrom from_ h

/-! Counted loops. An integer loop keeps the number of rounds that are left in place of its limit, so
that it never runs past the largest integer. -/

/-- The limit of an integer loop, cut to the range of integers; nothing if no round is made. -/
def integerLimit (start step : Int64) (limit : Numeral) : Option Int64 :=
  let down := step < 0
  let clipped : Option Int64 :=
    match limit with
    | .int n => some n
    | .float x =>
      match x.decode with
      | .nan => none
      | .infinite negative =>
        if negative then (if down then some Int64.minValue else none)
        else if down then none else some Int64.maxValue
      | .finite .. =>
        let bound := if down then Numeral.ceil x else Numeral.floor x
        match Numeral.float? bound with
        | some n => some n
        | none =>
          if bound > 0 then (if down then none else some Int64.maxValue)
          else if down then some Int64.minValue else none
  match clipped with
  | some n => if (if down then start < n else start > n) then none else some n
  | none => none

def rounds (start limit step : Int64) : Int64 :=
  let span := if step > 0 then limit.toUInt64 - start.toUInt64 else start.toUInt64 - limit.toUInt64
  let size := if step > 0 then step.toUInt64 else 0 - step.toUInt64
  (span / size).toInt64

def failLoop (what : String) (v : Value) : Native (Array Value) := do
  let kind ← Native.read (·.kindName v)
  Native.fail (.atOperation (("bad 'for' " ++ what ++ " (number expected, got ").toUTF8 ++ kind ++
    ")".toUTF8))

def countPrepare (a : Activation) (h : Heap) (base target : Nat) : Effect :=
  let start := a.slots.getD base .nil
  let limit := a.slots.getD (base + 1) .nil
  let step := a.slots.getD (base + 2) .nil
  let zero (s : Numeral) : Bool := Numeral.isEqual s (.int 0)
  match start, step with
  | .int i, .int s =>
    if s == 0 then .raise a (.atOperation "'for' step is zero".toUTF8) h
    else
      match limit.toNumeral? with
      | none => ask a h .dropped (failLoop "limit" limit)
      | some l =>
        match integerLimit i s l with
        | none => .next (a.goto target) h
        | some l => .next ((a.put (base + 1) (.int (rounds i l s))).put (base + 3) start) h
  | _, _ =>
    match limit.toNumeral?, step.toNumeral?, start.toNumeral? with
    | none, _, _ => ask a h .dropped (failLoop "limit" limit)
    | _, none, _ => ask a h .dropped (failLoop "step" step)
    | _, _, none => ask a h .dropped (failLoop "initial value" start)
    | some l, some s, some i =>
      if zero s then .raise a (.atOperation "'for' step is zero".toUTF8) h
      else
        let l := l.toFloat
        let s := s.toFloat
        let i := i.toFloat
        if (if s > 0 then l < i else i < l) then .next (a.goto target) h
        else
          let a := a.put base (.float i)
          let a := a.put (base + 1) (.float l)
          let a := a.put (base + 2) (.float s)
          .next (a.put (base + 3) (.float i)) h

def countNext (a : Activation) (h : Heap) (base target : Nat) : Effect :=
  match a.slots.getD base .nil, a.slots.getD (base + 1) .nil, a.slots.getD (base + 2) .nil with
  | .int i, .int left, .int s =>
    if left == 0 then .next a h
    else
      let a := a.put base (.int (i + s))
      let a := a.put (base + 1) (.int (left - 1))
      .next ((a.put (base + 3) (.int (i + s))).goto target) h
  | .float i, .float l, .float s =>
    let i := i + s
    if (if s > 0 then i ≤ l else l ≤ i) then
      .next (((a.put base (.float i)).put (base + 3) (.float i)).goto target) h
    else .next a h
  | _, _, _ => .next a h

/-- Makes the closure of an inner function. -/
def makeClosure (a : Activation) (h : Heap) (dst inner : Nat) : Effect :=
  let code := a.code.inner.getD inner default
  let captured := code.captures.map fun c =>
    match c with
    | .cell i => a.cells.getD i 0
    | .captured i => a.captured.getD i 0
  let (id, h) := h.newClosure ⟨code, captured, a.source⟩
  .next (a.put dst (.closure id)) h

/-- Refuses a value that cannot be closed. -/
def markToBeClosed (a : Activation) (h : Heap) (slot : Nat) (name : ByteArray) : Effect :=
  let v := a.slots.getD slot .nil
  if !v.isTruthy then .next a h
  else if (h.metamethod v Event.close).isNil then
    .raise a (.atOperation ("variable '".toUTF8 ++ name ++ "' got a non-closable value".toUTF8)) h
  else .next { a with toClose := slot :: a.toClose } h

/-- The value of a field, if no metatable has a say in it. -/
@[inline] def plainIndex? (h : Heap) (o k : Value) : Option Value :=
  match o with
  | .table id =>
    let t := h.table id
    let v := t.getValue k
    if v.isNil then
      match t.metatable with
      | none => some .nil
      | some _ => none
    else some v
  | _ => none

/-- The table and key to store at, if no metatable has a say in it. -/
@[inline] def plainTarget? (h : Heap) (o k : Value) : Option (Nat × Key) :=
  match o with
  | .table id =>
    match (h.table id).metatable with
    | none =>
      match k.key? with
      | some key => some (id, key)
      | none => none
    | some _ => none
  | _ => none

@[inline] def plainCompare? (rel : Relation) (x y : Value) : Option Bool :=
  match rel with
  | .eq =>
    match x, y with
    | .table i, .table j => if i == j then some true else none
    | .stream i, .stream j => some (i == j)
    | x, y => some (x.rawEquals y)
  | .lt =>
    match x, y with
    | .int m, .int n => some (m < n)
    | .float m, .float n => some (m < n)
    | _, _ => none
  | .le =>
    match x, y with
    | .int m, .int n => some (m ≤ n)
    | .float m, .float n => some (m ≤ n)
    | _, _ => none

@[inline] def plainArith? (op : ArithOp) (x y : Value) : Option Value :=
  match x, y with
  | .int m, .int n =>
    match op with
    | .add => some (.int (m + n))
    | .sub => some (.int (m - n))
    | .mul => some (.int (m * n))
    | _ => none
  | .float m, .float n =>
    match op with
    | .add => some (.float (m + n))
    | .sub => some (.float (m - n))
    | .mul => some (.float (m * n))
    | .div => some (.float (m / n))
    | _ => none
  | _, _ => none

/-- Carries out the next instruction. -/
def exec (a : Activation) (h : Heap) : Effect :=
  let instr := a.code.instrs.getD a.pc (.return ⟨0, 0, false⟩)
  let a := { a with pc := a.pc + 1 }
  match instr with
  | .move dst src => .next (a.put dst (a.read h src)) h
  | .setCell c src => .next a (h.setCell (a.cells.getD c 0) (a.read h src))
  | .setCaptured i src => .next a (h.setCell (a.captured.getD i 0) (a.read h src))
  | .newCell c src =>
    let (id, h) := h.newCell (a.read h src)
    .next { a with cells := a.cells.setIfInBounds c id } h
  | .closure dst inner => makeClosure a h dst inner
  | .newTable dst items others =>
    let (id, h) := h.newTable (Table.ofSizes items others)
    .next (a.put dst (.table id)) h
  | .setList table run first =>
    let (values, a) := a.take run
    match a.slots.getD table .nil with
    | .table id => .next a (h.modifyTable id (·.setList first values))
    | _ => .next a h
  | .index dst o k =>
    let object := a.read h o
    let key := a.read h k
    match plainIndex? h object key with
    | some v => .next (a.put dst v) h
    | none => a.ask h (.slots dst 1) (single (Native.index object key))
  | .setIndex o k v =>
    let object := a.read h o
    let key := a.read h k
    let value := a.read h v
    match plainTarget? h object key with
    | some (id, key) => .next a (h.modifyTable id (·.set key value))
    | none => a.ask h .dropped (nothing (Native.setIndex object key value))
  | .method dst o name =>
    let object := a.read h o
    let a := a.put (dst + 1) object
    match plainIndex? h object (.string name) with
    | some v => .next (a.put dst v) h
    | none => a.ask h (.slots dst 1) (single (Native.index object (.string name)))
  | .arith op dst x y =>
    let x := a.read h x
    let y := a.read h y
    match plainArith? op x y with
    | some v => .next (a.put dst v) h
    | none => a.ask h (.slots dst 1) (single (Native.arith op x y))
  | .unary op dst x => a.ask h (.slots dst 1) (single (Native.unary op (a.read h x)))
  | .not dst x => .next (a.put dst (.bool !(a.read h x).isTruthy)) h
  | .concat dst first count =>
    a.ask h (.slots dst 1) (single (Native.concat (a.slots.extract first (first + count))))
  | .compare rel dst x y negated =>
    let x := a.read h x
    let y := a.read h y
    match plainCompare? rel x y with
    | some b => .next (a.put dst (.bool (b != negated))) h
    | none => a.ask h (.truth dst negated) (truth (Native.compare rel x y))
  | .jump target => .next (a.goto target) h
  | .branch x expected target =>
    .next (if (a.read h x).isTruthy == expected then a.goto target else a) h
  | .branchCompare rel x y expected target =>
    let x := a.read h x
    let y := a.read h y
    match plainCompare? rel x y with
    | some b => .next (if b == expected then a.goto target else a) h
    | none => a.ask h (.branch expected target) (truth (Native.compare rel x y))
  | .call base run wanted =>
    let (args, a) := a.take run
    let f := a.slots.getD base .nil
    let d : Delivery :=
      match wanted with
      | .exactly n => .slots base n
      | .all => .kept
    .enter { a with delivery := d } f args h
  | .tailCall base run =>
    let (args, a) := a.take run
    .become { a with delivery := .leaving #[] } (a.slots.getD base .nil) args h
  | .return run =>
    let (values, a) := a.take run
    a.leave values h
  | .varargs dst wanted =>
    match wanted with
    | .exactly n => .next (a.putFrom dst n a.varargs) h
    | .all =>
      if a.base + a.slots.size + a.varargs.size > stackLimit then
        .raise a (.atOperation "stack overflow".toUTF8) h
      else .next { a with kept := a.varargs } h
  | .countPrepare base target => a.countPrepare h base target
  | .countNext base target => a.countNext h base target
  | .eachCall base wanted =>
    let f := a.slots.getD base .nil
    let args := a.slots.extract (base + 1) (base + 3)
    a.ask h (.slots (base + 4) wanted) (Native.call f args)
  | .eachNext base target =>
    let control := a.slots.getD (base + 4) .nil
    if control.isNil then .next a h
    else .next ((a.put (base + 2) control).goto target) h
  | .markToBeClosed slot name => a.markToBeClosed h slot name
  | .closeFrom from_ => a.closeFrom from_ h

/-- Carries out instructions as long as they concern this call alone, up to `fuel` of them. -/
def run : Nat → Activation → Heap → Effect
  | 0, a, h => .next a h
  | fuel + 1, a, h =>
    match exec a h with
    | .next a h => run fuel a h
    | effect => effect

/-- A call of a function that is about to begin. -/
def start (c : Closure) (args : Array Value) (base : Nat) : Activation :=
  let code := c.code
  let varargs := if code.isVarargs then args.extract code.params args.size else #[]
  let given := args.extract 0 (min code.params args.size)
  { code := code, captured := c.captured, source := c.source
    slots := given ++ Array.replicate (code.slots - given.size) .nil
    cells := Array.replicate code.cells 0
    pc := 0, varargs := varargs, kept := #[], toClose := [], delivery := .dropped
    base := base + varargs.size }

end Activation

end Gauge.Script
