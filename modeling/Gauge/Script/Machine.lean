import Gauge.Script.Activation
import Gauge.Script.Library

/-!
The machine that runs scripts: calls in progress, errors on their way out, and threads. It advances
by one step of its control at a time, so that a run is a repetition of one total function.
-/

namespace Gauge.Script

/-- Who runs a program: an operation of the call below it, or a function of the language. -/
inductive Owner where
  | operation
  | builtin (f : Builtin)

/-- What a waiting program does about errors. -/
inductive Catch where
  | nothing
  | errors (handler : Option Value)
  /-- It has resumed a thread and takes in how that ends. -/
  | thread

inductive Frame where
  | script (a : Activation)
  /-- A program that waits for the results of a call it made, at the given depth of nesting. -/
  | native (owner : Owner) (depth : Nat) (catch_ : Catch)
      (k : Except Value (Array Value) → Heap → Step (Array Value))
  /-- A handler is looking at an error that is to go on afterwards. -/
  | handling
  /-- Variables are being closed, those in `rest` after the current one; then the error goes on. -/
  | closing (rest : List Value) (error : Option Value)
  /-- The call that came from outside. -/
  | bottom

/-- A thread that waits for another one it has resumed. -/
structure Resumer where
  thread : Nat
  depth : Nat

structure Machine where
  heap : Heap
  /-- The calls in progress of the current thread, the innermost first. -/
  frames : List Frame
  thread : Nat
  /-- The calls in progress of the other threads. -/
  parked : Array (List Frame)
  resumers : List Resumer
  depth : Nat

/-- What the machine does next. -/
inductive Control where
  /-- Goes on with the innermost call, which is of a script. -/
  | go (m : Machine)
  | apply (f : Value) (args : Array Value) (m : Machine)
  /-- Hands values to the innermost call. -/
  | give (values : Array Value) (m : Machine)
  | work (owner : Owner) (s : Step (Array Value)) (m : Machine)
  | fault (owner : Owner) (f : Fault) (m : Machine)
  /-- An error leaves one call after another. -/
  | unwind (error : Value) (m : Machine)
  | finished (r : Except Value (Array Value)) (h : Heap) (parked : Array (List Frame))
  /-- The script has ended the program. -/
  | exited (code : Nat) (h : Heap)

namespace Machine

/-- How deep calls may be nested that cannot be flattened, and how deep while errors are handled. -/
def maxDepth : Nat := 200
def maxHandlingDepth : Nat := 220

/-! Places and names for messages. -/

/-- The place of the function so many levels up. -/
def placeOf : List Frame → Nat → ByteArray
  | [], _ => ByteArray.empty
  | frame :: rest, level =>
    match frame with
    | .script a => if level ≤ 1 then a.place else placeOf rest (level - 1)
    | .native (.builtin _) _ _ _ => if level ≤ 1 then ByteArray.empty else placeOf rest (level - 1)
    | .bottom => ByteArray.empty
    | _ => placeOf rest level

/-- The kind and the name of what an operand came from. -/
def describe : Origin → Option (String × ByteArray)
  | .unknown => none
  | .local name => some ("local", name)
  | .captured name => some ("upvalue", name)
  | .global name => some ("global", name)
  | .field name => some ("field", name)
  | .method name => some ("method", name)
  | .constant text => some ("constant", text)
  | .loopIterator => some ("for iterator", "for iterator".toUTF8)

def relationEvent : Relation → String
  | .eq => "eq"
  | .lt => "lt"
  | .le => "le"

/-- What the function is called that the current instruction of a call has led to. -/
def calleeName (a : Activation) : Option (String × ByteArray) :=
  let event (name : String) := some ("metamethod", name.toUTF8)
  match a.code.instrs.getD (a.pc - 1) (.jump 0) with
  | .call .. | .tailCall .. | .eachCall .. => (a.note.origins[0]?).bind describe
  | .index .. | .method .. => event "index"
  | .setIndex .. => event "newindex"
  | .arith op .. => event op.name
  | .unary .minus .. => event "unm"
  | .unary .bnot .. => event "bnot"
  | .unary .length .. => event "len"
  | .concat .. => event "concat"
  | .compare rel .. => event (relationEvent rel)
  | .branchCompare rel .. => event (relationEvent rel)
  | .closeFrom _ | .return _ => event "close"
  | _ => none

/-- The call of a script that the innermost function was called from, if it was one. -/
def caller? : List Frame → Option Activation
  | .script a :: _ => some a
  | .native .operation _ _ _ :: rest => caller? rest
  | _ => none

/-- What was called, as a message ends with it. -/
def suffix (name : Option (String × ByteArray)) : ByteArray :=
  match name with
  | some (kind, name) => (" (" ++ kind ++ " '").toUTF8 ++ name.untilNul ++ "')".toUTF8
  | none => ByteArray.empty

def argumentMessage (owner : Owner) (frames : List Frame) (index : Nat) (message : ByteArray) :
    ByteArray :=
  let name := (caller? frames).bind calleeName
  let isMethod := match name with
    | some ("method", _) => true
    | _ => false
  let known : ByteArray :=
    match name with
    | some (_, n) => n.untilNul
    | none =>
      match owner with
      | .builtin f => (f.qualifiedName.getD "?").toUTF8
      | .operation => "?".toUTF8
  if isMethod && index == 1 then
    "calling '".toUTF8 ++ known ++ "' on bad self (".toUTF8 ++ message ++ ")".toUTF8
  else
    let index := if isMethod then index - 1 else index
    ("bad argument #" ++ toString index ++ " to '").toUTF8 ++ known ++ "' (".toUTF8 ++ message ++
      ")".toUTF8

/-- The value of an error. -/
def faultValue (owner : Owner) (frames : List Frame) (f : Fault) : Value :=
  let current : Option Activation :=
    match owner with
    | .operation => caller? frames
    | .builtin _ => none
  let here : ByteArray := (current.map (·.place)).getD ByteArray.empty
  match f with
  | .thrown v => v
  | .atCaller message => .string (placeOf frames 1 ++ message)
  | .argument index message =>
    .string (placeOf frames 1 ++ argumentMessage owner frames index message)
  | .atOperation message => .string (here ++ message)
  | .operand index before after =>
    let origin := ((current.map (·.note.origins)).getD #[]).getD index .unknown
    .string (here ++ before ++ suffix (describe origin) ++ after)
  | .beyondHandling => .ofString "error in error handling"

/-- What looks at an error before it leaves any call. Errors that leave the machine are turned into
text, but for those of the host. -/
def handler? (error : Value) : List Frame → Option Value
  | [] => none
  | .native _ _ (.errors h) _ :: _ => h
  | .bottom :: _ =>
    match error with
    | .failure _ => none
    | _ => some (.builtin (.base .tostring))
  | _ :: rest => handler? error rest

/-- Whether nothing in progress keeps the thread from being left for a while. -/
def canYield : List Frame → Bool
  | [] => true
  | .script _ :: rest => canYield rest
  | .native .operation _ _ _ :: rest => canYield rest
  | .native (.builtin (.base .pairs)) _ _ _ :: rest => canYield rest
  | _ => false

/-- How much of the stack is in use. -/
def stackTop : List Frame → Nat
  | [] => 1
  | .script a :: _ => a.base + a.code.stack
  | _ :: rest => stackTop rest + 3

def viewOf (m : Machine) : View :=
  let frames := m.frames
  { placeOf := fun level => if level == 0 then ByteArray.empty else placeOf frames level
    thread := m.thread
    isMain := m.resumers.isEmpty
    canYield := !m.resumers.isEmpty && canYield frames
    depth := m.depth
    room := Activation.stackLimit - stackTop frames }

/-! Leaving calls. -/

/-- The values to be closed in a call, the innermost first. -/
def closersOf (a : Activation) : List Value :=
  a.toClose.map fun slot => a.slots.getD slot .nil

/-- Leaves the calls that do not take in errors: what they have to close, the error as far as it has
been replaced on the way, and the calls that are left. -/
def leaveCalls (closers : List Value) : List Frame → List Value × List Frame
  | [] => (closers, [])
  | .script a :: rest => leaveCalls (closers ++ closersOf a) rest
  | .native _ _ .nothing _ :: rest => leaveCalls closers rest
  | .handling :: rest => leaveCalls closers rest
  | .closing pending error :: rest => (closers, .closing pending error :: rest)
  | .native owner depth c k :: rest => (closers, .native owner depth c k :: rest)
  | .bottom :: rest => (closers, .bottom :: rest)

/-- Pushes the closing of a value. -/
def closeOne (v : Value) (rest : List Value) (error : Option Value) (m : Machine) : Control :=
  match m with
  | ⟨heap, frames, thread, parked, resumers, depth⟩ =>
    .work .operation (Activation.closeValue v (error.getD .nil) heap)
      ⟨.empty, .closing rest error :: frames, thread, parked, resumers, depth⟩

/-- Ends the current thread and hands its outcome to the one that resumed it. -/
def endThread (r : Except Value (Array Value)) (status : ThreadStatus) (left : List Frame)
    (m : Machine) : Control :=
  match m with
  | ⟨heap, _, _, parked, [], _⟩ => .finished r heap parked
  | ⟨heap, _, thread, parked, resumer :: resumers, _⟩ =>
    let heap := (heap.setThread thread status).setThread resumer.thread .running
    let parked := parked.setIfInBounds thread left
    let frames := parked.getD resumer.thread []
    let parked := parked.setIfInBounds resumer.thread []
    match frames with
    | .native owner depth .thread k :: rest =>
      .work owner (k r heap) ⟨.empty, rest, resumer.thread, parked, resumers, depth⟩
    | frames => .unwind .nil ⟨heap, frames, resumer.thread, parked, resumers, resumer.depth⟩

/-- Lets an error leave calls up to one that takes it in. -/
def unwind (error : Value) (m : Machine) : Control :=
  let (closers, frames) := leaveCalls [] m.frames
  match closers, frames with
  | closers, .closing pending _ :: rest =>
    match closers ++ pending with
    | v :: more => closeOne v more (some error) { m with frames := rest }
    | [] => .unwind error { m with frames := rest }
  | closers, [] =>
    let left : List Frame := if closers.isEmpty then [] else [.closing closers (some error)]
    endThread (.error error) (.failed error) left { m with frames := [] }
  | v :: more, frames => closeOne v more (some error) { m with frames := frames }
  | [], .native owner depth _ k :: rest =>
    match m with
    | ⟨heap, _, thread, parked, resumers, _⟩ =>
      .work owner (k (.error error) heap) ⟨.empty, rest, thread, parked, resumers, depth⟩
  | [], .bottom :: _ => .finished (.error error) m.heap m.parked
  | [], frames => .unwind error { m with frames := frames.drop 1 }

/-- Raises an error: a handler sees it first. -/
def raise (error : Value) (m : Machine) : Control :=
  match handler? error m.frames with
  | none => .unwind error m
  | some handler =>
    if m.depth + 1 ≥ maxHandlingDepth then
      .unwind (.ofString "error in error handling") m
    else
      .apply handler #[error] { m with frames := .handling :: m.frames, depth := m.depth + 1 }

def fault (owner : Owner) (f : Fault) (m : Machine) : Control :=
  match f with
  | .beyondHandling => .unwind (faultValue owner m.frames f) m
  | f => raise (faultValue owner m.frames f) m

/-! Calls. -/

/-- Calls nested too deep are refused, with some room to spare for those that handle the error. -/
def tooDeep? (m : Machine) : Option Fault :=
  if m.depth + 1 == maxDepth then some (.atOperation "C stack overflow".toUTF8)
  else if m.depth + 1 ≥ maxHandlingDepth then some .beyondHandling
  else none

/-- Whose doing a call is that the innermost frame makes. -/
def ownerOfCall (frames : List Frame) : Owner :=
  match frames with
  | .script _ :: _ => .operation
  | .native owner _ _ _ :: _ => owner
  | _ => .builtin (.base .pcall)

/-- What is called, for the message that it cannot be. -/
def calledName (frames : List Frame) : ByteArray :=
  suffix ((caller? frames).bind calleeName)

def enterClosure (c : Closure) (args : Array Value) (m : Machine) : Control :=
  let base := stackTop m.frames + 1
  if base + args.size + c.code.stack > Activation.stackLimit then
    .fault (ownerOfCall m.frames) (.atOperation "stack overflow".toUTF8) m
  else .go { m with frames := .script (Activation.start c args base) :: m.frames }

/-- How many times a call may be passed on to what a metatable names. -/
def maxCallChain : Nat := 200

/-- Calls a value: a function, or what its metatable says in its place. -/
def apply (m : Machine) : Nat → Value → Array Value → Control
  | 0, _, _ => .fault (ownerOfCall m.frames) (.atOperation "C stack overflow".toUTF8) m
  | fuel + 1, f, args =>
    match f with
    | .closure id => enterClosure (m.heap.closures.getD id default) args m
    | .builtin b =>
      match m with
      | ⟨heap, frames, thread, parked, resumers, depth⟩ =>
        .work (.builtin b) (b.run args heap) ⟨.empty, frames, thread, parked, resumers, depth⟩
    | f =>
      let via := m.heap.metamethod f Event.call
      if via.isNil then
        let message := "attempt to call a ".toUTF8 ++ m.heap.kindName f ++ " value".toUTF8 ++
          calledName m.frames
        .fault (ownerOfCall m.frames) (.atOperation message) m
      else apply m fuel via (#[f] ++ args)

/-- What becomes of the effect of an instruction; the call it belongs to is no longer in `m`. -/
def take (effect : Effect) (m : Heap → List Frame → Machine) (rest : List Frame) : Control :=
  match effect with
  | .next a h => .go (m h (.script a :: rest))
  | .perform a s =>
    match s with
    | .done values h => .give values (m h (.script a :: rest))
    | .fail f h => .fault .operation f (m h (.script a :: rest))
    | s => .work .operation s (m .empty (.script a :: rest))
  | .enter a f args h => .apply f args (m h (.script a :: rest))
  | .become a f args h =>
    match f with
    | .closure id =>
      let c := h.closures.getD id default
      if a.base + args.size + c.code.stack > Activation.stackLimit then
        .fault .operation (.atOperation "stack overflow".toUTF8) (m h (.script a :: rest))
      else .go (m h (.script (Activation.start c args (stackTop rest + 1)) :: rest))
    | f => .apply f args (m h (.script a :: rest))
  | .leave values h => .give values (m h rest)
  | .raise a f h => .fault .operation f (m h (.script a :: rest))

/-- How many instructions are carried out in one go. -/
def slice : Nat := 4096

def go (m : Machine) : Control :=
  match m with
  | ⟨heap, .script a :: rest, thread, parked, resumers, depth⟩ =>
    take (a.run slice heap) (fun h fs => ⟨h, fs, thread, parked, resumers, depth⟩) rest
  | m => .unwind .nil m

/-- Hands the results of a call to the frame that waits for them. -/
def give (values : Array Value) (m : Machine) : Control :=
  match m with
  | ⟨heap, .script a :: rest, thread, parked, resumers, depth⟩ =>
    match a.delivery with
    | .leaving _ =>
      match a.code.instrs.getD (a.pc - 1) (.jump 0) with
      | .tailCall .. => .give values ⟨heap, rest, thread, parked, resumers, depth⟩
      | _ => take (a.deliver values heap) (fun h fs => ⟨h, fs, thread, parked, resumers, depth⟩) rest
    | _ => take (a.deliver values heap) (fun h fs => ⟨h, fs, thread, parked, resumers, depth⟩) rest
  | ⟨heap, .native owner before _ k :: rest, thread, parked, resumers, _⟩ =>
    .work owner (k (.ok values) heap) ⟨.empty, rest, thread, parked, resumers, before⟩
  | ⟨heap, .handling :: rest, thread, parked, resumers, depth⟩ =>
    .unwind (values.getD 0 .nil) ⟨heap, rest, thread, parked, resumers, depth⟩
  | ⟨heap, .closing [] none :: rest, thread, parked, resumers, depth⟩ =>
    .give #[] ⟨heap, rest, thread, parked, resumers, depth⟩
  | ⟨heap, .closing [] (some error) :: rest, thread, parked, resumers, depth⟩ =>
    .unwind error ⟨heap, rest, thread, parked, resumers, depth⟩
  | ⟨heap, .closing (v :: more) error :: rest, thread, parked, resumers, depth⟩ =>
    closeOne v more error ⟨heap, rest, thread, parked, resumers, depth⟩
  | ⟨heap, .bottom :: _, _, parked, _, _⟩ => .finished (.ok values) heap parked
  | ⟨heap, [], thread, parked, resumers, depth⟩ =>
    endThread (.ok values) .finished [] ⟨heap, [], thread, parked, resumers, depth⟩

/-! Threads. -/

/-- The frame in which a program waits for a thread it resumes. -/
def waiting (owner : Owner) (depth : Nat)
    (k : Except Value (Array Value) → Heap → Step (Array Value)) : Frame :=
  .native owner depth .thread k

def resume (owner : Owner) (t : Nat) (args : Array Value)
    (k : Except Value (Array Value) → Heap → Step (Array Value)) (m : Machine) : Control :=
  let refuse (message : String) : Control :=
    let heap := m.heap
    .work owner (k (.error (.ofString message)) heap) m
  let info := m.heap.thread t
  match info.status with
  | .finished | .failed _ => refuse "cannot resume dead coroutine"
  | .running | .waiting => refuse "cannot resume non-suspended coroutine"
  | .suspended =>
    if m.depth ≥ maxDepth then refuse "C stack overflow"
    else
      let heap := (m.heap.setThread m.thread .waiting).setThread t .running
      let missing := (max m.thread t) + 1 - m.parked.size
      let parked := m.parked ++ Array.replicate missing []
      let parked := parked.setIfInBounds m.thread (waiting owner m.depth k :: m.frames)
      let frames := parked.getD t []
      let parked := parked.setIfInBounds t []
      let next : Machine :=
        ⟨heap, frames, t, parked, ⟨m.thread, m.depth⟩ :: m.resumers, m.depth + 1⟩
      match info.start with
      | some f => .apply f args next
      | none => .give args next

def yield (owner : Owner) (values : Array Value)
    (k : Array Value → Heap → Step (Array Value)) (m : Machine) : Control :=
  match m.resumers with
  | [] => .fault owner (.atOperation "attempt to yield from outside a coroutine".toUTF8) m
  | resumer :: resumers =>
    if !canYield m.frames then
      .fault owner (.atOperation "attempt to yield across a C-call boundary".toUTF8) m
    else
      let heap := (m.heap.setThread m.thread .suspended).setThread resumer.thread .running
      let resumed : Except Value (Array Value) → Heap → Step (Array Value) := fun r h =>
        match r with
        | .ok values => k values h
        | .error e => .fail (.thrown e) h
      let left : List Frame := .native owner 0 .nothing resumed :: m.frames
      let parked := m.parked.setIfInBounds m.thread left
      let frames := parked.getD resumer.thread []
      let parked := parked.setIfInBounds resumer.thread []
      match frames with
      | .native owner depth .thread k :: rest =>
        .work owner (k (.ok values) heap) ⟨.empty, rest, resumer.thread, parked, resumers, depth⟩
      | frames => .unwind .nil ⟨heap, frames, resumer.thread, parked, resumers, resumer.depth⟩

/-- Ends a thread that is not running, closing the variables of its calls. -/
def closeThread (owner : Owner) (t : Nat)
    (k : Except Value (Array Value) → Heap → Step (Array Value)) (m : Machine) : Control :=
  let frames := m.parked.getD t []
  let error : Option Value :=
    match (m.heap.thread t).status with
    | .failed e => some e
    | _ => none
  let closers : List Value :=
    match frames with
    | [.closing pending (some _)] => pending
    | frames => (leaveCalls [] frames).1
  let heap := m.heap.setThread t .finished
  let parked := m.parked.setIfInBounds t []
  let m := { m with heap := heap, parked := parked }
  match closers with
  | [] =>
    match error with
    | none => .work owner (k (.ok #[]) m.heap) m
    | some e => .work owner (k (.error e) m.heap) m
  | v :: more =>
    closeOne v more error
      { m with frames := .native owner m.depth (.errors none) k :: m.frames, depth := m.depth + 1 }

/-- Runs a program until it is done or asks for something. -/
def work (owner : Owner) (s : Step (Array Value)) (m : Machine) : Control :=
  match s with
  | .done values h => .give values { m with heap := h }
  | .fail f h => .fault owner f { m with heap := h }
  | .call f args h k =>
    let m := { m with heap := h }
    match tooDeep? m with
    | some f => .fault owner f m
    | none =>
      let resumed : Except Value (Array Value) → Heap → Step (Array Value) := fun r h =>
        match r with
        | .ok values => k values h
        | .error e => .fail (.thrown e) h
      .apply f args
        { m with frames := .native owner m.depth .nothing resumed :: m.frames, depth := m.depth + 1 }
  | .protect handler f args h k =>
    let m := { m with heap := h }
    let inner := { m with
      frames := .native owner m.depth (.errors handler) k :: m.frames, depth := m.depth + 1 }
    match tooDeep? m with
    | some f => .fault owner f inner
    | none => .apply f args inner
  | .resume t args h k => resume owner t args k { m with heap := h }
  | .yield values h k => yield owner values k { m with heap := h }
  | .closeThread t h k => closeThread owner t k { m with heap := h }
  | .inspect h k => .work owner (k (viewOf m) h) m
  | .exit code h => .exited code h

/-- One step of the machine. -/
def advance : Control → Control
  | .go m => go m
  | .apply f args m => apply m maxCallChain f args
  | .give values m => give values m
  | .work owner s m => work owner s m
  | .fault owner f m => fault owner f m
  | .unwind e m => unwind e m
  | .finished r h parked => .finished r h parked
  | .exited code h => .exited code h

/-- How a run ends. -/
inductive Ending where
  | ended (r : Except Value (Array Value)) (h : Heap) (parked : Array (List Frame))
  | exited (code : Nat) (h : Heap)
  | outOfFuel

def run : Nat → Control → Ending
  | 0, _ => .outOfFuel
  | fuel + 1, c =>
    match c with
    | .finished r h parked => .ended r h parked
    | .exited code h => .exited code h
    | c => run fuel (advance c)

/-- More steps than any run takes that ends in reasonable time. -/
def maxSteps : Nat := 2 ^ 50

/-- Calls a value from outside. An error comes back as text. -/
def call (f : Value) (args : Array Value) (parked : Array (List Frame)) (h : Heap) : Ending :=
  run maxSteps (.apply f args ⟨h, [.bottom], 0, parked, [], 1⟩)

/-- Runs a program from outside. -/
def perform (p : Native (Array Value)) (parked : Array (List Frame)) (h : Heap) : Ending :=
  run maxSteps (.work .operation (p h) ⟨.empty, [.bottom], 0, parked, [], 1⟩)

end Machine

end Gauge.Script
