import Gauge.Script.Syntax
import Gauge.Script.Token

/-!
Names in scope while a function is read: locals, captured variables, labels and the jumps that still
look for theirs.
-/

namespace Gauge.Script

structure LocalInfo where
  name : ByteArray
  mode : LocalMode
  /-- The literal a constant is known to be. -/
  value : Option Literal
  isCaptured : Bool

structure CaptureInfo where
  name : ByteArray
  source : Capture
  mode : LocalMode

/-- A label or a jump: how many locals were in scope there. -/
structure Landmark where
  name : ByteArray
  line : Nat
  id : Nat
  active : Nat

structure BlockInfo where
  isLoop : Bool
  active : Nat
  slots : Nat
  firstLabel : Nat
  firstJump : Nat

/-- The function being read. `active` lists the locals in scope by their numbers, `declared` counts
also those whose declaration is not complete. -/
structure Scope where
  lineDefined : Nat
  isVarargs : Bool
  locals : Array LocalInfo
  active : Array Nat
  declared : Nat
  slots : Nat
  captures : Array CaptureInfo
  blocks : List BlockInfo
  labels : Array Landmark
  pending : Array Landmark
  /-- For each jump its label; a jump that looks for its label has none yet. -/
  jumps : Array Nat
  /-- For each label the number of variables to be closed in scope there. -/
  labelDepths : Array Nat
  free : Nat
  stack : Nat

namespace Scope

def empty (line : Nat) (isVarargs : Bool) : Scope :=
  ⟨line, isVarargs, #[], #[], 0, 0, #[], [], #[], #[], #[], #[], 0, 2⟩

def maxLocals : Nat := 200
def maxCaptures : Nat := 255
def maxSlots : Nat := 255

/-- The refusal of more than `limit` things of a kind in one function. -/
def limitMessage (s : Scope) (what : String) (limit : Nat) : String :=
  let place := if s.lineDefined == 0 then "main function"
    else "function at line " ++ toString s.lineDefined
  "too many " ++ what ++ " (limit is " ++ toString limit ++ ") in " ++ place

def findLocal (s : Scope) (name : ByteArray) : Option Nat :=
  s.active.toList.reverse.find? fun id =>
    match s.locals[id]? with
    | some info => info.name == name
    | none => false

def findCapture (s : Scope) (name : ByteArray) : Option Nat :=
  s.captures.findIdx? fun c => c.name == name

/-- The variables to be closed among the first `count` locals in scope. -/
def toBeClosed (s : Scope) (count : Nat) : Nat :=
  (s.active.toList.take count).countP fun id =>
    match s.locals[id]? with
    | some info => info.mode == .toBeClosed
    | none => false

inductive Found where
  | global
  | literal (name : ByteArray) (l : Literal)
  | variable (x : Variable) (mode : LocalMode)

def markCaptured (s : Scope) (id : Nat) : Scope :=
  { s with locals := s.locals.modify id fun info => { info with isCaptured := true } }

/-- What a name means in the innermost of some nested functions. A variable found further out is
captured by every function on the way; a function that captures too many is the error. -/
def resolve (name : ByteArray) : List Scope → Except Scope (Found × List Scope)
  | [] => .ok (.global, [])
  | s :: rest =>
    match s.findLocal name with
    | some id =>
      match s.locals[id]? with
      | some info =>
        match info.value with
        | some l => .ok (.literal name l, s :: rest)
        | none => .ok (.variable (.local id) info.mode, s :: rest)
      | none => .ok (.global, s :: rest)
    | none =>
      match s.findCapture name with
      | some i =>
        let mode := (s.captures[i]?.map (·.mode)).getD .regular
        .ok (.variable (.captured i) mode, s :: rest)
      | none =>
        match resolve name rest with
        | .error e => .error e
        | .ok (.variable x mode, rest) =>
          if s.captures.size ≥ maxCaptures then .error s
          else
            let (source, rest) : Capture × List Scope :=
              match x, rest with
              | .local id, outer :: more => (.enclosingLocal id, outer.markCaptured id :: more)
              | .local id, [] => (.enclosingLocal id, [])
              | .captured i, rest => (.enclosingCaptured i, rest)
            let s' := { s with captures := s.captures.push ⟨name, source, mode⟩ }
            .ok (.variable (.captured s.captures.size) mode, s' :: rest)
        | .ok (found, rest) => .ok (found, s :: rest)

def declare (s : Scope) (name : ByteArray) (mode : LocalMode) : Scope × Nat :=
  ({ s with
      locals := s.locals.push ⟨name, mode, none, false⟩
      declared := s.declared + 1 },
    s.locals.size)

/-- Brings a declared local into scope; one that is known to be a literal takes no room. -/
def activate (s : Scope) (id : Nat) : Scope :=
  let takesRoom :=
    match s.locals[id]? with
    | some info => info.value.isNone
    | none => true
  { s with
    active := s.active.push id
    slots := if takesRoom then s.slots + 1 else s.slots }

def setMode (s : Scope) (id : Nat) (mode : LocalMode) : Scope :=
  { s with locals := s.locals.modify id fun info => { info with mode := mode } }

def setValue (s : Scope) (id : Nat) (value : Literal) : Scope :=
  { s with locals := s.locals.modify id fun info => { info with value := some value } }

def enterBlock (s : Scope) (isLoop : Bool) : Scope :=
  { s with
    blocks := ⟨isLoop, s.active.size, s.slots, s.labels.size, s.pending.size⟩ :: s.blocks }

def newLabel (s : Scope) (active : Nat) : Scope × Nat :=
  ({ s with labelDepths := s.labelDepths.push (s.toBeClosed active) }, s.labelDepths.size)

def newJump (s : Scope) (target : Nat) : Scope × Nat :=
  ({ s with jumps := s.jumps.push target }, s.jumps.size)

/-- Sends the jumps of the current block that look for this label to it. A jump from where fewer
locals were in scope would enter the scope of one, and is the error. -/
def solve (s : Scope) (label : Landmark) : Except Landmark Scope :=
  let first := (s.blocks.head?.map (·.firstJump)).getD 0
  let older := s.pending.toList.take first
  let recent := s.pending.toList.drop first
  let (mine, others) := recent.partition fun j => j.name == label.name
  match mine.find? fun j => j.active < label.active with
  | some j => .error j
  | none =>
    .ok { s with
      pending := (older ++ others).toArray
      jumps := mine.foldl (fun jumps j => jumps.setIfInBounds j.id label.id) s.jumps }

/-- Leaves a block: its locals and labels go out of scope, and its open jumps look on outside. -/
def leaveBlock (s : Scope) : Scope :=
  match s.blocks with
  | [] => s
  | b :: rest =>
    { s with
      blocks := rest
      active := s.active.extract 0 b.active
      declared := b.active
      slots := b.slots
      free := b.slots
      labels := s.labels.extract 0 b.firstLabel
      pending := s.pending.mapIdx fun i j =>
        if i ≥ b.firstJump then { j with active := min j.active b.active } else j }

end Scope

end Gauge.Script
