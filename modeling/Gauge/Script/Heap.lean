import Gauge.Script.Code
import Gauge.Script.Table
import Gauge.Script.Transcript

/-!
What a script has made so far: tables, closures, variables that outlive a call, threads and running
searches, each given by its number; and what it has written.
-/

namespace Gauge.Script

/-- A function of a script: its code, the cells of the variables it has captured, and what messages
call the script it is from. -/
structure Closure where
  code : Code
  captured : Array Nat
  source : ByteArray
deriving Inhabited

inductive ThreadStatus where
  | suspended
  | running
  /-- It has resumed another thread. -/
  | waiting
  | finished
  /-- It ended with an error, which closing it reports. -/
  | failed (error : Value)
deriving Inhabited

/-- A thread that has not started has a function to start with. -/
structure ThreadInfo where
  status : ThreadStatus
  start : Option Value
deriving Inhabited

/-- A search for one match after another: the next starts at `next`, and an empty match where the
last one ended does not count. -/
structure Search where
  text : ByteArray
  pattern : ByteArray
  next : Nat
  lastEnd : Option Nat
deriving Inhabited

structure Heap where
  tables : Array Table
  closures : Array Closure
  cells : Array Value
  threads : Array ThreadInfo
  searches : Array Search
  /-- The table of global variables. -/
  globals : Nat
  /-- The table of loaded packages. -/
  loaded : Nat
  package : Nat
  /-- The table of loaders of packages that are at hand. -/
  preload : Nat
  stringMeta : Nat
  streamMeta : Nat
  /-- The streams that are read and written where none is named. -/
  currentInput : Nat
  currentOutput : Nat
  /-- What the script has done to the streams. -/
  acts : Array StreamAct
  random : UInt64 × UInt64 × UInt64 × UInt64
  globals_lt : globals < tables.size

namespace Heap

def empty : Heap :=
  { tables := #[Table.empty], closures := #[], cells := #[], threads := #[], searches := #[]
    globals := 0, loaded := 0, package := 0, preload := 0, stringMeta := 0, streamMeta := 0
    currentInput := 0, currentOutput := 1
    acts := #[], random := (0, 0, 0, 0), globals_lt := by decide }

instance : Inhabited Heap := ⟨empty⟩

/-- Does something to the streams. -/
@[inline] def act (h : Heap) (a : StreamAct) : Heap := { h with acts := h.acts.push a }

def table (h : Heap) (id : Nat) : Table := h.tables.getD id Table.empty

@[inline] def modifyTable (h : Heap) (id : Nat) (f : Table → Table) : Heap :=
  { h with tables := h.tables.modify id f, globals_lt := by simpa using h.globals_lt }

def newTable (h : Heap) (t : Table) : Nat × Heap :=
  (h.tables.size,
    { h with
      tables := h.tables.push t
      globals_lt := by simpa using Nat.lt_succ_of_lt h.globals_lt })

def newClosure (h : Heap) (c : Closure) : Nat × Heap :=
  (h.closures.size, { h with closures := h.closures.push c })

def newCell (h : Heap) (v : Value) : Nat × Heap :=
  (h.cells.size, { h with cells := h.cells.push v })

def newThread (h : Heap) (start : Value) : Nat × Heap :=
  (h.threads.size, { h with threads := h.threads.push ⟨.suspended, some start⟩ })

def newSearch (h : Heap) (s : Search) : Nat × Heap :=
  (h.searches.size, { h with searches := h.searches.push s })

def cell (h : Heap) (id : Nat) : Value := h.cells.getD id .nil

@[inline] def setCell (h : Heap) (id : Nat) (v : Value) : Heap :=
  { h with cells := h.cells.setIfInBounds id v }

def thread (h : Heap) (id : Nat) : ThreadInfo := h.threads.getD id ⟨.finished, none⟩

def setThread (h : Heap) (id : Nat) (status : ThreadStatus) : Heap :=
  { h with threads := h.threads.setIfInBounds id ⟨status, none⟩ }

/-- The metatable of a value. Tables have their own, strings and streams one for all of them. -/
def metatable (h : Heap) (v : Value) : Option Nat :=
  match v with
  | .table id => (h.table id).metatable
  | .string _ => some h.stringMeta
  | .stream _ => some h.streamMeta
  | _ => none

/-- What a value's metatable says under a name; nil if nothing. -/
def metamethod (h : Heap) (v : Value) (name : ByteArray) : Value :=
  match h.metatable v with
  | some m => (h.table m).getSlot (.string name)
  | none => .nil

end Heap

end Gauge.Script
