import Gauge.Script.Heap

/-!
Programs of the host: what the operators and the functions of the language do, step by step. A
program works on the heap and may stop to ask for something that only the machine can do, such as a
call of a value; it goes on with the answer.
-/

namespace Gauge.Script

/-- Why a program fails. What the message says about the place is up to who runs the program. -/
inductive Fault where
  /-- An error with a value of its own. -/
  | thrown (v : Value)
  /-- A message that names the place from which the running function was called. -/
  | atCaller (message : ByteArray)
  /-- A refusal of an argument, counted from 1. -/
  | argument (index : Nat) (message : ByteArray)
  /-- A message that names the place of the operation, if that is in a script. -/
  | atOperation (message : ByteArray)
  /-- An operand is of a kind the operation does not work on; the message also names what it is. -/
  | operand (index : Nat) (before after : ByteArray)
  /-- Too deep a nesting, found while errors are handled. -/
  | beyondHandling

/-- What a program can learn about the machine that runs it. -/
structure View where
  /-- The place from which the function so many levels up was called, as a beginning of a message. -/
  placeOf : Nat → ByteArray
  thread : Nat
  isMain : Bool
  canYield : Bool
  /-- How deep calls are nested that the machine cannot flatten. -/
  depth : Nat
  /-- How many more values fit on the stack. -/
  room : Nat

inductive Step (α : Type) where
  | done (a : α) (h : Heap)
  | fail (f : Fault) (h : Heap)
  | call (f : Value) (args : Array Value) (h : Heap) (k : Array Value → Heap → Step α)
  /-- A call whose error is an answer, too; the handler is called where the error is raised. -/
  | protect (handler : Option Value) (f : Value) (args : Array Value) (h : Heap)
      (k : Except Value (Array Value) → Heap → Step α)
  | resume (thread : Nat) (args : Array Value) (h : Heap)
      (k : Except Value (Array Value) → Heap → Step α)
  | yield (values : Array Value) (h : Heap) (k : Array Value → Heap → Step α)
  /-- Ends a thread, closing what it has to close. -/
  | closeThread (thread : Nat) (h : Heap) (k : Except Value (Array Value) → Heap → Step α)
  | inspect (h : Heap) (k : View → Heap → Step α)
  /-- Ends the program, at once. -/
  | exit (code : Nat) (h : Heap)

namespace Step

def bind {α β : Type} (s : Step α) (f : α → Heap → Step β) : Step β :=
  match s with
  | .done a h => f a h
  | .fail e h => .fail e h
  | .call g args h k => .call g args h fun r h => (k r h).bind f
  | .protect handler g args h k => .protect handler g args h fun r h => (k r h).bind f
  | .resume t args h k => .resume t args h fun r h => (k r h).bind f
  | .yield vs h k => .yield vs h fun r h => (k r h).bind f
  | .closeThread t h k => .closeThread t h fun r h => (k r h).bind f
  | .inspect h k => .inspect h fun v h => (k v h).bind f
  | .exit code h => .exit code h

end Step

def Native (α : Type) : Type := Heap → Step α

namespace Native

@[inline] protected def pure {α : Type} (a : α) : Native α := fun h => .done a h

@[inline] protected def bind {α β : Type} (x : Native α) (f : α → Native β) : Native β := fun h =>
  match x h with
  | .done a h => f a h
  | s => s.bind f

instance : Monad Native where
  pure := Native.pure
  bind := Native.bind

@[inline] def fail {α : Type} (f : Fault) : Native α := fun h => .fail f h

@[inline] def getHeap : Native Heap := fun h => .done h h

@[inline] def modifyHeap (f : Heap → Heap) : Native Unit := fun h => .done () (f h)

/-- Reads from the heap without holding on to it. -/
@[inline] def read {α : Type} (f : Heap → α) : Native α := fun h => let a := f h; .done a h

/-- Changes the heap and gives a result with it. -/
@[inline] def update {α : Type} (f : Heap → α × Heap) : Native α := fun h =>
  let (a, h) := f h
  .done a h

def call (f : Value) (args : Array Value) : Native (Array Value) := fun h => .call f args h .done

def protect (handler : Option Value) (f : Value) (args : Array Value) :
    Native (Except Value (Array Value)) := fun h => .protect handler f args h .done

def resume (thread : Nat) (args : Array Value) : Native (Except Value (Array Value)) := fun h =>
  .resume thread args h .done

def yield (values : Array Value) : Native (Array Value) := fun h => .yield values h .done

def closeThread (thread : Nat) : Native (Except Value (Array Value)) := fun h =>
  .closeThread thread h .done

def inspect : Native View := fun h => .inspect h .done

def exit {α : Type} (code : Nat) : Native α := fun h => .exit code h

/-- Calls for the first result alone. -/
def call1 (f : Value) (args : Array Value) : Native Value := do
  return (← call f args).getD 0 .nil

def throwValue {α : Type} (v : Value) : Native α := fail (.thrown v)
def failAtCaller {α : Type} (message : String) : Native α := fail (.atCaller message.toUTF8)
def failArgument {α : Type} (index : Nat) (message : String) : Native α :=
  fail (.argument index message.toUTF8)
def failAtOperation {α : Type} (message : String) : Native α := fail (.atOperation message.toUTF8)

end Native

end Gauge.Script
