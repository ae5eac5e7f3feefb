import Gauge.Script.Machine
import Gauge.Script.Surroundings

/-!
A running script as its host sees it: a text is run, global variables are set and looked up, functions
are called. What the script keeps from one of these to the next is in the session, so that a session
is the same as another one if it has come about in the same way.
-/

namespace Gauge.Script

structure Session where
  heap : Heap
  /-- The calls in progress of threads that wait to be resumed. -/
  parked : Array (List Frame)
  /-- The exit code with which the script has ended the program, if it has. -/
  exit : Option Nat

/-- Why something asked of a session has failed. -/
inductive Failure where
  /-- The text is no script. -/
  | malformed (message : ByteArray)
  /-- The script has raised an error. -/
  | raised (message : ByteArray)
  /-- The host has refused. -/
  | refused (message : ByteArray)

namespace Failure

/-- The message of a failure, after what kind of failure it is. A refusal explains itself. -/
def message : Failure → ByteArray
  | .malformed m => "syntax error: ".toUTF8 ++ m
  | .raised m => "runtime error: ".toUTF8 ++ m
  | .refused m => m

/-- The failure that an error value stands for, which by now is a text or the host's own. A text ends
at its first NUL. -/
def ofError : Value → Failure
  | .failure m => .refused m
  | v => .raised ((v.text?.getD ByteArray.empty).untilNul)

end Failure

namespace Session

/-- The session of a script that has not run yet. -/
def start : Session := ⟨Surroundings.heap, #[], none⟩

/-- What the script has written so far. -/
def transcript (s : Session) : Transcript := ⟨s.heap.acts, s.exit⟩

/-- The program has come to its end, and nothing can be asked of the script any more. -/
def programEnded : Failure := .refused "the script has ended the program".toUTF8

/-- What a run in the session has come to. -/
def finish (s : Session) : Machine.Ending → Except Failure (Array Value) × Session
  | .ended (.ok values) h parked => (.ok values, ⟨h, parked, none⟩)
  | .ended (.error e) h parked => (.error (.ofError e), ⟨h, parked, none⟩)
  | .exited code h => (.error programEnded, ⟨h, #[], some code⟩)
  | .outOfFuel => (.error (.refused "the script does not end".toUTF8), s)

/-- Runs a program of the host. -/
def perform (s : Session) (p : Native (Array Value)) : Except Failure (Array Value) × Session :=
  if s.exit.isSome then (.error programEnded, s)
  else s.finish (Machine.perform p s.parked s.heap)

/-- How many arguments a call may have. -/
def maxArguments : Nat := Activation.stackLimit - 4

def tooManyArguments : Failure :=
  .refused ("out of Lua stack, too many arguments to a Lua function or too many return values " ++
    "from a callback").toUTF8

def call (s : Session) (f : Value) (args : Array Value) : Except Failure (Array Value) × Session :=
  if s.exit.isSome then (.error programEnded, s)
  else if args.size > maxArguments then (.error tooManyArguments, s)
  else s.finish (Machine.call f args s.parked s.heap)

/-- Sets a global variable, as a script would. An error on the way is nobody's concern. -/
def setGlobal (s : Session) (name : String) (v : Value) : Session :=
  (s.perform (do
    Native.setIndex (.table (← Native.read (·.globals))) (.ofString name) v
    return #[])).2

/-- The value of a global variable, as a script would read it. -/
def global (s : Session) (name : String) : Except Failure Value × Session :=
  let (r, s) := s.perform (do
    return #[← Native.index (.table (← Native.read (·.globals))) (.ofString name)])
  (r.map (·.getD 0 .nil), s)

/-- A name cannot hold a NUL. -/
def nameFailure? (name : ByteArray) : Option Failure :=
  (name.findByte? 0 0).map fun i =>
    .raised ("invalid name: nul byte found in provided data at position: " ++
      toString (i + 1)).toUTF8

/-- How deep the host's calls are nested when a text is read. -/
def readDepth : Nat := 1

/-- Runs a text as a script of the given name. -/
def exec (s : Session) (name code : ByteArray) : Except Failure Unit × Session :=
  match nameFailure? name with
  | some f => (.error f, s)
  | none =>
    let chunk := "=".toUTF8 ++ name
    if code.byte 0 == Chunk.binaryMark && code.size > 0 then 
      (.error (.malformed (Chunk.binaryMessage code chunk)), s)
    else
      let source := Chunk.sourceOf chunk
      match Chunk.read code source readDepth with
      | .error (.malformed m) => (.error (.malformed m), s)
      | .error .tooDeep => (.error (.raised "C stack overflow".toUTF8), s)
      | .ok c =>
        let (r, s) := s.perform (do
          let f ← Base.closureOf c source (.table (← Native.read (·.globals)))
          return #[f])
        match r with
        | .error f => (.error f, s)
        | .ok values =>
          let (r, s) := s.call (values.getD 0 .nil) #[]
          (r.map fun _ => (), s)

end Session

end Gauge.Script
