import Gauge.Script.Library.Arguments

/-!
Functions on threads.
-/

namespace Gauge.Script.Coroutine

open Native

def thread (args : Args) (i : Nat) : Native Nat := do
  match args.value i with
  | .thread id => return id
  | _ => args.failKind i "coroutine"

def create (args : Args) : Native (Array Value) := do
  let f ← args.function 1
  let id ← update (·.newThread f)
  one (.thread id)

def wrap (args : Args) : Native (Array Value) := do
  let f ← args.function 1
  let id ← update (·.newThread f)
  one (.builtin (.resumes id))

def resume (args : Args) : Native (Array Value) := do
  let t ← thread args 1
  match ← Native.resume t (args.extract 1 args.size) with
  | .ok values => return #[.bool true] ++ values
  | .error e => return #[.bool false, e]

/-- Resumes a thread and lets its errors through. A thread that has failed is closed first, which may
give another error; a text gets the place of the call in front. -/
def resumeOrRaise (t : Nat) (args : Args) : Native (Array Value) := do
  match ← Native.resume t args with
  | .ok values => return values
  | .error e =>
    let failed ← read fun h =>
      match (h.thread t).status with
      | .failed _ => true
      | _ => false
    let e ← if failed then
        match ← closeThread t with
        | .ok _ => pure e
        | .error e => pure e
      else pure e
    match e with
    | .string s => fail (.atCaller s)
    | e => throwValue e

def statusName : ThreadStatus → String
  | .suspended => "suspended"
  | .running => "running"
  | .waiting => "normal"
  | .finished | .failed _ => "dead"

def status (args : Args) : Native (Array Value) := do
  let t ← thread args 1
  one (.ofString (← read fun h => statusName (h.thread t).status))

def isyieldable (args : Args) : Native (Array Value) := do
  let view ← inspect
  match args.value 1 with
  | .thread t => bool (if t == view.thread then view.canYield else t != 0)
  | _ => bool view.canYield

def running : Native (Array Value) := do
  let view ← inspect
  return #[.thread view.thread, .bool view.isMain]

def close (args : Args) : Native (Array Value) := do
  let t ← thread args 1
  let name ← read fun h => statusName (h.thread t).status
  if name == "running" || name == "normal" then failAtCaller ("cannot close a " ++ name ++ " coroutine")
  match ← closeThread t with
  | .ok _ => bool true
  | .error e => return #[.bool false, e]

def run (f : CoroutineFunction) (args : Args) : Native (Array Value) :=
  match f with
  | .close => close args
  | .create => create args
  | .isyieldable => isyieldable args
  | .resume => resume args
  | .running => running
  | .status => status args
  | .wrap => wrap args
  | .yield => Native.yield args

end Gauge.Script.Coroutine
