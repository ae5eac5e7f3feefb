import Gauge.NameMap
import Gauge.Rule.Error

/-!
Scoring rules. A rule has a script whose function `main` takes measured values and gives a number, and
named numbers that the script finds as global variables. Giving a rule its code runs the script from
scratch, so that nothing is left of what an earlier script did.
-/

namespace Gauge

/-- Numbers that a script finds as global variables. -/
abbrev Globals : Type := NameMap Float

/-- Whether a rule has been given code, and whether that code can be evaluated. -/
inductive RuleState where
  | unconfigured
  | valid
  | invalid
deriving DecidableEq, Repr

/-- How far a rule is set up. A script that has been run lives on in its session. -/
inductive RuleStatus where
  | unconfigured
  | valid (session : Script.Session)
  | invalid (session : Script.Session)

structure Rule where
  name : String
  code : String
  globals : Globals
  status : RuleStatus

namespace RuleStatus

def state : RuleStatus → RuleState
  | .unconfigured => .unconfigured
  | .valid _ => .valid
  | .invalid _ => .invalid

/-- Changes the session, if there is one. -/
def mapSession (f : Script.Session → Script.Session) : RuleStatus → RuleStatus
  | .unconfigured => .unconfigured
  | .valid s => .valid (f s)
  | .invalid s => .invalid (f s)

end RuleStatus

namespace Rule

/-- The function that every rule's script defines. -/
def entryPoint : String := "main"

/-- A rule without code. -/
def new (name : String) : Rule := ⟨name, "", .empty, .unconfigured⟩

def state (r : Rule) : RuleState := r.status.state

def isValid (r : Rule) : Bool := r.state == .valid

def error (r : Rule) (fault : RuleFault) : RuleError := ⟨r.name, fault⟩

/-- Makes the numbers known to a script. -/
def pushGlobals (g : Globals) (s : Script.Session) : Script.Session :=
  g.entries.foldl (fun s e => s.setGlobal e.1 (.float e.2)) s

/-- Takes from a script the numbers whose names are not in `kept`. -/
def clearGlobals (g kept : Globals) (s : Script.Session) : Script.Session :=
  (g.names.filter fun n => (kept.get? n).isNone).foldl (fun s n => s.setGlobal n .nil) s

/-- Replaces all numbers. A script that is running sees the new ones from now on. -/
def setGlobals (r : Rule) (entries : List (String × Float)) : Rule :=
  let g : Globals := .ofList entries
  { r with
    globals := g
    status := r.status.mapSession fun s => pushGlobals g (clearGlobals r.globals g s) }

/-- The function `main` of a script, if there is one. -/
def entryOf (s : Script.Session) : Except Script.Failure (Option Script.Value) × Script.Session :=
  let (r, s) := s.global entryPoint
  (r.map fun v => if Script.Native.isCallable v then some v else none, s)

/-- Runs code in a fresh session and looks for `main`: the session it leaves, and what is wrong. -/
def configure (name : String) (g : Globals) (code : String) : Script.Session × Option RuleFault :=
  let s := pushGlobals g .start
  if Text.isBlankText code then (s, some .emptyCode)
  else
    match s.exec name.toUTF8 code.toUTF8 with
    | (.error f, s) => (s, some (.brokenCode f.text))
    | (.ok _, s) =>
      match entryOf s with
      | (.error f, s) => (s, some (.brokenCode f.text))
      | (.ok none, s) => (s, some .missingMain)
      | (.ok (some _), s) => (s, none)

/-- Gives the rule its code and runs it. A rule whose code is refused keeps that code. -/
def setCode (r : Rule) (code : String) : Except RuleError Unit × Rule :=
  match configure r.name r.globals code with
  | (s, none) => (.ok (), { r with code := code, status := .valid s })
  | (s, some fault) => (.error (r.error fault), { r with code := code, status := .invalid s })

/-- A rule of the given parts, valid or not. -/
def prepare (name : String) (entries : List (String × Float)) (code : String) :
    Except RuleError Unit × Rule :=
  (setGlobals (new name) entries).setCode code

def ofParts (name : String) (entries : List (String × Float)) (code : String) :
    Except RuleError Rule :=
  match prepare name entries code with
  | (.ok _, r) => .ok r
  | (.error e, _) => .error e

/-- What the rule's script has written since it was given its code. -/
def transcript (r : Rule) : Script.Transcript :=
  match r.status with
  | .unconfigured => .empty
  | .valid s | .invalid s => s.transcript

/-- The number that a result of `main` is; strings are none. -/
def numberOf : Script.Value → Except RuleFault Float
  | .float x => .ok x
  | .int n => .ok (Script.Numeral.ofInt64 n)
  | .failure _ => .error (.notANumber "error")
  | v => .error (.notANumber v.kind.name)

/-- Calls `main` in a session. -/
def evaluateIn (s : Script.Session) (args : List Float) :
    Except RuleFault Float × Script.Session :=
  match entryOf s with
  | (.error f, s) => (.error (.failedCall f.text), s)
  | (.ok none, s) => (.error .lostMain, s)
  | (.ok (some main), s) =>
    match s.call main (args.map Script.Value.float).toArray with
    | (.error f, s) => (.error (.failedCall f.text), s)
    | (.ok values, s) => (numberOf (values.getD 0 .nil), s)

/-- Evaluates a rule on measured values. What the script keeps for its next call is in the rule that
comes back. -/
def evaluate (r : Rule) (args : List Float) : Except RuleError Float × Rule :=
  match r.status with
  | .valid s =>
    let (result, s) := evaluateIn s args
    (result.mapError r.error, { r with status := .valid s })
  | _ => (.error (r.error .notValid), r)

/-- A copy with a session of its own, which has run the same code on the same numbers. -/
def clone (r : Rule) : Rule :=
  let copy : Rule := { new r.name with globals := r.globals }
  match r.status with
  | .unconfigured => copy
  | _ => (copy.setCode r.code).2

/-- As `clone`, but no copy that is not valid. -/
def tryClone (r : Rule) : Except RuleError Rule :=
  let copy : Rule := { new r.name with globals := r.globals }
  match r.status with
  | .unconfigured => .ok copy
  | _ =>
    match copy.setCode r.code with
    | (.ok _, copy) => .ok copy
    | (.error e, _) => .error e

end Rule

end Gauge
