import Gauge.Script.Session
import Gauge.Text.Blank
import Gauge.Text.Utf8

/-!
What can go wrong with a rule, and the words for it.
-/

namespace Gauge

/-- When an error arises: while a rule gets its code, or while it is evaluated. -/
inductive RulePhase where
  | configuration
  | evaluation
deriving DecidableEq, Repr

inductive RuleFault where
  | emptyCode
  /-- The code is no script, or it has failed when it was run. -/
  | brokenCode (reason : String)
  /-- The code defines no function `main`. -/
  | missingMain
  | notValid
  /-- The script has put something else in the place of `main`. -/
  | lostMain
  | failedCall (reason : String)
  | notANumber (found : String)
deriving DecidableEq, Repr

/-- A fault and the name of the rule that has it. -/
structure RuleError where
  rule : String
  fault : RuleFault
deriving DecidableEq, Repr

namespace RuleFault

def phase : RuleFault → RulePhase
  | .emptyCode | .brokenCode _ | .missingMain => .configuration
  | .notValid | .lostMain | .failedCall _ | .notANumber _ => .evaluation

/-- What is said of the rule after its name. -/
def message : RuleFault → String
  | .emptyCode => ": invalid code: code is empty"
  | .brokenCode reason => ": invalid code: " ++ reason
  | .missingMain => ": function main() not found"
  | .notValid => " is not valid"
  | .lostMain => ": calling main() failed: main is no longer a function"
  | .failedCall reason => ": calling main() failed: " ++ reason
  | .notANumber found => ": main() returned " ++ found ++ ", expected a number"

end RuleFault

namespace RuleError

def phase (e : RuleError) : RulePhase := e.fault.phase

def message (e : RuleError) : String := "rule '" ++ e.rule ++ "'" ++ e.fault.message

end RuleError

namespace Script.Failure

/-- Where the account of the calls in progress begins, which is left out. -/
def callsHeading : List Char := "stack traceback:".toList

/-- What comes before the account of the calls, and whether there is one. -/
def beforeCalls : List Char → List Char × Bool
  | [] => ([], false)
  | c :: rest =>
    if callsHeading.isPrefixOf (c :: rest) then ([], true)
    else
      let (s, found) := beforeCalls rest
      (c :: s, found)

/-- The message as a text. White space at the end of an error that a script has raised is left out. -/
def text (f : Failure) : String :=
  let (s, found) := beforeCalls (Text.Utf8.lossy f.message).toList
  match f with
  | .malformed _ => String.ofList (if found then Gauge.Text.trimEnd s else s)
  | _ => String.ofList (Gauge.Text.trimEnd s)

end Script.Failure

end Gauge
