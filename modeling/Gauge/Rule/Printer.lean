import Gauge.Numeral.Layout
import Gauge.Rule
import Gauge.Text.Quoted

/-!
Rules as texts that show what they are.
-/

namespace Gauge

def RuleState.name : RuleState → String
  | .unconfigured => "Unconfigured"
  | .valid => "Valid"
  | .invalid => "Invalid"

namespace Rule

/-- Numbers from 0.0001 up to 10 ^ 16 are written without an exponent, whole ones with `.0`. -/
def numberStyle : NumeralStyle :=
  ⟨some (-4), some 16, true, false, .up, "NaN", "inf", "-inf"⟩

def showGlobals (g : Globals) : String :=
  "\x7b" ++ ", ".intercalate (g.entries.map fun e =>
    Text.Quoted.encode e.1 ++ ": " ++ numberStyle.write e.2) ++ "\x7d"

/-- The name, the state, the numbers and the size of the code. -/
def describe (r : Rule) : String :=
  "Rule \x7b name: " ++ Text.Quoted.encode r.name ++ ", state: " ++ r.state.name ++ ", globals: " ++
    showGlobals r.globals ++ ", code_len: " ++ toString r.code.utf8ByteSize ++ " \x7d"

end Rule

end Gauge
