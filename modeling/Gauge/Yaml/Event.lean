import Gauge.Yaml.Token

/-!
A YAML text as a sequence of events: nodes one after another, collections between their beginning
and their end.
-/

namespace Gauge.Yaml

/-- What is told of a scalar besides its anchor. -/
structure Scalar where
  value : String
  style : ScalarStyle
  tag : Option String
deriving DecidableEq, Repr

inductive Happening where
  | streamEnd | documentStart | documentEnd
  | alias (name : String)
  | scalar (anchor : Option String) (s : Scalar)
  | sequenceStart (anchor : Option String)
  | sequenceEnd
  | mappingStart (anchor : Option String)
  | mappingEnd
deriving DecidableEq, Repr

structure Event where
  happening : Happening
  mark : Mark
deriving DecidableEq, Repr

end Gauge.Yaml
