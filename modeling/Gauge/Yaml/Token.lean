import Gauge.Yaml.Mark

/-!
The tokens of a YAML text. Indentation has become tokens too: they open and close the collections
that are told by it.
-/

namespace Gauge.Yaml

inductive ScalarStyle where
  | plain | singleQuoted | doubleQuoted | literal | folded
deriving DecidableEq, Repr

inductive Lexeme where
  | streamEnd
  | versionDirective (major minor : Nat)
  | tagDirective (handle expansion : String)
  | documentStart | documentEnd
  | blockSequenceStart | blockMappingStart | blockEnd
  | flowSequenceStart | flowSequenceEnd
  | flowMappingStart | flowMappingEnd
  | blockEntry | flowEntry | key | value
  | alias (name : String)
  | anchor (name : String)
  | tag (handle suffix : String)
  | scalar (value : String) (style : ScalarStyle)
deriving DecidableEq, Repr

/-- A lexeme and the places where it begins and ends. -/
structure Token where
  lexeme : Lexeme
  first : Mark
  last : Mark
deriving DecidableEq, Repr

end Gauge.Yaml
