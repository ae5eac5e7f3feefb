import Gauge.Metric
import Gauge.Rule

/-!
Rule documents: a rule's code and numbers together with what it is called, what it is about, and the
metrics that it takes.
-/

namespace Gauge

structure RuleMetadata where
  id : String
  name : String
  description : Option String
  tags : Option (List String)
  enabled : Bool
deriving DecidableEq

structure RuleDocument where
  apiVersion : String
  kind : String
  metadata : RuleMetadata
  /-- The names of the metrics that `main` takes, in their order. -/
  inputs : List String
  globals : Globals
  code : String

namespace RuleDocument

/-- The kind of the documents that hold rules. -/
def metricRule : String := "MetricRule"

def id (d : RuleDocument) : String := d.metadata.id

/-- What comes of the rule that a document describes, with some numbers replaced or added before its
code is run. -/
def prepare (d : RuleDocument) (overrides : List (String × Float)) : Except RuleError Unit × Rule :=
  Rule.prepare d.id (d.globals.insertAll overrides).entries d.code

/-- The rule that a document describes, with some numbers replaced or added. -/
def toRuleWith (d : RuleDocument) (overrides : List (String × Float)) : Except RuleError Rule :=
  Rule.ofParts d.id (d.globals.insertAll overrides).entries d.code

def toRule (d : RuleDocument) : Except RuleError Rule := d.toRuleWith []

/-- The values of the metrics that the rule takes. -/
def inputsFrom (d : RuleDocument) (l : MetricList) : Except MissingMetric (List Float) :=
  l.valuesFor d.inputs

/-- Whether two documents are equal, their numbers compared as numbers. -/
def isEqual (d e : RuleDocument) : Bool :=
  d.apiVersion == e.apiVersion && d.kind == e.kind && d.metadata == e.metadata &&
    d.inputs == e.inputs && d.globals.entries == e.globals.entries && d.code == e.code

end RuleDocument

end Gauge
