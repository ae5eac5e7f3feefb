import Gauge.RuleDocument
import Gauge.Yaml.Writer

/-!
Writing rule documents as YAML.
-/

namespace Gauge.RuleDocument

open Yaml.Writer

def metadataLines (m : RuleMetadata) : List Char :=
  textEntry 2 "id" m.id ++ textEntry 2 "name" m.name ++
    (match m.description with
      | some s => textEntry 2 "description" s
      | none => wordEntry 2 "description" "null") ++
    (match m.tags with
      | some tags => listEntry 2 "tags" tags
      | none => wordEntry 2 "tags" "null") ++
    wordEntry 2 "enabled" (toString m.enabled)

def globalLines (g : Globals) : List Char :=
  g.entries.flatMap fun e => wordEntry 2 e.1 (number e.2)

def toYaml (d : RuleDocument) : String :=
  String.ofList <|
    textEntry 0 "apiVersion" d.apiVersion ++ textEntry 0 "kind" d.kind ++
      mappingEntry 0 "metadata" (metadataLines d.metadata) ++ listEntry 0 "inputs" d.inputs ++
      mappingEntry 0 "globals" (globalLines d.globals) ++ textEntry 0 "code" d.code

end Gauge.RuleDocument
