import Gauge.RuleDocument
import Gauge.Yaml.Reader

/-!
Reading rule documents. They have the fields that are known here and no others.
-/

namespace Gauge

namespace RuleMetadata

/-- Metadata of which some fields have been read. -/
structure Partial where
  id : Option String
  name : Option String
  description : Option (Option String)
  tags : Option (Option (List String))
  enabled : Option Bool

def string : Yaml.Reader String := Yaml.Reader.string "a string"

/-- A rule is enabled unless it says otherwise. -/
def shape : Yaml.Reader.Shape Partial where
  name := "RuleMetadata"
  blank := ⟨none, none, none, none, none⟩
  fields := [
    { name := "id", isKnown := (·.id.isSome), default := none
      read := fun p d path n => do return { p with id := some (← string d path n) } },
    { name := "name", isKnown := (·.name.isSome), default := none
      read := fun p d path n => do return { p with name := some (← string d path n) } },
    { name := "description", isKnown := (·.description.isSome)
      default := some fun p => { p with description := some none }
      read := fun p d path n => do
        return { p with description := some (← Yaml.Reader.option string d path n) } },
    { name := "tags", isKnown := (·.tags.isSome)
      default := some fun p => { p with tags := some none }
      read := fun p d path n => do
        return { p with tags := some (← Yaml.Reader.option (Yaml.Reader.list string) d path n) } },
    { name := "enabled", isKnown := (·.enabled.isSome)
      default := some fun p => { p with enabled := some true }
      read := fun p d path n => do
        return { p with enabled := some (← Yaml.Reader.bool d path n) } }]

def reader : Yaml.Reader RuleMetadata := fun d path n => do
  let p ← shape.read d path n
  return ⟨p.id.getD "", p.name.getD "", p.description.join, p.tags.join, p.enabled.getD true⟩

end RuleMetadata

namespace RuleDocument

/-- A document of which some fields have been read. -/
structure Partial where
  apiVersion : Option String
  kind : Option String
  metadata : Option RuleMetadata
  inputs : Option (List String)
  globals : Option Globals
  code : Option String

def shape : Yaml.Reader.Shape Partial where
  name := "RuleDocument"
  blank := ⟨none, none, none, none, none, none⟩
  fields := [
    { name := "apiVersion", isKnown := (·.apiVersion.isSome), default := none
      read := fun p d path n => do
        return { p with apiVersion := some (← RuleMetadata.string d path n) } },
    { name := "kind", isKnown := (·.kind.isSome), default := none
      read := fun p d path n => do return { p with kind := some (← RuleMetadata.string d path n) } },
    { name := "metadata", isKnown := (·.metadata.isSome), default := none
      read := fun p d path n => do
        return { p with metadata := some (← RuleMetadata.reader d path n) } },
    { name := "inputs", isKnown := (·.inputs.isSome)
      default := some fun p => { p with inputs := some [] }
      read := fun p d path n => do
        return { p with inputs := some (← Yaml.Reader.list RuleMetadata.string d path n) } },
    { name := "globals", isKnown := (·.globals.isSome)
      default := some fun p => { p with globals := some .empty }
      read := fun p d path n => do
        let entries ← Yaml.Reader.entries Yaml.Reader.float d path n
        return { p with globals := some (.ofList entries) } },
    { name := "code", isKnown := (·.code.isSome), default := none
      read := fun p d path n => do
        return { p with code := some (← RuleMetadata.string d path n) } }]

def reader : Yaml.Reader RuleDocument := fun d path n => do
  let p ← shape.read d path n
  return ⟨p.apiVersion.getD "", p.kind.getD "", p.metadata.getD ⟨"", "", none, none, true⟩,
    p.inputs.getD [], p.globals.getD .empty, p.code.getD ""⟩

def ofYaml (text : String) : Except Yaml.Error RuleDocument := Yaml.Reader.whole reader text

end RuleDocument

end Gauge
