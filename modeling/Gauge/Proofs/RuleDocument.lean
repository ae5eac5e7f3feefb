import Gauge.Proofs.NameMap
import Gauge.Proofs.Yaml.Reader
import Gauge.RuleDocument.Printer
import Gauge.RuleDocument.Reader

/-!
Rule documents as YAML. A document is written as the entries of its fields, and these entries are read
as the document again, whatever the texts and numbers in it.
-/

namespace Gauge

open Yaml Yaml.Reader.Shape

namespace RuleMetadata

def descriptionEntry (description : Option String) (rest : Entries) : Entries :=
  match description with
  | some s => .text "description" s rest
  | none => .word "description" "null" rest

def tagsEntry (tags : Option (List String)) (rest : Entries) : Entries :=
  match tags with
  | some tags => .list "tags" tags rest
  | none => .word "tags" "null" rest

def entries (m : RuleMetadata) : Entries :=
  .text "id" m.id <| .text "name" m.name <| descriptionEntry m.description <|
    tagsEntry m.tags <| .word "enabled" (toString m.enabled) .nil

theorem write_entries (m : RuleMetadata) : m.entries.write 2 = RuleDocument.metadataLines m := by
  obtain ⟨id, name, description, tags, enabled⟩ := m
  cases description <;> cases tags <;>
    simp [entries, descriptionEntry, tagsEntry, RuleDocument.metadataLines, Entries.write]

theorem isBare_null : Writer.IsBare "null".toList :=
  Writer.isBare_of_isPlainAllowed (by decide) (by decide)

theorem isBare_bool (b : Bool) : Writer.IsBare (toString b).toList := by
  cases b with
  | false => exact Writer.isBare_of_isPlainAllowed (by decide) (by decide)
  | true => exact Writer.isBare_of_isPlainAllowed (by decide) (by decide)

theorem wordsAreBare_entries (m : RuleMetadata) : m.entries.WordsAreBare := by
  obtain ⟨id, name, description, tags, enabled⟩ := m
  have htags : (tagsEntry tags (.word "enabled" (toString enabled) .nil)).WordsAreBare := by
    cases tags with
    | none => exact ⟨isBare_null, isBare_bool enabled, trivial⟩
    | some tags => exact ⟨isBare_bool enabled, trivial⟩
  cases description with
  | none => exact ⟨isBare_null, htags⟩
  | some s => exact htags

theorem begins_description (description : Option String) (rest : Entries) :
    (descriptionEntry description rest).Begins "description" (Reader.option string) description
      rest := by
  cases description with
  | none => exact Entries.begins_word (makes_option_null string)
  | some s => exact Entries.begins_text fun _ h => makes_option_text h (makes_string h)

theorem begins_tags (tags : Option (List String)) (rest : Entries) :
    (tagsEntry tags rest).Begins "tags" (Reader.option (Reader.list string)) tags rest := by
  cases tags with
  | none => exact Entries.begins_word (makes_option_null _)
  | some tags => exact Entries.begins_list fun _ _ h => makes_option_sequence (makes_list h)

/-- The fields become known one after another. -/
theorem takes_entries (m : RuleMetadata) :
    shape.Takes m.entries shape.blank
      ⟨some m.id, some m.name, some m.description, some m.tags, some m.enabled⟩ := by
  have hend := takes_nil shape
    ⟨some m.id, some m.name, some m.description, some m.tags, some m.enabled⟩
  refine takes_cons (fun a => ⟨some a, none, none, none, none⟩) rfl rfl (fun _ _ _ => rfl)
    (Entries.begins_text fun _ => makes_string) ?_
  refine takes_cons (fun a => ⟨some m.id, some a, none, none, none⟩) rfl rfl (fun _ _ _ => rfl)
    (Entries.begins_text fun _ => makes_string) ?_
  refine takes_cons (fun a => ⟨some m.id, some m.name, some a, none, none⟩) rfl rfl
    (fun _ _ _ => rfl) (begins_description m.description _) ?_
  refine takes_cons (fun a => ⟨some m.id, some m.name, some m.description, some a, none⟩) rfl rfl
    (fun _ _ _ => rfl) (begins_tags m.tags _) ?_
  exact takes_cons (fun a => ⟨some m.id, some m.name, some m.description, some m.tags, some a⟩) rfl
    rfl (fun _ _ _ => rfl) (Entries.begins_word (makes_bool m.enabled)) hend

theorem readAs_entries (m : RuleMetadata) : m.entries.ReadAs reader m := by
  have hread := readAs_read (takes_entries m) (by simp [shape])
  intro ns h mark d path
  simp only [reader]
  rw [hread ns h mark d path]
  rfl

end RuleMetadata

namespace RuleDocument

def globalEntries (g : Globals) : Entries :=
  .words (g.entries.map fun e => (e.1, Writer.number e.2))

def entries (d : RuleDocument) : Entries :=
  .text "apiVersion" d.apiVersion <| .text "kind" d.kind <|
    .mapping "metadata" d.metadata.entries <| .list "inputs" d.inputs <|
      .mapping "globals" (globalEntries d.globals) <| .text "code" d.code .nil

theorem write_globalEntries (g : Globals) : (globalEntries g).write 2 = globalLines g := by
  simp only [globalEntries, globalLines]
  induction g.entries with
  | nil => rfl
  | cons e rest ih =>
      rw [List.map_cons, List.flatMap_cons, ← ih]
      rfl

/-- A document is written as its entries. -/
theorem toYaml_eq (d : RuleDocument) : d.toYaml = String.ofList (d.entries.write 0) := by
  have hmetadata : d.metadata.entries.write (0 + Writer.indentation) = metadataLines d.metadata :=
    d.metadata.write_entries
  have hglobals : (globalEntries d.globals).write (0 + Writer.indentation) = globalLines d.globals :=
    write_globalEntries d.globals
  simp only [toYaml, entries, Entries.write, hmetadata, hglobals, List.append_assoc, List.append_nil]

theorem wordsAreBare_globalEntries (g : Globals) : (globalEntries g).WordsAreBare := by
  simp only [globalEntries]
  induction g.entries with
  | nil => trivial
  | cons e rest ih => exact ⟨Writer.isBare_number e.2, ih⟩

theorem wordsAreBare_entries (d : RuleDocument) : d.entries.WordsAreBare :=
  ⟨d.metadata.wordsAreBare_entries, wordsAreBare_globalEntries d.globals, trivial⟩

theorem takes_entries (d : RuleDocument) :
    shape.Takes d.entries shape.blank
      ⟨some d.apiVersion, some d.kind, some d.metadata, some d.inputs, some d.globals,
        some d.code⟩ := by
  have hglobals : (globalEntries d.globals).ReadAs (Reader.entries Reader.float) d.globals.entries :=
    Entries.words_readAs_entries makes_float d.globals.entries
  have hend := takes_nil shape
    ⟨some d.apiVersion, some d.kind, some d.metadata, some d.inputs, some d.globals, some d.code⟩
  refine takes_cons (fun a => ⟨some a, none, none, none, none, none⟩) rfl rfl (fun _ _ _ => rfl)
    (Entries.begins_text fun _ => makes_string) ?_
  refine takes_cons (fun a => ⟨some d.apiVersion, some a, none, none, none, none⟩) rfl rfl
    (fun _ _ _ => rfl) (Entries.begins_text fun _ => makes_string) ?_
  refine takes_cons (fun a => ⟨some d.apiVersion, some d.kind, some a, none, none, none⟩) rfl rfl
    (fun _ _ _ => rfl) (Entries.begins_mapping d.metadata.readAs_entries) ?_
  refine takes_cons (fun a => ⟨some d.apiVersion, some d.kind, some d.metadata, some a, none, none⟩)
    rfl rfl (fun _ _ _ => rfl) (Entries.begins_list fun _ _ => makes_list) ?_
  refine takes_cons (fun a => ⟨some d.apiVersion, some d.kind, some d.metadata, some d.inputs,
    some (.ofList a), none⟩) rfl rfl (fun _ _ _ => rfl) (Entries.begins_mapping hglobals) ?_
  rw [NameMap.ofList_entries]
  exact takes_cons (fun a => ⟨some d.apiVersion, some d.kind, some d.metadata, some d.inputs,
    some d.globals, some a⟩) rfl rfl (fun _ _ _ => rfl) (Entries.begins_text fun _ => makes_string)
    hend

theorem readAs_entries (d : RuleDocument) : d.entries.ReadAs reader d := by
  have hread := readAs_read (takes_entries d) (by simp [shape])
  intro ns h mark document path
  simp only [reader]
  rw [hread ns h mark document path]
  rfl

/-- Every document is read back from the text that it is written as. -/
theorem ofYaml_toYaml (d : RuleDocument) : ofYaml d.toYaml = .ok d := by
  rw [toYaml_eq]
  exact Reader.whole_write Entries.noConfusion d.wordsAreBare_entries d.readAs_entries

end RuleDocument

end Gauge
