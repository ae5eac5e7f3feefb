import Gauge.Alert
import Gauge.Config
import Gauge.Proofs.Json.Record

/-!
Alerts and settings through JSON. All of their fields are texts, numbers of 64 bits, names of a fixed list and lists
of texts, so that they come back as they were written. Of an alert the severity and the actions may be left out.
-/

namespace Gauge

open Json.Reader

namespace Json.Reader

theorem takes_variant {known : List String} {s : String} (h : known.contains s = true) (rest : List Char) :
    Takes (variant known) (Json.string s).toList s rest := by
  rw [toList_string]
  unfold variant
  refine (takes_next_cons (by decide) _).bind_first ?_
  refine Takes.placed ?_
  refine (takes_nextOfValue (by decide) _).bind_first ?_
  refine (takes_advance '"' _).bind ?_
  refine (takes_stringBody s rest).bind_last ?_
  rw [if_pos h]
  exact takes_pure s rest

theorem takes_strings (expected : String) (texts : List String) (rest : List Char) :
    Takes (list (string expected)) (Json.array (texts.map Json.string)).toList texts rest := by
  have hlist : IsList (string expected) (texts.map fun s => ((Json.string s).toList, s)) := by
    constructor
    · intro x hx more _
      obtain ⟨s, -, rfl⟩ := List.mem_map.1 hx
      dsimp only
      exact takes_string expected s more
    · intro x hx
      obtain ⟨s, -, rfl⟩ := List.mem_map.1 hx
      dsimp only
      exact ⟨'"', _, toList_string s, by decide, by decide⟩
  have htakes := takes_list hlist rest
  simp only [List.map_map, Function.comp_def, List.map_id'] at htakes
  rw [toList_array, List.map_map]
  exact htakes

theorem IsRecord.append {σ : Type} {s : Shape σ} {first middle last : σ}
    {members members' : List (String × List Char)} (h : IsRecord s first members middle)
    (h' : IsRecord s middle members' last) : IsRecord s first (members ++ members') last := by
  induction h with
  | nil => exact h'
  | cons hf hnew htakes _ ih => exact .cons hf hnew htakes (ih h')

end Json.Reader

namespace AlertStatus

theorem ofName?_name (s : AlertStatus) : ofName? s.name = some s := by cases s <;> decide

theorem contains_names (s : AlertStatus) : names.contains s.name = true := by cases s <;> decide

theorem takes_reader (s : AlertStatus) (rest : List Char) : Takes reader s.toJson.toList s rest := by
  refine (takes_variant s.contains_names rest).bind_last ?_
  rw [ofName?_name]
  exact takes_pure s rest

end AlertStatus

namespace Alert

/-- The members of an alert as they are written. -/
def members (a : Alert) : List (String × String) :=
  [("status", a.status.toJson), ("timestamp", Json.int a.timestamp.toInt),
    ("description", Json.string a.description), ("element", Json.string a.element),
    ("severity", Json.string a.severity), ("actions", Json.array (a.actions.map Json.string))]

/-- The text of an alert with its severity and its actions only where they are asked for. -/
def toJsonWith (a : Alert) (severity actions : Bool) : String :=
  Json.object (a.members.filter fun m => (severity || m.1 != "severity") && (actions || m.1 != "actions"))

theorem toJsonWith_true (a : Alert) : a.toJsonWith true true = a.toJson := rfl

/-- What is said of an alert by the text that `toJsonWith` makes. -/
def keeping (a : Alert) (severity actions : Bool) : Alert :=
  { a with severity := if severity then a.severity else "", actions := if actions then a.actions else [] }

/-- What has been read of an alert when its members are through. -/
def read (a : Alert) (severity actions : Bool) : Partial :=
  ⟨some a.status, some a.timestamp, some a.description, some a.element,
    if severity then some a.severity else none, if actions then some a.actions else none⟩

theorem isRecord_required (a : Alert) :
    IsRecord shape shape.blank ((a.members.take 4).map fun f => (f.1, f.2.toList)) (a.read false false) := by
  refine .cons rfl rfl (fun rest _ => (a.status.takes_reader rest).bind_last (takes_pure _ rest)) ?_
  refine .cons rfl rfl (fun rest hends => (takes_int64 a.timestamp hends).bind_last (takes_pure _ rest)) ?_
  refine .cons rfl rfl (fun rest _ => (takes_string _ a.description rest).bind_last (takes_pure _ rest)) ?_
  refine .cons rfl rfl (fun rest _ => (takes_string _ a.element rest).bind_last (takes_pure _ rest)) ?_
  exact .nil _

theorem isRecord_severity (a : Alert) :
    IsRecord shape (a.read false false) [("severity", (Json.string a.severity).toList)] (a.read true false) :=
  .cons rfl rfl (fun rest _ => (takes_string _ a.severity rest).bind_last (takes_pure _ rest)) (.nil _)

theorem isRecord_actions (a : Alert) (severity : Bool) :
    IsRecord shape (a.read severity false) [("actions", (Json.array (a.actions.map Json.string)).toList)]
      (a.read severity true) :=
  .cons rfl rfl (fun rest _ => (takes_strings _ a.actions rest).bind_last (takes_pure _ rest)) (.nil _)

theorem filter_members (a : Alert) (severity actions : Bool) :
    a.members.filter (fun m => (severity || m.1 != "severity") && (actions || m.1 != "actions")) =
      a.members.take 4 ++ ((if severity then [("severity", Json.string a.severity)] else []) ++
        if actions then [("actions", Json.array (a.actions.map Json.string))] else []) := by
  cases severity <;> cases actions <;> simp [members]

theorem isRecord_members (a : Alert) (severity actions : Bool) :
    IsRecord shape shape.blank
      ((a.members.filter fun m => (severity || m.1 != "severity") && (actions || m.1 != "actions")).map
        fun f => (f.1, f.2.toList)) (a.read severity actions) := by
  rw [filter_members, List.map_append, List.map_append]
  refine a.isRecord_required.append (.append (?_ : IsRecord _ _ _ (a.read severity false)) ?_)
  · cases severity with
    | false => exact .nil _
    | true => exact a.isRecord_severity
  · cases actions with
    | false => exact .nil _
    | true => exact a.isRecord_actions severity

/-- What a reading of the alert ends with, when what is missing has been filled in. -/
def completed (a : Alert) (severity actions : Bool) : Partial :=
  { a.read severity actions with
    severity := some (a.keeping severity actions).severity
    actions := some (a.keeping severity actions).actions }

theorem complete_read (a : Alert) (severity actions : Bool) :
    Shape.complete shape.fields (a.read severity actions) = pure (a.completed severity actions) := by
  cases severity <;> cases actions <;> rfl

theorem ofJson_toJsonWith (a : Alert) (severity actions : Bool) :
    ofJson (a.toJsonWith severity actions) = .ok (a.keeping severity actions) := by
  have hread := takes_read (a.isRecord_members severity actions) (a.complete_read severity actions) []
  rw [List.map_map] at hread
  have hwhole : Takes reader (a.toJsonWith severity actions).toList (a.keeping severity actions) [] := by
    rw [toJsonWith, toList_object]
    exact hread.bind_last (takes_pure (a.keeping severity actions) [])
  exact whole_eq hwhole

end Alert

namespace Config

theorem ofJson_toJson_ok (c : Config) : ofJson c.toJson = .ok c := by
  have hrecord : IsRecord shape shape.blank
      [("profile", (Json.string c.profile).toList), ("rules_dir", (Json.string c.rulesDirectory).toList),
        ("log_filter", (Json.string c.logFilter).toList)]
      ⟨some c.profile, some c.rulesDirectory, some c.logFilter⟩ := by
    refine .cons rfl rfl (fun rest _ => (takes_string _ c.profile rest).bind_last (takes_pure _ rest)) ?_
    refine .cons rfl rfl (fun rest _ => (takes_string _ c.rulesDirectory rest).bind_last (takes_pure _ rest)) ?_
    refine .cons rfl rfl (fun rest _ => (takes_string _ c.logFilter rest).bind_last (takes_pure _ rest)) ?_
    exact .nil _
  have hread := takes_read hrecord (complete_of_isKnown (by simp [shape])) []
  have hwhole : Takes reader c.toJson.toList c [] := by
    rw [toJson, toList_object]
    simp only [List.map_cons, List.map_nil] at hread ⊢
    exact hread.bind_last (takes_pure c [])
  exact whole_eq hwhole

end Config

/-- Alerts and settings come back from their texts as they are, and an alert whose text lacks the severity, the
actions or both comes back without them. -/
theorem json_roundTrip :
    (∀ a : Alert, Alert.ofJson a.toJson = .ok a) ∧
      (∀ (a : Alert) (severity actions : Bool),
        Alert.ofJson (a.toJsonWith severity actions) = .ok (a.keeping severity actions)) ∧
      ∀ c : Config, Config.ofJson c.toJson = .ok c :=
  ⟨fun a => a.toJsonWith_true ▸ a.ofJson_toJsonWith true true, Alert.ofJson_toJsonWith, Config.ofJson_toJson_ok⟩

end Gauge
