import Gauge.Proofs.Yaml.Record
import Gauge.RuleDocument.Reader
import Mathlib

/-!
The keys of rule documents. A document means the same in whatever order its keys are, has no keys but its own,
and what is left out of it is what it is by default.
-/

namespace Gauge

open Yaml Yaml.Reader

theorem isOfTree_put {α β : Type} {r : Reader α} (hr : IsOfTree r) (put : α → β) :
    IsOfTree fun d path n => do return put (← r d path n) := by
  intro n n' h d d' path path'
  simp only [Except.toOption_bind, hr h d d' path path']

/-- What stands under a name is of the type that `r` reads. -/
def Accepts {α : Type} (r : Yaml.Reader α) (d : Document) (es : List (Node × Node)) (name : String) :
    Prop :=
  ∀ k v, (k, v) ∈ es → key? d k = some name → ∀ path, ∃ a, r d path v = .ok a

theorem Accepts.put {α σ : Type} {r : Yaml.Reader α} {d : Document} {es : List (Node × Node)}
    {name : String} (h : Accepts r d es name) {e : Node × Node} (he : e ∈ es)
    (hkey : key? d e.1 = some name) (put : α → σ) (path : Path) :
    ∃ a, (do return put (← r d path e.2)) = Except.ok (ε := Error) a := by
  obtain ⟨a, ha⟩ := h e.1 e.2 he hkey path
  exact ⟨put a, by rw [ha]; rfl⟩

namespace RuleMetadata

theorem lawful_shape : shape.Lawful where
  distinct := by decide
  blank := by simp [shape]
  known := by
    intro f hf acc d path n acc' h
    simp only [shape, List.mem_cons, List.not_mem_nil, or_false] at hf
    rcases hf with rfl | rfl | rfl | rfl | rfl <;>
      obtain ⟨a, -, ⟨⟩⟩ := Except.bind_eq_ok_iff.mp h <;> simp [shape]
  filled := by simp [shape]
  ofTree := by
    intro f hf acc
    simp only [shape, List.mem_cons, List.not_mem_nil, or_false] at hf
    rcases hf with rfl | rfl | rfl | rfl | rfl
    · exact isOfTree_put (isOfTree_string _) _
    · exact isOfTree_put (isOfTree_string _) _
    · exact isOfTree_put (isOfTree_option (isOfTree_string _)) _
    · exact isOfTree_put (isOfTree_option (isOfTree_list (isOfTree_string _))) _
    · exact isOfTree_put isOfTree_bool _
  comm := by
    simp only [shape, List.pairwise_cons, List.forall_mem_cons, List.not_mem_nil, false_implies,
      implies_true, and_true, List.Pairwise.nil]
    refine ⟨⟨?_, ?_, ?_, ?_⟩, ⟨?_, ?_, ?_⟩, ⟨?_, ?_⟩, ?_⟩ <;> intro acc d path path' n n' <;>
      simp only [bind_assoc, pure_bind, Except.toOption_bind] <;> exact Option.bind_comm ..

theorem isOfTree_reader : IsOfTree reader := isOfTree_put (Shape.isOfTree_read lawful_shape) _

/-- Metadata have their own keys, with values of the right types. -/
structure Readable (d : Document) (es : List (Node × Node)) : Prop where
  fits : Fits ["id", "name"] ["description", "tags", "enabled"] (keys d es)
  id : Accepts string d es "id"
  name : Accepts string d es "name"
  description : Accepts (Reader.option string) d es "description"
  tags : Accepts (Reader.option (Reader.list string)) d es "tags"
  enabled : Accepts Reader.bool d es "enabled"

section

variable {d : Document} {n : Node} {es : List (Node × Node)} {m : Mark}

theorem Readable.reader_ok (h : Readable d es) (hn : resolve d n = .mapping es m) (path : Path) :
    ∃ a, reader d path n = .ok a := by
  have readable : shape.Readable d es := by
    intro e he f hf hkey acc path
    simp only [shape, List.mem_cons, List.not_mem_nil, or_false] at hf
    rcases hf with rfl | rfl | rfl | rfl | rfl
    · exact h.id.put he hkey _ path
    · exact h.name.put he hkey _ path
    · exact h.description.put he hkey _ path
    · exact h.tags.put he hkey _ path
    · exact h.enabled.put he hkey _ path
  obtain ⟨p, hp⟩ := Shape.read_ok lawful_shape path hn h.fits readable
  exact ⟨_, by simp only [reader, hp]; rfl⟩

theorem complete_eq_ok {p q : Partial} (h : Shape.complete shape.fields p = .ok q) :
    q.description = some p.description.join ∧ q.tags = some p.tags.join ∧
      q.enabled = some (p.enabled.getD true) := by
  obtain ⟨id, name, description, tags, enabled⟩ := p
  cases id <;> cases name <;> simp [Shape.complete, shape] at h
  cases description <;> cases tags <;> cases enabled <;> cases h <;> exact ⟨rfl, rfl, rfl⟩

/-- Metadata that are read have their own keys, and what is left out of them is as it is by default. -/
theorem reader_eq_ok {path : Path} {a : RuleMetadata} (hn : resolve d n = .mapping es m)
    (h : reader d path n = .ok a) :
    Fits ["id", "name"] ["description", "tags", "enabled"] (keys d es) ∧
      (some "description" ∉ keys d es → a.description = none) ∧
      (some "tags" ∉ keys d es → a.tags = none) ∧
      (some "enabled" ∉ keys d es → a.enabled = true) := by
  obtain ⟨q, hread, ⟨⟩⟩ := Except.bind_eq_ok_iff.mp h
  obtain ⟨p, hmembers, hcomplete⟩ := (shape.read_mapping_eq_ok_iff hn).mp hread
  obtain ⟨description, tags, enabled⟩ := complete_eq_ok hcomplete
  have unknown : ∀ f ∈ shape.fields, some f.name ∉ keys d es → f.isKnown p = false :=
    fun f hf => Shape.unknown_of_members lawful_shape hmembers hf
  simp only [shape, List.forall_mem_cons, Option.isSome_eq_false_iff, Option.isNone_iff_eq_none]
    at unknown
  obtain ⟨-, -, noDescription, noTags, notEnabled, -⟩ := unknown
  refine ⟨Shape.fits_of_read lawful_shape hn hread, fun h => ?_, fun h => ?_, fun h => ?_⟩
  · simp [description, noDescription h]
  · simp [tags, noTags h]
  · simp [enabled, notEnabled h]

end

end RuleMetadata

namespace RuleDocument

theorem lawful_shape : shape.Lawful where
  distinct := by decide
  blank := by simp [shape]
  known := by
    intro f hf acc d path n acc' h
    simp only [shape, List.mem_cons, List.not_mem_nil, or_false] at hf
    rcases hf with rfl | rfl | rfl | rfl | rfl | rfl <;>
      obtain ⟨a, -, ⟨⟩⟩ := Except.bind_eq_ok_iff.mp h <;> simp [shape]
  filled := by simp [shape]
  ofTree := by
    intro f hf acc
    simp only [shape, List.mem_cons, List.not_mem_nil, or_false] at hf
    rcases hf with rfl | rfl | rfl | rfl | rfl | rfl
    · exact isOfTree_put (isOfTree_string _) _
    · exact isOfTree_put (isOfTree_string _) _
    · exact isOfTree_put RuleMetadata.isOfTree_reader _
    · exact isOfTree_put (isOfTree_list (isOfTree_string _)) _
    · simpa only [Except.bind_map] using
        isOfTree_put (isOfTree_entries isOfTree_float) fun g => { acc with globals := some g }
    · exact isOfTree_put (isOfTree_string _) _
  comm := by
    simp only [shape, List.pairwise_cons, List.forall_mem_cons, List.not_mem_nil, false_implies,
      implies_true, and_true, List.Pairwise.nil]
    refine ⟨⟨?_, ?_, ?_, ?_, ?_⟩, ⟨?_, ?_, ?_, ?_⟩, ⟨?_, ?_, ?_⟩, ⟨?_, ?_⟩, ?_⟩ <;>
      intro acc d path path' n n' <;> simp only [bind_assoc, pure_bind, Except.toOption_bind] <;>
      exact Option.bind_comm ..

theorem isOfTree_reader : IsOfTree reader := isOfTree_put (Shape.isOfTree_read lawful_shape) _

/-- A document has its own keys, with values of the right types. -/
structure Readable (d : Document) (es : List (Node × Node)) : Prop where
  fits : Fits ["apiVersion", "kind", "metadata", "code"] ["inputs", "globals"] (keys d es)
  apiVersion : Accepts RuleMetadata.string d es "apiVersion"
  kind : Accepts RuleMetadata.string d es "kind"
  metadata : ∀ k v, (k, v) ∈ es → key? d k = some "metadata" →
    ∃ ms m, resolve d v = .mapping ms m ∧ RuleMetadata.Readable d ms
  inputs : Accepts (Reader.list RuleMetadata.string) d es "inputs"
  globals : Accepts (Reader.entries Reader.float) d es "globals"
  code : Accepts RuleMetadata.string d es "code"

section

variable {d : Document} {n : Node} {es : List (Node × Node)} {m : Mark}

theorem Readable.reader_ok (h : Readable d es) (hn : resolve d n = .mapping es m) (path : Path) :
    ∃ a, reader d path n = .ok a := by
  have metadata : Accepts RuleMetadata.reader d es "metadata" := by
    intro k v he hkey path
    obtain ⟨ms, m, hv, hms⟩ := h.metadata k v he hkey
    exact hms.reader_ok hv path
  have readable : shape.Readable d es := by
    intro e he f hf hkey acc path
    simp only [shape, List.mem_cons, List.not_mem_nil, or_false] at hf
    rcases hf with rfl | rfl | rfl | rfl | rfl | rfl
    · exact h.apiVersion.put he hkey _ path
    · exact h.kind.put he hkey _ path
    · exact metadata.put he hkey _ path
    · exact h.inputs.put he hkey _ path
    · exact h.globals.put he hkey _ path
    · exact h.code.put he hkey _ path
  obtain ⟨p, hp⟩ := Shape.read_ok lawful_shape path hn h.fits readable
  exact ⟨_, by simp only [reader, hp]; rfl⟩

theorem complete_eq_ok {p q : Partial} (h : Shape.complete shape.fields p = .ok q) :
    q.metadata = p.metadata ∧ q.inputs = some (p.inputs.getD []) ∧
      q.globals = some (p.globals.getD .empty) := by
  obtain ⟨apiVersion, kind, metadata, inputs, globals, code⟩ := p
  cases apiVersion <;> cases kind <;> cases metadata <;> simp [Shape.complete, shape] at h
  cases inputs <;> cases globals <;> cases code <;> cases h <;> exact ⟨rfl, rfl, rfl⟩

/-- The metadata of a document are what stands under their name. -/
theorem metadata_of_members {path : Path} {p : Partial}
    (h : shape.members d path es shape.blank = .ok p) {k v : Node} (he : (k, v) ∈ es)
    (hkey : key? d k = some "metadata") :
    ∃ a path, RuleMetadata.reader d path v = .ok a ∧ p.metadata = some a := by
  obtain ⟨f, hf, hname, hread⟩ : ∃ f ∈ shape.fields, f.name = "metadata" ∧ ∀ acc d path n,
      f.read acc d path n = do
        return { acc with metadata := some (← RuleMetadata.reader d path n) } :=
    ⟨_, .tail _ (.tail _ (.head _)), rfl, fun _ _ _ _ => rfl⟩
  have frame : ∀ g ∈ shape.fields, g.name ≠ f.name → ∀ acc d path n acc',
      g.read acc d path n = .ok acc' → acc'.metadata = acc.metadata := by
    intro g hg hne acc d path n acc' h
    simp only [shape, List.mem_cons, List.not_mem_nil, or_false] at hg
    rcases hg with rfl | rfl | rfl | rfl | rfl | rfl
    case inr.inr.inl => exact absurd hname.symm hne
    all_goals
      obtain ⟨a, -, ⟨⟩⟩ := Except.bind_eq_ok_iff.mp h
      rfl
  obtain ⟨acc, acc', path, hvalue, hp⟩ :=
    Shape.members_value lawful_shape Partial.metadata hf frame h he (hname ▸ hkey)
  rw [hread] at hvalue
  obtain ⟨a, ha, ⟨⟩⟩ := Except.bind_eq_ok_iff.mp hvalue
  exact ⟨a, path, ha, hp⟩

/-- A document that is read has its own keys, and what is left out of it is as it is by default. -/
theorem reader_eq_ok {path : Path} {a : RuleDocument} (hn : resolve d n = .mapping es m)
    (h : reader d path n = .ok a) :
    Fits ["apiVersion", "kind", "metadata", "code"] ["inputs", "globals"] (keys d es) ∧
      (some "inputs" ∉ keys d es → a.inputs = []) ∧
      (some "globals" ∉ keys d es → a.globals = .empty) ∧
      ∀ k v, (k, v) ∈ es → key? d k = some "metadata" →
        ∃ path, RuleMetadata.reader d path v = .ok a.metadata := by
  obtain ⟨q, hread, ⟨⟩⟩ := Except.bind_eq_ok_iff.mp h
  obtain ⟨p, hmembers, hcomplete⟩ := (shape.read_mapping_eq_ok_iff hn).mp hread
  obtain ⟨metadata, inputs, globals⟩ := complete_eq_ok hcomplete
  have unknown : ∀ f ∈ shape.fields, some f.name ∉ keys d es → f.isKnown p = false :=
    fun f hf => Shape.unknown_of_members lawful_shape hmembers hf
  simp only [shape, List.forall_mem_cons, Option.isSome_eq_false_iff, Option.isNone_iff_eq_none]
    at unknown
  obtain ⟨-, -, -, noInputs, noGlobals, -⟩ := unknown
  refine ⟨Shape.fits_of_read lawful_shape hn hread, fun h => ?_, fun h => ?_, fun k v he hkey => ?_⟩
  · simp [inputs, noInputs h]
  · simp [globals, noGlobals h]
  · obtain ⟨a, path, ha, hp⟩ := metadata_of_members hmembers he hkey
    exact ⟨path, by simpa [metadata, hp] using ha⟩

end

theorem reader_of_ofYaml {text : String} {a : RuleDocument} (h : ofYaml text = .ok a) :
    reader (Document.ofText text) [] (Document.ofText text).root = .ok a := by
  obtain ⟨b, hb, h⟩ := Except.bind_eq_ok_iff.mp h
  split at h
  · cases h
  · split at h <;> cases h
    exact hb

/-- The order of the keys of a document does not count. A document is only read with its own keys, each at
most once and the required ones all there. What is left out is as it is by default, and nothing else is needed
for a document to be read than values of the right types. -/
theorem ofYaml_keys :
    (∀ a b : String, (Document.ofText a).Same (Document.ofText b) →
      (ofYaml a).toOption = (ofYaml b).toOption) ∧
    ∀ (text : String) (d : Document) (es : List (Node × Node)) (m : Mark),
      d = Document.ofText text → resolve d d.root = .mapping es m →
      (¬ Fits ["apiVersion", "kind", "metadata", "code"] ["inputs", "globals"] (keys d es) →
        (ofYaml text).toOption = none) ∧
      (∀ k v ms m, (k, v) ∈ es → key? d k = some "metadata" → resolve d v = .mapping ms m →
        ¬ Fits ["id", "name"] ["description", "tags", "enabled"] (keys d ms) →
        (ofYaml text).toOption = none) ∧
      (d.failure = none → d.hasMore = false → Readable d es → ∃ a, ofYaml text = .ok a) ∧
      ∀ a, ofYaml text = .ok a →
        (some "inputs" ∉ keys d es → a.inputs = []) ∧
        (some "globals" ∉ keys d es → a.globals = .empty) ∧
        ∀ k v ms m, (k, v) ∈ es → key? d k = some "metadata" → resolve d v = .mapping ms m →
          (some "description" ∉ keys d ms → a.metadata.description = none) ∧
          (some "tags" ∉ keys d ms → a.metadata.tags = none) ∧
          (some "enabled" ∉ keys d ms → a.metadata.enabled = true) := by
  refine ⟨fun a b h => whole_of_tree isOfTree_reader h, ?_⟩
  rintro text d es m rfl hroot
  refine ⟨fun unfit => ?_, fun k v ms m he hkey hv unfit => ?_, fun flawless single readable => ?_,
    fun a h => ?_⟩
  · cases h : ofYaml text with
    | error e => rfl
    | ok a => exact absurd (reader_eq_ok hroot (reader_of_ofYaml h)).1 unfit
  · cases h : ofYaml text with
    | error e => rfl
    | ok a =>
        obtain ⟨-, -, -, metadata⟩ := reader_eq_ok hroot (reader_of_ofYaml h)
        obtain ⟨path, ha⟩ := metadata k v he hkey
        exact absurd (RuleMetadata.reader_eq_ok hv ha).1 unfit
  · obtain ⟨a, ha⟩ := readable.reader_ok hroot []
    exact ⟨a, by simp only [ofYaml, whole, ha, flawless, single]; rfl⟩
  · obtain ⟨-, inputs, globals, metadata⟩ := reader_eq_ok hroot (reader_of_ofYaml h)
    refine ⟨inputs, globals, fun k v ms m he hkey hv => ?_⟩
    obtain ⟨path, ha⟩ := metadata k v he hkey
    exact (RuleMetadata.reader_eq_ok hv ha).2

def blockText : String := "kind: K\ncode: c\napiVersion: v\nmetadata:\n  id: i\n  name: n\n"

def flowText : String := "\x7bcode: 'c', kind: K, apiVersion: v, metadata: \x7bname: n, id: i\x7d\x7d"

theorem same_blockText_flowText : (Document.ofText blockText).Same (Document.ofText flowText) where
  failure := by decide +kernel
  failure' := by decide +kernel
  hasMore := by decide +kernel
  root := by
    have text (v : String) (style : ScalarStyle) (m m' : Mark) (h : ¬ Plain.IsWord v) :
        (Node.scalar ⟨v, .plain, none⟩ m).Same (.scalar ⟨v, style, none⟩ m') :=
      .scalar m m' <|
        .inr ⟨Scalar.isString_of_not_isWord h _, Scalar.isString_of_not_isWord h style, rfl⟩
    cbv
    refine .mapping _ _ (by decide) (.swap _ _ _)
      (.cons ?_ ?_ (.cons ?_ ?_ (.cons ?_ ?_ (.cons ?_ ?_ .nil))))
    case refine_8 =>
      refine .mapping _ _ (by decide) (.swap _ _ _) (.cons ?_ ?_ (.cons ?_ ?_ .nil)) <;>
        exact text _ _ _ _ (by decide +kernel)
    all_goals exact text _ _ _ _ (by decide +kernel)

theorem ofYaml_keys_sample : (ofYaml blockText).toOption.isSome = true ∧
    (ofYaml blockText).toOption = (ofYaml flowText).toOption :=
  ⟨by decide +kernel, ofYaml_keys.1 blockText flowText same_blockText_flowText⟩

end RuleDocument

end Gauge
