import Gauge.Proofs.Yaml.Grammar
import Gauge.Yaml.Document

/-!
The document of entries. It has no anchors and no aliases, so its parts are its events one by one, and
its root is a mapping that holds the entries.
-/

namespace Gauge.Yaml

/-- A text as a node. -/
def IsText (s : String) (n : Node) : Prop := ∃ m, n = .scalar ⟨s, Writer.textStyle s, none⟩ m

/-- The nodes of the keys and values of entries. -/
inductive Holds : Entries → List (Node × Node) → Prop where
  | nil : Holds .nil []
  | word {k w : String} {rest : Entries} {key : Node} {m : Mark} {ns : List (Node × Node)}
      (hk : IsText k key) (h : Holds rest ns) :
      Holds (.word k w rest) ((key, .scalar ⟨w, .plain, none⟩ m) :: ns)
  | text {k s : String} {rest : Entries} {key value : Node} {ns : List (Node × Node)}
      (hk : IsText k key) (hs : IsText s value) (h : Holds rest ns) :
      Holds (.text k s rest) ((key, value) :: ns)
  | list {k : String} {items : List String} {rest : Entries} {key : Node} {nodes : List Node}
      {m : Mark} {ns : List (Node × Node)} (hk : IsText k key)
      (hitems : List.Forall₂ IsText items nodes) (h : Holds rest ns) :
      Holds (.list k items rest) ((key, .sequence nodes m) :: ns)
  | mapping {k : String} {inner rest : Entries} {key : Node} {inside : List (Node × Node)} {m : Mark}
      {ns : List (Node × Node)} (hk : IsText k key) (hinner : Holds inner inside)
      (h : Holds rest ns) : Holds (.mapping k inner rest) ((key, .mapping inside m) :: ns)

/-! Parts. -/

/-- The part that an event of a node becomes, if it is no alias. -/
def Event.part (e : Event) : Part :=
  match e.happening with
  | .scalar _ s => .scalar s e.mark
  | .sequenceStart _ => .sequenceStart e.mark
  | .mappingStart _ => .mappingStart e.mark
  | _ => .finish

/-- Events of nodes without an anchor that are no aliases. -/
def Happening.isBare : Happening → Bool
  | .scalar none _ | .sequenceStart none | .mappingStart none | .sequenceEnd | .mappingEnd => true
  | _ => false

theorem isBare_of_mem_happenings {e : Entries} {h : Happening} (hh : h ∈ e.happenings) :
    h.isBare = true := by
  induction e with
  | nil => cases hh
  | word k w rest ih =>
      simp only [Entries.happenings, Entries.entryHappenings, Entries.textHappening, List.cons_append,
        List.nil_append, List.mem_cons] at hh
      rcases hh with rfl | rfl | hh
      · rfl
      · rfl
      · exact ih hh
  | text k s rest ih =>
      simp only [Entries.happenings, Entries.entryHappenings, Entries.textHappening, List.cons_append,
        List.nil_append, List.mem_cons] at hh
      rcases hh with rfl | rfl | hh
      · rfl
      · rfl
      · exact ih hh
  | list k items rest ih =>
      simp only [Entries.happenings, Entries.entryHappenings, List.cons_append, List.mem_cons,
        List.mem_append, List.mem_map, List.not_mem_nil, or_false] at hh
      rcases hh with rfl | rfl | (⟨s, -, rfl⟩ | rfl) | hh
      · rfl
      · rfl
      · rfl
      · rfl
      · exact ih hh
  | mapping k inner rest ihInner ih =>
      simp only [Entries.happenings, Entries.entryHappenings, List.cons_append, List.mem_cons,
        List.mem_append, List.not_mem_nil, or_false] at hh
      rcases hh with rfl | rfl | (hh | rfl) | hh
      · rfl
      · rfl
      · exact ihInner hh
      · rfl
      · exact ih hh

namespace Document

theorem load_step (failure : Option Malformed) (l : Loaded) {e : Event}
    (h : e.happening.isBare = true) (rest : List Event) :
    load failure l (e :: rest) = load failure (l.push e.part) rest := by
  obtain ⟨happening, m⟩ := e
  cases happening with
  | scalar anchor s =>
      cases anchor with
      | none => rfl
      | some name => cases h
  | sequenceStart anchor =>
      cases anchor with
      | none => rfl
      | some name => cases h
  | mappingStart anchor =>
      cases anchor with
      | none => rfl
      | some name => cases h
  | sequenceEnd => rfl
  | mappingEnd => rfl
  | _ => cases h

/-- What has been loaded once the parts of some events are there. -/
def Loaded.pushAll (l : Loaded) (es : List Event) : Loaded := es.foldl (fun l e => l.push e.part) l

theorem load_append (failure : Option Malformed) (l : Loaded) {es : List Event}
    (h : ∀ e ∈ es, e.happening.isBare = true) (rest : List Event) :
    load failure l (es ++ rest) = load failure (l.pushAll es) rest := by
  induction es generalizing l with
  | nil => rfl
  | cons e es ih =>
      rw [List.cons_append, load_step failure l (h e List.mem_cons_self),
        ih _ fun x hx => h x (List.mem_cons_of_mem e hx)]
      rfl

theorem parts_pushAll (es : List Event) (l : Loaded) :
    (l.pushAll es).parts = (es.map Event.part).reverse ++ l.parts := by
  induction es generalizing l with
  | nil => rfl
  | cons e es ih =>
      have hstep : l.pushAll (e :: es) = (l.push e.part).pushAll es := rfl
      rw [hstep, ih]
      simp [Loaded.push]

theorem settle_part (l : Loaded) (e : Event) : l.settle e.part = e.part := by
  simp only [Event.part]
  split <;> rfl

/-- A document of events of nodes only. -/
theorem load_document {es : List Event} (h : ∀ e ∈ es, e.happening.isBare = true) (a b c : Mark) :
    load none .empty (⟨.documentStart, a⟩ :: (es ++ [⟨.documentEnd, b⟩, ⟨.streamEnd, c⟩])) =
      ⟨es.map Event.part, none, false⟩ := by
  have hload := load_append none .empty h [⟨.documentEnd, b⟩, ⟨.streamEnd, c⟩]
  have hparts := parts_pushAll es .empty
  change load none .empty (es ++ [⟨.documentEnd, b⟩, ⟨.streamEnd, c⟩]) = _
  rw [hload]
  generalize Loaded.pushAll .empty es = l at hparts
  have hsettle : (l.parts.map l.settle).reverse = es.map Event.part := by
    rw [hparts]
    simp [Loaded.empty, settle_part, Function.comp_def]
  change Document.mk (l.parts.map l.settle).reverse none false = _
  rw [hsettle]

end Document

/-! Nodes. -/

namespace Node

/-- The parts of a node with some happenings become a node such as `p` says. -/
def Builds (hs : List Happening) (p : Node → Prop) : Prop :=
  ∀ es : List Event, es.map (·.happening) = hs → ∃ n, p n ∧
    ∀ (f : Frame) (frames : List Frame) (rest : List Part),
      build (f :: frames) (es.map Event.part ++ rest) = build (f.add n :: frames) rest

/-- Events with the happenings `hs`, one of which is first. -/
theorem exists_event {es : List Event} {h : Happening} {hs : List Happening}
    (heq : es.map (·.happening) = h :: hs) :
    ∃ (m : Mark) (rest : List Event), es = ⟨h, m⟩ :: rest ∧ rest.map (·.happening) = hs := by
  obtain ⟨⟨h', m⟩, rest, rfl, rfl, hrest⟩ := List.map_eq_cons_iff.1 heq
  exact ⟨m, rest, rfl, hrest⟩

theorem builds_scalar (s : Scalar) : Builds [.scalar none s] fun n => ∃ m, n = .scalar s m := by
  intro es hes
  obtain ⟨m, es, rfl, hnil⟩ := exists_event hes
  obtain rfl := List.map_eq_nil_iff.1 hnil
  refine ⟨.scalar s m, ⟨m, rfl⟩, fun f frames rest => ?_⟩
  cases f <;> rfl

/-- The items of a sequence. -/
theorem build_items (items : List String) {es : List Event}
    (hes : es.map (·.happening) = items.map Entries.textHappening) :
    ∃ nodes, List.Forall₂ IsText items nodes ∧
      ∀ (acc : List Node) (m : Mark) (frames : List Frame) (rest : List Part),
        build (.sequence acc m :: frames) (es.map Event.part ++ rest) =
          build (.sequence (nodes.reverse ++ acc) m :: frames) rest := by
  induction items generalizing es with
  | nil =>
      obtain rfl := List.map_eq_nil_iff.1 hes
      exact ⟨[], .nil, fun _ _ _ _ => rfl⟩
  | cons s items ih =>
      obtain ⟨m, es, rfl, hrest⟩ := exists_event hes
      obtain ⟨nodes, hnodes, hbuild⟩ := ih hrest
      refine ⟨.scalar ⟨s, Writer.textStyle s, none⟩ m :: nodes, .cons ⟨m, rfl⟩ hnodes,
        fun acc k frames rest => ?_⟩
      refine (hbuild (.scalar ⟨s, Writer.textStyle s, none⟩ m :: acc) k frames rest).trans ?_
      simp

/-- Events from the beginning of a collection to its end. -/
theorem exists_collection {es : List Event} {first last : Happening} {hs : List Happening}
    (heq : es.map (·.happening) = first :: hs ++ [last]) :
    ∃ (m m' : Mark) (inside : List Event), es = ⟨first, m⟩ :: (inside ++ [⟨last, m'⟩]) ∧
      inside.map (·.happening) = hs := by
  obtain ⟨m, more, rfl, hmore⟩ := exists_event heq
  obtain ⟨inside, ends, rfl, hinside, hends⟩ := List.map_eq_append_iff.1 hmore
  obtain ⟨m', more, rfl, hnil⟩ := exists_event hends
  obtain rfl := List.map_eq_nil_iff.1 hnil
  exact ⟨m, m', inside, rfl, hinside⟩

theorem builds_sequence (items : List String) :
    Builds (.sequenceStart none :: items.map Entries.textHappening ++ [.sequenceEnd])
      fun n => ∃ nodes m, List.Forall₂ IsText items nodes ∧ n = .sequence nodes m := by
  intro es hes
  obtain ⟨m, m', inside, rfl, hinside⟩ := exists_collection hes
  obtain ⟨nodes, hnodes, hbuild⟩ := build_items items hinside
  refine ⟨.sequence nodes m, ⟨nodes, m, hnodes, rfl⟩, fun f frames rest => ?_⟩
  have hparts : (Event.mk (.sequenceStart none) m :: (inside ++ [⟨.sequenceEnd, m'⟩])).map Event.part ++
      rest = .sequenceStart m :: (inside.map Event.part ++ .finish :: rest) := by
    simp [Event.part]
  rw [hparts]
  refine (hbuild [] m (f :: frames) (.finish :: rest)).trans ?_
  simp [build, Frame.close]

/-- The parts of entries become entries such as `p` says, of the mapping that is open. -/
def BuildsEntries (hs : List Happening) (p : List (Node × Node) → Prop) : Prop :=
  ∀ es : List Event, es.map (·.happening) = hs → ∃ ns, p ns ∧
    ∀ (acc : List (Node × Node)) (m : Mark) (frames : List Frame) (rest : List Part),
      build (.mapping acc none m :: frames) (es.map Event.part ++ rest) =
        build (.mapping (ns.reverse ++ acc) none m :: frames) rest

/-- A key and its value become an entry. -/
theorem buildsEntries_cons (k : String) {hs more : List Happening} {p : Node → Prop}
    {q r : List (Node × Node) → Prop} (hvalue : Builds hs p) (hmore : BuildsEntries more q)
    (hr : ∀ key value ns, IsText k key → p value → q ns → r ((key, value) :: ns)) :
    BuildsEntries (Entries.entryHappenings k hs ++ more) r := by
  intro es hes
  obtain ⟨m, es, rfl, htail⟩ := exists_event hes
  obtain ⟨ofValue, ofMore, rfl, hofValue, hofMore⟩ := List.map_eq_append_iff.1 htail
  obtain ⟨value, hp, hbuild⟩ := hvalue ofValue hofValue
  obtain ⟨ns, hq, hrest⟩ := hmore ofMore hofMore
  refine ⟨(.scalar ⟨k, Writer.textStyle k, none⟩ m, value) :: ns, hr _ _ _ ⟨m, rfl⟩ hp hq,
    fun acc n frames rest => ?_⟩
  have hkey := hbuild (.mapping acc (some (.scalar ⟨k, Writer.textStyle k, none⟩ m)) n) frames
    (ofMore.map Event.part ++ rest)
  simp only [List.map_cons, List.map_append, List.cons_append, List.append_assoc]
  refine hkey.trans ((hrest _ n frames rest).trans ?_)
  simp

theorem builds_mapping {hs : List Happening} {p : List (Node × Node) → Prop}
    (h : BuildsEntries hs p) :
    Builds (.mappingStart none :: hs ++ [.mappingEnd]) fun n => ∃ ns m, p ns ∧ n = .mapping ns m := by
  intro es hes
  obtain ⟨m, m', inside, rfl, hinside⟩ := exists_collection hes
  obtain ⟨ns, hns, hbuild⟩ := h inside hinside
  refine ⟨.mapping ns m, ⟨ns, m, hns, rfl⟩, fun f frames rest => ?_⟩
  have hparts : (Event.mk (.mappingStart none) m :: (inside ++ [⟨.mappingEnd, m'⟩])).map Event.part ++
      rest = .mappingStart m :: (inside.map Event.part ++ .finish :: rest) := by
    simp [Event.part]
  rw [hparts]
  refine (hbuild [] m (f :: frames) (.finish :: rest)).trans ?_
  simp [build, Frame.close]

/-- By induction on the entries. -/
theorem buildsEntries (e : Entries) : BuildsEntries e.happenings (Holds e) := by
  induction e with
  | nil =>
      intro es hes
      obtain rfl := List.map_eq_nil_iff.1 hes
      exact ⟨[], .nil, fun _ _ _ _ => rfl⟩
  | word k w rest ih =>
      refine buildsEntries_cons k (builds_scalar _) ih ?_
      rintro key value ns hk ⟨m, rfl⟩ hns
      exact .word hk hns
  | text k s rest ih =>
      refine buildsEntries_cons k (builds_scalar _) ih ?_
      intro key value ns hk hs hns
      exact .text hk hs hns
  | list k items rest ih =>
      refine buildsEntries_cons k (builds_sequence items) ih ?_
      rintro key value ns hk ⟨nodes, m, hnodes, rfl⟩ hns
      exact .list hk hnodes hns
  | mapping k inner rest ihInner ih =>
      refine buildsEntries_cons k (builds_mapping ihInner) ih ?_
      rintro key value ns hk ⟨inside, m, hinside, rfl⟩ hns
      exact .mapping hk hinside hns

end Node

namespace Document

/-- A text that is written of entries is a document that holds them, and nothing else. -/
theorem ofText_write {e : Entries} (hne : e ≠ .nil) (hwords : e.WordsAreBare) :
    ∃ (ns : List (Node × Node)) (m : Mark), Holds e ns ∧
      (ofText (String.ofList (e.write 0))).root = .mapping ns m ∧
      (ofText (String.ofList (e.write 0))).failure = none ∧
      (ofText (String.ofList (e.write 0))).hasMore = false := by
  obtain ⟨tokens, hscan, htokens⟩ := Entries.scan_write hne hwords
  obtain ⟨es, hevents, hes⟩ := Parse.ofTokens_eq e htokens
  obtain ⟨a, es, rfl, h₁⟩ := Node.exists_event hes
  obtain ⟨ofNode, ends, rfl, hofNode, hends⟩ := List.map_eq_append_iff.1
    (show es.map (·.happening) = (.mappingStart none :: e.happenings ++ [.mappingEnd]) ++
      [.documentEnd, .streamEnd] by simpa using h₁)
  obtain ⟨b, ends, rfl, h₂⟩ := Node.exists_event hends
  obtain ⟨c, ends, rfl, h₃⟩ := Node.exists_event h₂
  obtain rfl := List.map_eq_nil_iff.1 h₃
  obtain ⟨m, m', inside, rfl, hinside⟩ := Node.exists_collection hofNode
  obtain ⟨ns, hns, hbuild⟩ := Node.buildsEntries e inside hinside
  have hbare (x : Event)
      (hx : x ∈ (⟨.mappingStart none, m⟩ :: (inside ++ [⟨.mappingEnd, m'⟩]) : List Event)) :
      x.happening.isBare = true := by
    simp only [List.mem_cons, List.mem_append, List.not_mem_nil, or_false] at hx
    rcases hx with rfl | hx | rfl
    · rfl
    · refine isBare_of_mem_happenings (e := e) ?_
      rw [← hinside]
      exact List.mem_map_of_mem hx
    · rfl
  have hdocument : ofText (String.ofList (e.write 0)) =
      ⟨.mappingStart m :: (inside.map Event.part ++ [.finish]), none, false⟩ := by
    simp only [ofText]
    simp only [hscan, hevents]
    rw [load_document hbare a b c]
    simp [Event.part]
  rw [hdocument]
  refine ⟨ns, m, hns, ?_, rfl, rfl⟩
  refine (hbuild [] m [] [.finish]).trans ?_
  simp [Node.build, Node.Frame.close]

end Document

end Gauge.Yaml
