import Mathlib.Data.List.Pairwise
import Gauge.Proofs.Yaml.Tree

/-!
Records. Each field of a record stands under its name at most once, in any order. There is nothing else in a
record, and only what has a default is left out.
-/

namespace Gauge.Yaml.Reader

/-- The text of a key. -/
def key? (d : Document) (n : Node) : Option String := (resolve d n).text?

def keys (d : Document) (es : List (Node × Node)) : List (Option String) := es.map fun e => key? d e.1

@[simp]
theorem keys_cons (d : Document) (e : Node × Node) (es : List (Node × Node)) :
    keys d (e :: es) = key? d e.1 :: keys d es := rfl

/-- Each key is one of those that a mapping may have, and none is there twice. Those that the mapping must have
are there. -/
structure Fits (required optional : List String) (keys : List (Option String)) : Prop where
  known : ∀ k ∈ keys, ∃ name ∈ required ++ optional, k = some name
  distinct : keys.Nodup
  complete : ∀ name ∈ required, some name ∈ keys

namespace Shape

variable {σ : Type}

/-- It does not matter which of two fields is read first. -/
def Commute (f g : Field σ) : Prop :=
  ∀ acc d path path' n n', (f.read acc d path n >>= fun acc => g.read acc d path' n').toOption =
    (g.read acc d path' n' >>= fun acc => f.read acc d path n).toOption

/-- The fields of a record are independent of each other. -/
structure Lawful (s : Shape σ) : Prop where
  distinct : s.names.Nodup
  blank : ∀ f ∈ s.fields, f.isKnown s.blank = false
  known : ∀ f ∈ s.fields, ∀ acc d path n acc', f.read acc d path n = .ok acc' →
    ∀ g ∈ s.fields, g.isKnown acc' = (g.isKnown acc || g.name == f.name)
  filled : ∀ f ∈ s.fields, ∀ fill, f.default = some fill →
    ∀ g ∈ s.fields, ∀ acc, g.isKnown (fill acc) = (g.isKnown acc || g.name == f.name)
  ofTree : ∀ f ∈ s.fields, ∀ acc, IsOfTree (f.read acc)
  comm : s.fields.Pairwise Commute

theorem Lawful.eq_of_name {s : Shape σ} (laws : s.Lawful) {f g : Field σ} (hf : f ∈ s.fields)
    (hg : g ∈ s.fields) (h : f.name = g.name) : f = g :=
  List.inj_on_of_nodup_map laws.distinct hf hg h

theorem Lawful.commute {s : Shape σ} (laws : s.Lawful) {f g : Field σ} (hf : f ∈ s.fields)
    (hg : g ∈ s.fields) (hne : f.name ≠ g.name) : Commute f g :=
  have : Std.Symm (Commute (σ := σ)) :=
    ⟨fun _ _ h acc d path path' n n' => (h acc d path' path n' n).symm⟩
  laws.comm.forall hf hg fun h => hne (congrArg Field.name h)

/-! One entry. -/

def take (s : Shape σ) (d : Document) (path : Path) (e : Node × Node) (acc : σ) : Except Error σ := do
  let f ← s.field d path e.1
  if f.isKnown acc then .error (.unfit (.duplicateField f.name) none)
  else f.read acc d (step e.1 :: path) e.2

theorem members_cons (s : Shape σ) (d : Document) (path : Path) (e : Node × Node)
    (es : List (Node × Node)) (acc : σ) :
    s.members d path (e :: es) acc = (s.take d path e acc >>= s.members d path es) := by
  simp only [members, take, bind_assoc]
  congr
  funext f
  split <;> rfl

theorem field_eq_ok {s : Shape σ} {d : Document} {path : Path} {n : Node} {f : Field σ}
    (h : s.field d path n = .ok f) : f ∈ s.fields ∧ key? d n = some f.name := by
  simp only [field] at h
  split at h
  · rename_i key m hn
    split at h
    · rename_i g hfind
      cases h
      have hname : f.name = key.value := by simpa using List.find?_some hfind
      refine ⟨List.mem_of_find?_eq_some hfind, ?_⟩
      rw [key?, hn, hname]
      rfl
    · cases h
  · exact absurd h mismatch_ne_ok

theorem field_of_key? {s : Shape σ} (laws : s.Lawful) (d : Document) (path : Path) {n : Node}
    {f : Field σ} (hf : f ∈ s.fields) (hn : key? d n = some f.name) : s.field d path n = .ok f := by
  obtain ⟨key, m, hn, hname⟩ : ∃ key m, resolve d n = .scalar key m ∧ key.value = f.name := by
    simp only [key?] at hn
    cases h : resolve d n with
    | scalar key m => exact ⟨key, m, rfl, by simpa [h, Node.text?] using hn⟩
    | _ => simp [h, Node.text?] at hn
  obtain ⟨g, hfind⟩ : ∃ g, s.fields.find? (·.name == key.value) = some g :=
    Option.isSome_iff_exists.mp (List.find?_isSome.mpr ⟨f, hf, by simp [hname]⟩)
  have hg : g.name = key.value := by simpa using List.find?_some hfind
  have : g = f := laws.eq_of_name (List.mem_of_find?_eq_some hfind) hf (hg.trans hname)
  simp only [field, hn, hfind, this]

theorem take_eq_ok_iff {s : Shape σ} (laws : s.Lawful) {d : Document} {path : Path} {e : Node × Node}
    {acc acc' : σ} : s.take d path e acc = .ok acc' ↔
      ∃ f ∈ s.fields, key? d e.1 = some f.name ∧ f.isKnown acc = false ∧
        f.read acc d (step e.1 :: path) e.2 = .ok acc' := by
  constructor
  · intro h
    obtain ⟨f, hf, h⟩ := Except.bind_eq_ok_iff.mp h
    obtain ⟨hmem, hkey⟩ := field_eq_ok hf
    split at h
    · cases h
    · rename_i hnew
      exact ⟨f, hmem, hkey, Bool.eq_false_iff.mpr hnew, h⟩
  · rintro ⟨f, hmem, hkey, hnew, h⟩
    refine Except.bind_eq_ok_iff.mpr ⟨f, field_of_key? laws d path hmem hkey, ?_⟩
    rw [hnew]
    exact h

/-! The order of the entries. -/

theorem take_swap {s : Shape σ} (laws : s.Lawful) {d : Document} {path : Path} {e e' : Node × Node}
    {acc a : σ} (h : (s.take d path e acc >>= s.take d path e') = .ok a) :
    (s.take d path e' acc >>= s.take d path e) = .ok a := by
  obtain ⟨acc₁, htake, htake'⟩ := Except.bind_eq_ok_iff.mp h
  obtain ⟨f, hf, hkey, hnew, hread⟩ := (take_eq_ok_iff laws).mp htake
  obtain ⟨g, hg, hkey', hnew', hread'⟩ := (take_eq_ok_iff laws).mp htake'
  have hknown := laws.known f hf _ _ _ _ _ hread
  have hne : f.name ≠ g.name := by
    intro hname
    have := laws.eq_of_name hf hg hname
    subst this
    simp [hknown f hf] at hnew'
  have hcomm := laws.commute hf hg hne acc d (step e.1 :: path) (step e'.1 :: path) e.2 e'.2
  rw [hread, show ((.ok acc₁ : Except Error σ) >>= fun acc => g.read acc d (step e'.1 :: path) e'.2) =
    .ok a from hread'] at hcomm
  obtain ⟨acc₂, hread₂, hread₂'⟩ :=
    Except.bind_eq_ok_iff.mp (Except.toOption_eq_some_iff.mp hcomm.symm)
  rw [hknown g hg, Bool.or_eq_false_iff] at hnew'
  have hnew₂ : f.isKnown acc₂ = false := by
    rw [laws.known g hg _ _ _ _ _ hread₂ f hf, hnew]
    simpa using hne
  exact Except.bind_eq_ok_iff.mpr ⟨acc₂,
    (take_eq_ok_iff laws).mpr ⟨g, hg, hkey', hnew'.1, hread₂⟩,
    (take_eq_ok_iff laws).mpr ⟨f, hf, hkey, hnew₂, hread₂'⟩⟩

theorem take_comm {s : Shape σ} (laws : s.Lawful) (d : Document) (path : Path) (e e' : Node × Node)
    (acc : σ) : (s.take d path e acc >>= s.take d path e').toOption =
      (s.take d path e' acc >>= s.take d path e).toOption :=
  Except.toOption_eq_of_ok (fun _ => take_swap laws) fun _ => take_swap laws

theorem members_perm {s : Shape σ} (laws : s.Lawful) (d : Document) (path : Path)
    {es fs : List (Node × Node)} (h : es.Perm fs) (acc : σ) :
    (s.members d path es acc).toOption = (s.members d path fs acc).toOption := by
  induction h generalizing acc with
  | nil => rfl
  | cons e _ ih => simp only [members_cons, Except.toOption_bind, ih]
  | swap e e' es =>
      have two (e e' : Node × Node) : s.members d path (e :: e' :: es) acc =
          (s.take d path e acc >>= s.take d path e') >>= s.members d path es := by
        rw [members_cons, bind_assoc]
        exact congrArg _ (funext fun acc => members_cons s d path e' es acc)
      rw [two, two, Except.toOption_bind _ (s.members d path es),
        Except.toOption_bind _ (s.members d path es), take_comm laws]
  | trans _ _ ih ih' => exact (ih acc).trans (ih' acc)

/-! Trees. -/

theorem isOfTree_field (s : Shape σ) : IsOfTree s.field := by
  intro n n' h d d' path path'
  cases h with
  | scalar m m' h =>
      simp only [field, resolve, h.value_eq]
      split <;> rfl
  | sequence | mapping => simp [field, resolve]

theorem take_of_tree {s : Shape σ} (laws : s.Lawful) {k k' v v' : Node} (key : k.Same k')
    (value : v.Same v') (d d' : Document) (path path' : Path) (acc : σ) :
    (s.take d path (k, v) acc).toOption = (s.take d' path' (k', v') acc).toOption := by
  have hfield := s.isOfTree_field key d d' path path'
  simp only [take]
  cases hk : s.field d path k with
  | error e =>
      rw [Except.toOption_bind, Except.toOption_bind, ← hfield, hk]
      rfl
  | ok f =>
      rw [hk] at hfield
      rw [Except.toOption_eq_some_iff.mp hfield.symm]
      change (if f.isKnown acc then _ else f.read acc d _ v : Except Error σ).toOption =
        (if f.isKnown acc then _ else f.read acc d' _ v' : Except Error σ).toOption
      split
      · rfl
      · exact laws.ofTree f (field_eq_ok hk).1 acc value _ _ _ _

theorem members_of_tree {s : Shape σ} (laws : s.Lawful) {fs gs : List (Node × Node)}
    (h : Node.SameEntries fs gs) (d d' : Document) (path path' : Path) (acc : σ) :
    (s.members d path fs acc).toOption = (s.members d' path' gs acc).toOption := by
  induction gs generalizing fs acc with
  | nil =>
      cases h
      rfl
  | cons g gs ih =>
      cases h with
      | cons key value h =>
          simp only [members_cons, Except.toOption_bind, take_of_tree laws key value d d' path path', ih h]

/-- A record is read from its tree, in which the order of the keys does not count. -/
theorem isOfTree_read {s : Shape σ} (laws : s.Lawful) : IsOfTree s.read := by
  intro n n' h d d' path path'
  cases h with
  | scalar m m' h =>
      simp only [read, resolve, h.isEmptyPlain_eq]
      split
      · simp only [toOption_placed]
        rfl
      · simp
  | sequence => simp [read, resolve]
  | mapping m m' distinct order h =>
      simp only [read, resolve, toOption_placed, Except.toOption_bind, members_perm laws d path order,
        members_of_tree laws h d d' path path']

/-! Keys. -/

theorem members_cons_eq_ok_iff {s : Shape σ} (laws : s.Lawful) {d : Document} {path : Path}
    {e : Node × Node} {es : List (Node × Node)} {acc p : σ} :
    s.members d path (e :: es) acc = .ok p ↔
      ∃ f ∈ s.fields, ∃ acc', key? d e.1 = some f.name ∧ f.isKnown acc = false ∧
        f.read acc d (step e.1 :: path) e.2 = .ok acc' ∧ s.members d path es acc' = .ok p := by
  rw [members_cons, Except.bind_eq_ok_iff]
  constructor
  · rintro ⟨acc', htake, h⟩
    obtain ⟨f, hf, hkey, hnew, hread⟩ := (take_eq_ok_iff laws).mp htake
    exact ⟨f, hf, acc', hkey, hnew, hread, h⟩
  · rintro ⟨f, hf, acc', hkey, hnew, hread, h⟩
    exact ⟨acc', (take_eq_ok_iff laws).mpr ⟨f, hf, hkey, hnew, hread⟩, h⟩

section Keys

variable {s : Shape σ} {d : Document} {path : Path} {es : List (Node × Node)} {acc p : σ}

theorem names_of_members (laws : s.Lawful) (h : s.members d path es acc = .ok p) :
    ∀ k ∈ keys d es, ∃ f ∈ s.fields, k = some f.name := by
  induction es generalizing acc with
  | nil => simp [keys]
  | cons e es ih =>
      obtain ⟨f, hf, acc', hkey, -, -, h⟩ := (members_cons_eq_ok_iff laws).mp h
      exact List.forall_mem_cons.mpr ⟨⟨f, hf, hkey⟩, ih h⟩

/-- A field that has been read already is not there again. -/
theorem new_of_members (laws : s.Lawful) (h : s.members d path es acc = .ok p) {f : Field σ}
    (hf : f ∈ s.fields) (hknown : f.isKnown acc = true) : some f.name ∉ keys d es := by
  induction es generalizing acc with
  | nil => simp [keys]
  | cons e es ih =>
      obtain ⟨g, hg, acc', hkey, hnew, hread, h⟩ := (members_cons_eq_ok_iff laws).mp h
      have hne : f.name ≠ g.name := fun hname => by
        rw [laws.eq_of_name hf hg hname, hnew] at hknown
        cases hknown
      have hrest := ih h (by rw [laws.known g hg _ _ _ _ _ hread f hf, hknown]; rfl)
      simpa [hkey, hne] using hrest

theorem nodup_of_members (laws : s.Lawful) (h : s.members d path es acc = .ok p) :
    (keys d es).Nodup := by
  induction es generalizing acc with
  | nil => exact List.nodup_nil
  | cons e es ih =>
      obtain ⟨f, hf, acc', hkey, -, hread, h⟩ := (members_cons_eq_ok_iff laws).mp h
      have hknown : f.isKnown acc' = true := by simp [laws.known f hf _ _ _ _ _ hread f hf]
      rw [keys_cons, hkey]
      exact List.nodup_cons.mpr ⟨new_of_members laws h hf hknown, ih h⟩

theorem known_of_members (laws : s.Lawful) (h : s.members d path es acc = .ok p) {f : Field σ}
    (hf : f ∈ s.fields) : f.isKnown p ↔ f.isKnown acc ∨ some f.name ∈ keys d es := by
  induction es generalizing acc with
  | nil =>
      cases h
      simp [keys]
  | cons e es ih =>
      obtain ⟨g, hg, acc', hkey, -, hread, h⟩ := (members_cons_eq_ok_iff laws).mp h
      rw [ih h, laws.known g hg _ _ _ _ _ hread f hf]
      simp [hkey, or_assoc]

theorem unknown_of_members (laws : s.Lawful) (h : s.members d path es s.blank = .ok p) {f : Field σ}
    (hf : f ∈ s.fields) (hnot : some f.name ∉ keys d es) : f.isKnown p = false := by
  rw [Bool.eq_false_iff, ne_eq, known_of_members laws h hf, laws.blank f hf]
  simpa using hnot

/-- What stands under the name of a field is what the field is read from. -/
theorem members_value (laws : s.Lawful) {β : Type} (get : σ → β) {f : Field σ} (hf : f ∈ s.fields)
    (frame : ∀ g ∈ s.fields, g.name ≠ f.name → ∀ acc d path n acc',
      g.read acc d path n = .ok acc' → get acc' = get acc)
    (h : s.members d path es acc = .ok p) {k v : Node} (he : (k, v) ∈ es)
    (hk : key? d k = some f.name) :
    ∃ acc acc' path, f.read acc d path v = .ok acc' ∧ get p = get acc' := by
  have unchanged {es : List (Node × Node)} {acc : σ} (h : s.members d path es acc = .ok p)
      (hnot : some f.name ∉ keys d es) : get p = get acc := by
    induction es generalizing acc with
    | nil =>
        cases h
        rfl
    | cons e es ih =>
        obtain ⟨g, hg, acc', hkey, -, hread, h⟩ := (members_cons_eq_ok_iff laws).mp h
        obtain ⟨hne, hnot⟩ : f.name ≠ g.name ∧ some f.name ∉ keys d es := by
          simpa [hkey] using hnot
        rw [ih h hnot, frame g hg hne.symm _ _ _ _ _ hread]
  induction es generalizing acc with
  | nil => cases he
  | cons e es ih =>
      obtain ⟨g, hg, acc', hkey, -, hread, hrest⟩ := (members_cons_eq_ok_iff laws).mp h
      rcases List.mem_cons.mp he with rfl | he
      · cases laws.eq_of_name hf hg (Option.some.inj (hk.symm.trans hkey))
        have hknown : f.isKnown acc' = true := by simp [laws.known f hf _ _ _ _ _ hread f hf]
        exact ⟨acc, acc', _, hread, unchanged hrest (new_of_members laws hrest hf hknown)⟩
      · exact ih hrest he

/-- The value of each entry is of the type of its field. -/
def Readable (s : Shape σ) (d : Document) (es : List (Node × Node)) : Prop :=
  ∀ e ∈ es, ∀ f ∈ s.fields, key? d e.1 = some f.name →
    ∀ acc path, ∃ acc', f.read acc d path e.2 = .ok acc'

theorem members_ok (laws : s.Lawful) (path : Path)
    (names : ∀ k ∈ keys d es, ∃ f ∈ s.fields, k = some f.name) (distinct : (keys d es).Nodup)
    (new : ∀ f ∈ s.fields, f.isKnown acc = true → some f.name ∉ keys d es)
    (readable : s.Readable d es) : ∃ p, s.members d path es acc = .ok p := by
  induction es generalizing acc with
  | nil => exact ⟨acc, rfl⟩
  | cons e es ih =>
      obtain ⟨⟨f, hf, hkey⟩, names⟩ := List.forall_mem_cons.mp names
      obtain ⟨hnot, distinct⟩ := List.nodup_cons.mp distinct
      obtain ⟨acc', hread⟩ := readable e List.mem_cons_self f hf hkey acc (step e.1 :: path)
      have hnew : f.isKnown acc = false :=
        Bool.eq_false_iff.mpr fun hknown => new f hf hknown (hkey ▸ List.mem_cons_self)
      have new' : ∀ g ∈ s.fields, g.isKnown acc' = true → some g.name ∉ keys d es := by
        intro g hg hknown
        rw [laws.known f hf _ _ _ _ _ hread g hg] at hknown
        rcases Bool.or_eq_true_iff.mp hknown with hknown | hname
        · exact fun hmem => new g hg hknown (List.mem_cons_of_mem _ hmem)
        · rw [eq_of_beq hname, ← hkey]
          exact hnot
      obtain ⟨p, h⟩ := ih names distinct new' fun e he => readable e (List.mem_cons_of_mem _ he)
      exact ⟨p, (members_cons_eq_ok_iff laws).mpr ⟨f, hf, acc', hkey, hnew, hread, h⟩⟩

end Keys

/-! Whole records. -/

def required (s : Shape σ) : List String := (s.fields.filter (·.default.isNone)).map (·.name)

def optional (s : Shape σ) : List String := (s.fields.filter (·.default.isSome)).map (·.name)

/-- What has no default is known if there is nothing missing. -/
theorem complete_ok_iff {s : Shape σ} (laws : s.Lawful) {fields : List (Field σ)}
    (hfields : ∀ f ∈ fields, f ∈ s.fields) (acc : σ) :
    (∃ p, complete fields acc = .ok p) ↔ ∀ f ∈ fields, f.default = none → f.isKnown acc = true := by
  induction fields generalizing acc with
  | nil => simp [complete]
  | cons f fields ih =>
      obtain ⟨hf, hfields⟩ := List.forall_mem_cons.mp hfields
      rw [List.forall_mem_cons, complete]
      split
      · rename_i hknown
        simp [ih hfields acc, hknown]
      · rename_i hnew
        split
        · rename_i fill hfill
          have hothers : ∀ g ∈ fields, g.default = none → g.isKnown (fill acc) = g.isKnown acc := by
            intro g hg hdefault
            have hne : g.name ≠ f.name := fun hname => by
              rw [laws.eq_of_name (hfields g hg) hf hname, hfill] at hdefault
              cases hdefault
            simp [laws.filled f hf fill hfill g (hfields g hg) acc, hne]
          rw [ih hfields (fill acc)]
          simp only [hfill, reduceCtorEq, false_implies, true_and]
          exact forall₃_congr fun g hg hdefault => by rw [hothers g hg hdefault]
        · rename_i hdefault
          simp [hdefault, hnew]

theorem read_mapping_eq_ok_iff (s : Shape σ) {d : Document} {path : Path} {n : Node}
    {es : List (Node × Node)} {m : Mark} (hn : resolve d n = .mapping es m) {p : σ} :
    s.read d path n = .ok p ↔
      ∃ acc, s.members d path es s.blank = .ok acc ∧ complete s.fields acc = .ok p := by
  simp only [read, hn]
  rw [← Except.toOption_eq_some_iff, toOption_placed, Except.toOption_eq_some_iff,
    Except.bind_eq_ok_iff]

section Whole

variable {s : Shape σ} {d : Document} {path : Path} {n : Node} {es : List (Node × Node)} {m : Mark}

theorem fits_of_read (laws : s.Lawful) (hn : resolve d n = .mapping es m) {p : σ}
    (h : s.read d path n = .ok p) : Fits s.required s.optional (keys d es) := by
  obtain ⟨acc, hmembers, hcomplete⟩ := (s.read_mapping_eq_ok_iff hn).mp h
  refine ⟨fun k hk => ?_, nodup_of_members laws hmembers, fun name hname => ?_⟩
  · obtain ⟨f, hf, rfl⟩ := names_of_members laws hmembers k hk
    refine ⟨f.name, List.mem_append.mpr ?_, rfl⟩
    cases hdefault : f.default with
    | none => exact .inl (List.mem_map.mpr ⟨f, List.mem_filter.mpr ⟨hf, by simp [hdefault]⟩, rfl⟩)
    | some fill => exact .inr (List.mem_map.mpr ⟨f, List.mem_filter.mpr ⟨hf, by simp [hdefault]⟩, rfl⟩)
  · obtain ⟨f, hf, rfl⟩ := List.mem_map.mp hname
    obtain ⟨hf, hdefault⟩ := List.mem_filter.mp hf
    have hknown := (complete_ok_iff laws (fun _ => id) acc).mp ⟨p, hcomplete⟩ f hf
      (Option.isNone_iff_eq_none.mp hdefault)
    rcases (known_of_members laws hmembers hf).mp hknown with hblank | hkey
    · simp [laws.blank f hf] at hblank
    · exact hkey

theorem read_ok (laws : s.Lawful) (path : Path) (hn : resolve d n = .mapping es m)
    (fits : Fits s.required s.optional (keys d es)) (readable : s.Readable d es) :
    ∃ p, s.read d path n = .ok p := by
  have names : ∀ k ∈ keys d es, ∃ f ∈ s.fields, k = some f.name := by
    intro k hk
    obtain ⟨name, hname, rfl⟩ := fits.known k hk
    simp only [required, optional, List.mem_append, List.mem_map, List.mem_filter] at hname
    rcases hname with ⟨f, ⟨hf, -⟩, rfl⟩ | ⟨f, ⟨hf, -⟩, rfl⟩
    · exact ⟨f, hf, rfl⟩
    · exact ⟨f, hf, rfl⟩
  have new : ∀ f ∈ s.fields, f.isKnown s.blank = true → some f.name ∉ keys d es := by
    intro f hf hknown
    simp [laws.blank f hf] at hknown
  obtain ⟨acc, hmembers⟩ := members_ok laws path names fits.distinct new readable
  obtain ⟨p, hcomplete⟩ := (complete_ok_iff laws (fun _ => id) acc).mpr fun f hf hdefault =>
    (known_of_members laws hmembers hf).mpr <| .inr <| fits.complete f.name <|
      List.mem_map.mpr ⟨f, List.mem_filter.mpr ⟨hf, by simp [hdefault]⟩, rfl⟩
  exact ⟨p, (s.read_mapping_eq_ok_iff hn).mpr ⟨acc, hmembers, hcomplete⟩⟩

end Whole

end Shape

end Gauge.Yaml.Reader
