import Gauge.Proofs.Except
import Gauge.Proofs.NameMap
import Gauge.Yaml.Reader

/-!
Texts as trees. Two texts stand for the same tree if they differ only in layout, in the way in which strings
are written, and in the order of the keys of their mappings. What a reader makes of a node is told by its tree.
-/

namespace Gauge.Yaml

/-! Scalars. -/

/-- Whether plain text is nothing, a truth value or a number. -/
def Plain.IsWord (s : String) : Prop :=
  s.isEmpty ∨ isNull s ∨ (boolean? s).isSome ∨ (integer? s).isSome ∨ (real? s).isSome

instance (s : String) : Decidable (Plain.IsWord s) :=
  inferInstanceAs (Decidable (_ ∨ _ ∨ _ ∨ _ ∨ _))

/-- A string is the same whether it is plain, in quotes or a block. Plain text that is something else than a
string, and a scalar with a tag, are what they are only as they are written. -/
inductive Scalar.IsString (s : Scalar) : Prop
  | plain (untagged : s.tag = none) (text : ¬ Plain.IsWord s.value)
  | inQuotesOrBlock (untagged : s.tag = none) (style : s.style ≠ .plain)

/-- A text that is no word is a string in every style. -/
theorem Scalar.isString_of_not_isWord {v : String} (h : ¬ Plain.IsWord v) (style : ScalarStyle) :
    Scalar.IsString ⟨v, style, none⟩ := by
  by_cases hstyle : style = .plain
  · subst hstyle
    exact .plain rfl h
  · exact .inQuotesOrBlock rfl hstyle

def Scalar.Same (s t : Scalar) : Prop := s = t ∨ (s.IsString ∧ t.IsString ∧ s.value = t.value)

namespace Scalar.Same

variable {s t : Scalar}

theorem value_eq (h : s.Same t) : s.value = t.value := by
  rcases h with rfl | ⟨-, -, h⟩
  · rfl
  · exact h

theorem isEmptyPlain_eq (h : s.Same t) : s.isEmptyPlain = t.isEmptyPlain := by
  have never {s : Scalar} (h : s.IsString) : s.isEmptyPlain = false := by
    rw [Bool.eq_false_iff]
    intro hempty
    obtain ⟨hvalue, hstyle⟩ : s.value.isEmpty = true ∧ s.style = .plain := by
      simpa [isEmptyPlain] using hempty
    cases h with
    | plain _ text => exact text (.inl hvalue)
    | inQuotesOrBlock _ style => exact style hstyle
  rcases h with rfl | ⟨hs, ht, -⟩
  · rfl
  · rw [never hs, never ht]

end Scalar.Same

/-- A reader of the words of a type does not accept a string. -/
theorem Scalar.IsString.refused {α : Type} {s : Scalar} (h : s.IsString) (type : String)
    {accept : String → Option α} (words : ∀ v, (accept v).isSome → Plain.IsWord v) :
    (if s.isPlainOr type then accept s.value else none) = none := by
  cases h with
  | plain untagged text =>
      have : accept s.value = none := by
        rw [← Option.not_isSome_iff_eq_none]
        exact fun h => text (words _ h)
      simp [this]
  | inQuotesOrBlock untagged style =>
      rw [if_neg]
      simp only [isPlainOr, untagged]
      cases h : s.style <;> simp_all

/-! Nodes. -/

namespace Node

/-- The text of a scalar. -/
def text? : Node → Option String
  | .scalar s _ => some s.value
  | _ => none

/-- No text is a key twice. -/
def DistinctKeys (entries : List (Node × Node)) : Prop := (entries.filterMap (·.1.text?)).Nodup

instance (entries : List (Node × Node)) : Decidable (DistinctKeys entries) :=
  inferInstanceAs (Decidable (List.Nodup _))

mutual

/-- The same tree, in which no mapping has a key twice and nothing is an alias. -/
inductive Same : Node → Node → Prop
  | scalar {s t : Scalar} (m m' : Mark) (h : s.Same t) : Same (.scalar s m) (.scalar t m')
  | sequence {xs ys : List Node} (m m' : Mark) (h : List.Forall₂ Same xs ys) :
      Same (.sequence xs m) (.sequence ys m')
  | mapping {es fs gs : List (Node × Node)} (m m' : Mark) (distinct : DistinctKeys es)
      (order : es.Perm fs) (h : SameEntries fs gs) : Same (.mapping es m) (.mapping gs m')

/-- The same keys with the same values, in one order. -/
inductive SameEntries : List (Node × Node) → List (Node × Node) → Prop
  | nil : SameEntries [] []
  | cons {k k' v v' : Node} {es fs : List (Node × Node)} (key : Same k k') (value : Same v v')
      (h : SameEntries es fs) : SameEntries ((k, v) :: es) ((k', v') :: fs)

end

end Node

/-- Documents without flaws that have the same tree. -/
structure Document.Same (d d' : Document) : Prop where
  failure : d.failure = none
  failure' : d'.failure = none
  hasMore : d.hasMore = d'.hasMore
  root : d.root.Same d'.root

/-! Readers. -/

/-- What the reader makes of a node, or that it fails, depends only on the tree of the node. -/
def Reader.IsOfTree {α : Type} (r : Reader α) : Prop :=
  ∀ ⦃n n' : Node⦄, n.Same n' → ∀ d d' path path', (r d path n).toOption = (r d' path' n').toOption

namespace Reader

variable {α β : Type}

@[simp]
theorem toOption_mismatch (expected : String) (d : Document) (path : Path) (n : Node) :
    (mismatch expected d path n : Except Error α).toOption = none := by
  cases n with
  | scalar s m =>
      simp only [mismatch]
      cases s.describe <;> rfl
  | _ => rfl

theorem mismatch_ne_ok {expected : String} {d : Document} {path : Path} {n : Node} {a : α} :
    mismatch expected d path n ≠ .ok a := by
  intro h
  have := toOption_mismatch (α := α) expected d path n
  rw [h] at this
  cases this

@[simp]
theorem toOption_placed (path : Path) (m : Mark) (x : Except Error α) :
    (placed path m x).toOption = x.toOption := by
  cases x with
  | ok a => rfl
  | error e =>
      cases e with
      | unfit c site => cases site <;> rfl
      | _ => rfl

theorem isOfTree_string (expected : String) : IsOfTree (string expected) := by
  intro n n' h d d' path path'
  cases h with
  | scalar m m' h => exact congrArg some h.value_eq
  | sequence | mapping => rfl

theorem isOfTree_plain {type expected : String} {accept : String → Option α}
    (words : ∀ v, (accept v).isSome → Plain.IsWord v) : IsOfTree (plain type expected accept) := by
  intro n n' h d d' path path'
  cases h with
  | @scalar s t m m' h =>
      simp only [plain, resolve]
      rcases h with rfl | ⟨hs, ht, -⟩
      · cases (if s.isPlainOr type then accept s.value else none) <;> simp
      · rw [hs.refused type words, ht.refused type words]
        simp
  | sequence | mapping => simp [plain, resolve]

theorem isOfTree_bool : IsOfTree bool :=
  isOfTree_plain fun _ h => .inr (.inr (.inl h))

theorem isOfTree_float : IsOfTree float :=
  isOfTree_plain fun _ h => .inr (.inr (.inr (.inr h)))

/-- A string is never taken for nothing. -/
theorem option_of_isString (r : Reader α) {s : Scalar} (h : s.IsString) (d : Document) (path : Path)
    (m : Mark) : option r d path (.scalar s m) = (r d path (.scalar s m)).map some := by
  simp only [option, resolve]
  cases h with
  | plain untagged text =>
      have hnull : (s.value.isEmpty || Plain.isNull s.value) = false := by
        rw [Bool.eq_false_iff]
        intro h
        rcases Bool.or_eq_true_iff.mp h with h | h
        · exact text (.inl h)
        · exact text (.inr (.inl h))
      rw [untagged]
      simp [hnull]
  | inQuotesOrBlock untagged style => simp [style]

theorem isOfTree_option {r : Reader α} (hr : IsOfTree r) : IsOfTree (option r) := by
  intro n n' h d d' path path'
  have inner := hr h d d' path path'
  cases h with
  | @scalar s t m m' h =>
      have hsome : ((r d path (.scalar s m)).map some).toOption =
          ((r d' path' (.scalar t m')).map some).toOption := by
        rw [Except.toOption_map, Except.toOption_map, inner]
      rcases h with rfl | ⟨hs, ht, -⟩
      · simp only [option, resolve]
        split
        · exact hsome
        · split
          · split
            · rfl
            · exact hsome
          · split
            · exact hsome
            · split <;> rfl
      · rw [option_of_isString r hs, option_of_isString r ht, hsome]
  | sequence | mapping =>
      change ((r _ _ _).map some).toOption = ((r _ _ _).map some).toOption
      rw [Except.toOption_map, Except.toOption_map]
      exact congrArg (Option.map some) inner

theorem itemsFrom_of_tree {r : Reader α} (hr : IsOfTree r) {xs ys : List Node}
    (h : List.Forall₂ Node.Same xs ys) (d d' : Document) (path path' : Path) (i j : Nat) :
    (itemsFrom r d path i xs).toOption = (itemsFrom r d' path' j ys).toOption := by
  induction h generalizing i j with
  | nil => rfl
  | cons hx _ ih =>
      simp only [itemsFrom, Except.toOption_bind, hr hx d d' _ (.item j :: path'), ih (i + 1) (j + 1)]

theorem isOfTree_list {r : Reader α} (hr : IsOfTree r) : IsOfTree (list r) := by
  intro n n' h d d' path path'
  cases h with
  | scalar m m' h =>
      simp only [list, resolve, h.isEmptyPlain_eq]
      split <;> simp
  | sequence m m' h => simpa [list, resolve] using itemsFrom_of_tree hr h d d' path path' 0 0
  | mapping => simp [list, resolve]

/-! Mappings from strings. -/

def entry (r : Reader α) (d : Document) (path : Path) : Node × Node → Except Error (String × α) :=
  fun (k, v) => do
    let name ← string "a string" d path k
    return (name, ← r d (step k :: path) v)

theorem entry_of_tree {r : Reader α} (hr : IsOfTree r) {k k' v v' : Node} (key : k.Same k')
    (value : v.Same v') (d d' : Document) (path path' : Path) :
    (entry r d path (k, v)).toOption = (entry r d' path' (k', v')).toOption := by
  simp only [entry, Except.toOption_bind, isOfTree_string "a string" key d d' path path',
    hr value d d' (step k :: path) (step k' :: path')]

theorem mapM_entry_of_tree {r : Reader α} (hr : IsOfTree r) {fs gs : List (Node × Node)}
    (h : Node.SameEntries fs gs) (d d' : Document) (path path' : Path) :
    (fs.mapM (entry r d path)).toOption = (gs.mapM (entry r d' path')).toOption := by
  induction gs generalizing fs with
  | nil =>
      cases h
      rfl
  | cons g gs ih =>
      cases h with
      | cons key value h =>
          simp only [List.mapM_cons, Except.toOption_bind, entry_of_tree hr key value d d' path path', ih h]

theorem text?_of_string {expected name : String} {k k' : Node} (hk : k.Same k') {d : Document}
    {path : Path} (h : string expected d path k = .ok name) : k.text? = some name := by
  cases hk with
  | scalar =>
      cases h
      rfl
  | sequence | mapping => cases h

/-- The names are the texts of the keys. -/
theorem names_of_mapM_entry {r : Reader α} {fs gs : List (Node × Node)} (h : Node.SameEntries fs gs)
    {d : Document} {path : Path} {l : List (String × α)} (hl : fs.mapM (entry r d path) = .ok l) :
    l.map (·.1) = fs.filterMap (·.1.text?) := by
  have hall := Except.mapM_eq_ok_iff.mp hl
  clear hl
  induction hall generalizing gs with
  | nil => rfl
  | @cons e x fs l hx _ ih =>
      cases h with
      | @cons k _ v _ _ _ key _ h =>
          obtain ⟨name, hname, hx⟩ := Except.bind_eq_ok_iff.mp hx
          obtain ⟨a, -, ⟨⟩⟩ := Except.bind_eq_ok_iff.mp hx
          simp only [List.map_cons, List.filterMap_cons, text?_of_string key hname, ih h]

theorem map_mapM_perm {r : Reader α} {es fs : List (Node × Node)} (h : es.Perm fs) {d : Document}
    {path : Path} (distinct : ∀ l, fs.mapM (entry r d path) = .ok l → (l.map (·.1)).Nodup) :
    ((es.mapM (entry r d path)).map NameMap.ofList).toOption =
      ((fs.mapM (entry r d path)).map NameMap.ofList).toOption := by
  cases hfs : fs.mapM (entry r d path) with
  | ok l =>
      obtain ⟨l', hperm, hes⟩ := Except.mapM_perm h hfs
      rw [hes]
      exact congrArg some (NameMap.ofList_perm hperm.symm (distinct l hfs)).symm
  | error e =>
      cases hes : es.mapM (entry r d path) with
      | error e' => rfl
      | ok l =>
          obtain ⟨l', -, hfs'⟩ := Except.mapM_perm h.symm hes
          cases hfs.symm.trans hfs'

/-- Into a map, entries are read in any order. -/
theorem isOfTree_entries {r : Reader α} (hr : IsOfTree r) :
    IsOfTree fun d path n => (entries r d path n).map NameMap.ofList := by
  intro n n' h d d' path path'
  cases h with
  | scalar m m' h =>
      simp only [entries, resolve, h.isEmptyPlain_eq]
      split <;> simp [Except.toOption_map]
  | sequence => simp [entries, resolve, Except.toOption_map]
  | @mapping es fs gs m m' distinct order h =>
      have hperm := @map_mapM_perm _ r _ _ order d path fun l hl => by
        rw [names_of_mapM_entry h hl]
        exact (order.filterMap _).nodup_iff.mp distinct
      change ((placed path m (es.mapM (entry r d path))).map NameMap.ofList).toOption =
        ((placed path' m' (gs.mapM (entry r d' path'))).map NameMap.ofList).toOption
      rw [Except.toOption_map, toOption_placed, Except.toOption_map, toOption_placed]
      rw [Except.toOption_map, Except.toOption_map, mapM_entry_of_tree hr h d d' path path'] at hperm
      exact hperm

theorem whole_of_tree {r : Reader α} (hr : IsOfTree r) {a b : String}
    (h : (Document.ofText a).Same (Document.ofText b)) : (whole r a).toOption = (whole r b).toOption := by
  simp only [whole, Except.toOption_bind, h.failure, h.failure', h.hasMore]
  rw [hr h.root _ (Document.ofText b) [] []]

end Reader

end Gauge.Yaml
