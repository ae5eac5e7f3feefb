import Gauge.Proofs.Yaml.Document
import Gauge.Proofs.Yaml.Number
import Gauge.Yaml.Reader

/-!
Readers of what the writer has written. A record is read entry by entry, each under a name that its
shape has, until all of its fields are known.
-/

namespace Gauge.Yaml

variable {α σ : Type}

/-- The reader makes the value `a` of a node, wherever the node is. -/
def Makes (r : Reader α) (n : Node) (a : α) : Prop := ∀ d path, r d path n = .ok a

/-! Texts. -/

theorem isAmbiguous_of_textStyle {s : String} (h : Writer.textStyle s = .plain) :
    Writer.isAmbiguous s = false := by
  simp only [Writer.textStyle] at h
  split at h
  · cases h
  · simp only [Writer.inlineStyle] at h
    split at h
    · rename_i hplain
      simp only [Bool.and_eq_true, Bool.not_eq_true'] at hplain
      exact hplain.1.2
    · split at h <;> cases h

theorem not_null_of_isAmbiguous {s : String} (h : Writer.isAmbiguous s = false) :
    (s.isEmpty || Plain.isNull s) = false := by
  rw [Bool.eq_false_iff]
  intro hnull
  have hmeaning : Plain.meaning s = .null := by
    simp only [Plain.meaning]
    rw [if_pos hnull]
  simp [Writer.isAmbiguous, hmeaning] at h

theorem makes_string {expected s : String} {n : Node} (h : IsText s n) :
    Makes (Reader.string expected) n s := by
  obtain ⟨m, rfl⟩ := h
  exact fun _ _ => rfl

/-- A text is never taken for nothing: what is written as it is, is neither empty nor a word for null. -/
theorem makes_option_text {r : Reader α} {s : String} {n : Node} {a : α} (hn : IsText s n)
    (h : Makes r n a) : Makes (Reader.option r) n (some a) := by
  obtain ⟨m, rfl⟩ := hn
  intro d path
  have hsome : (r d path (.scalar ⟨s, Writer.textStyle s, none⟩ m)).map some = .ok (some a) := by
    rw [h d path]
    rfl
  cases hstyle : Writer.textStyle s with
  | plain =>
      have hnull := not_null_of_isAmbiguous (isAmbiguous_of_textStyle hstyle)
      rw [hstyle] at hsome
      simpa [Reader.option, Reader.resolve, hnull] using hsome
  | _ =>
      rw [hstyle] at hsome
      exact hsome

theorem makes_option_null (r : Reader α) (m : Mark) :
    Makes (Reader.option r) (.scalar ⟨"null", .plain, none⟩ m) none := fun _ _ => rfl

theorem makes_option_sequence {r : Reader α} {nodes : List Node} {m : Mark} {a : α}
    (h : Makes r (.sequence nodes m) a) : Makes (Reader.option r) (.sequence nodes m) (some a) := by
  intro d path
  change (r d path (.sequence nodes m)).map some = _
  rw [h d path]
  rfl

theorem makes_bool (b : Bool) (m : Mark) :
    Makes Reader.bool (.scalar ⟨toString b, .plain, none⟩ m) b := by
  intro d path
  cases b <;> rfl

theorem makes_float (x : Float) (m : Mark) :
    Makes Reader.float (.scalar ⟨Writer.number x, .plain, none⟩ m) x := by
  intro d path
  simp [Reader.float, Reader.plain, Reader.resolve, Scalar.isPlainOr, Writer.real?_number]

/-! Lists. -/

theorem itemsFrom_strings {expected : String} {items : List String} {nodes : List Node}
    (h : List.Forall₂ IsText items nodes) (d : Document) (path : Path) (i : Nat) :
    Reader.itemsFrom (Reader.string expected) d path i nodes = .ok items := by
  induction h generalizing i with
  | nil => rfl
  | cons hs _ ih =>
      simp only [Reader.itemsFrom]
      rw [makes_string hs, ih (i + 1)]
      rfl

theorem makes_list {expected : String} {items : List String} {nodes : List Node} {m : Mark}
    (h : List.Forall₂ IsText items nodes) :
    Makes (Reader.list (Reader.string expected)) (.sequence nodes m) items := by
  intro d path
  change Reader.placed path m (Reader.itemsFrom _ d path 0 nodes) = _
  rw [itemsFrom_strings h]
  rfl

/-! Entries. -/

namespace Entries

/-- Words under names. -/
def words : List (String × String) → Entries
  | [] => .nil
  | e :: rest => .word e.1 e.2 (words rest)

/-- Entries that begin with a value that `r` reads as `a`, under the name `k`. -/
def Begins (e : Entries) (k : String) (r : Reader α) (a : α) (rest : Entries) : Prop :=
  ∀ ns, Holds e ns → ∃ key value more, ns = (key, value) :: more ∧ IsText k key ∧ Makes r value a ∧
    Holds rest more

/-- Entries that `r` reads as `a` once they are the whole of a mapping. -/
def ReadAs (e : Entries) (r : Reader α) (a : α) : Prop :=
  ∀ ns, Holds e ns → ∀ m, Makes r (.mapping ns m) a

theorem begins_text {r : Reader α} {a : α} {k s : String} {rest : Entries}
    (hs : ∀ n, IsText s n → Makes r n a) : (Entries.text k s rest).Begins k r a rest := by
  intro ns h
  cases h with
  | text hk htext h => exact ⟨_, _, _, rfl, hk, hs _ htext, h⟩

theorem begins_list {r : Reader α} {a : α} {k : String} {items : List String} {rest : Entries}
    (hitems : ∀ nodes m, List.Forall₂ IsText items nodes → Makes r (.sequence nodes m) a) :
    (Entries.list k items rest).Begins k r a rest := by
  intro ns h
  cases h with
  | list hk hnodes h => exact ⟨_, _, _, rfl, hk, hitems _ _ hnodes, h⟩

theorem begins_word {r : Reader α} {a : α} {k w : String} {rest : Entries}
    (hw : ∀ m, Makes r (.scalar ⟨w, .plain, none⟩ m) a) :
    (Entries.word k w rest).Begins k r a rest := by
  intro ns h
  cases h with
  | word hk h => exact ⟨_, _, _, rfl, hk, hw _, h⟩

theorem begins_mapping {r : Reader α} {a : α} {k : String} {inner rest : Entries}
    (hinner : inner.ReadAs r a) : (Entries.mapping k inner rest).Begins k r a rest := by
  intro ns h
  cases h with
  | mapping hk hinside h => exact ⟨_, _, _, rfl, hk, hinner _ hinside _, h⟩

/-- Numbers under names. -/
theorem words_readAs_entries {r : Reader α} {w : α → String}
    (hw : ∀ a m, Makes r (.scalar ⟨w a, .plain, none⟩ m) a) (l : List (String × α)) :
    (words (l.map fun e => (e.1, w e.2))).ReadAs (Reader.entries r) l := by
  intro ns h m d path
  let readEntry (entry : Node × Node) : Except Error (String × α) := do
    let name ← Reader.string "a string" d path entry.1
    return (name, ← r d (Reader.step entry.1 :: path) entry.2)
  have hall : ns.mapM readEntry = .ok l := by
    induction l generalizing ns with
    | nil =>
        cases h with
        | nil => rfl
    | cons e l ih =>
        cases h with
        | word hk h =>
            obtain ⟨k, rfl⟩ := hk
            rw [List.mapM_cons, ih _ h]
            change (r d _ _ >>= _) >>= _ = _
            rw [hw e.2]
            rfl
  change Reader.placed path m (ns.mapM readEntry) = _
  rw [hall]
  rfl

end Entries

/-! Records. -/

namespace Reader.Shape

/-- The entries `e` make `result` of a record of which `acc` has been read. -/
def Takes (s : Shape σ) (e : Entries) (acc result : σ) : Prop :=
  ∀ ns, Holds e ns → ∀ d path, s.members d path ns acc = .ok result

theorem takes_nil (s : Shape σ) (acc : σ) : s.Takes .nil acc acc := by
  intro ns h
  cases h with
  | nil => exact fun _ _ => rfl

/-- One entry is read into the field that its name finds. -/
theorem takes_cons {s : Shape σ} {f : Field σ} {e rest : Entries} {k : String} {r : Reader α} {a : α}
    {acc result : σ} (set : α → σ) (hfield : s.fields.find? (·.name == k) = some f)
    (hnew : f.isKnown acc = false)
    (hread : ∀ d path n, f.read acc d path n = do return set (← r d path n))
    (hbegins : e.Begins k r a rest) (hrest : s.Takes rest (set a) result) :
    s.Takes e acc result := by
  intro ns h d path
  obtain ⟨key, value, more, rfl, ⟨m, rfl⟩, hvalue, hmore⟩ := hbegins ns h
  have hkey : s.field d path (.scalar ⟨k, Writer.textStyle k, none⟩ m) = .ok f := by
    simp only [field, resolve]
    rw [hfield]
  have hnext : f.read acc d (step (.scalar ⟨k, Writer.textStyle k, none⟩ m) :: path) value =
      .ok (set a) := by
    rw [hread, hvalue]
    rfl
  simp only [members]
  rw [hkey]
  change (if f.isKnown acc then _ else _) = _
  rw [hnew, hnext]
  exact hrest more hmore d path

theorem complete_of_known {fields : List (Field σ)} {acc : σ}
    (h : ∀ f ∈ fields, f.isKnown acc = true) : complete fields acc = .ok acc := by
  induction fields with
  | nil => rfl
  | cons f fields ih =>
      simp only [complete]
      rw [if_pos (h f List.mem_cons_self)]
      exact ih fun g hg => h g (List.mem_cons_of_mem f hg)

/-- A record whose fields are all there is read as what its entries make of it. -/
theorem readAs_read {s : Shape σ} {e : Entries} {p : σ} (htakes : s.Takes e s.blank p)
    (hknown : ∀ f ∈ s.fields, f.isKnown p = true) : e.ReadAs s.read p := by
  intro ns h m d path
  change placed path m (s.members d path ns s.blank >>= complete s.fields) = _
  rw [htakes ns h]
  change placed path m (complete s.fields p) = _
  rw [complete_of_known hknown]
  rfl

end Reader.Shape

/-- A text that is written of entries is read as they are. -/
theorem Reader.whole_write {r : Reader α} {e : Entries} {a : α} (hne : e ≠ .nil)
    (hwords : e.WordsAreBare) (h : e.ReadAs r a) :
    Reader.whole r (String.ofList (e.write 0)) = .ok a := by
  obtain ⟨ns, m, hns, hroot, hfailure, hmore⟩ := Document.ofText_write hne hwords
  simp only [Reader.whole]
  simp only [hroot, hfailure, hmore]
  rw [h ns hns m]
  rfl

end Gauge.Yaml
