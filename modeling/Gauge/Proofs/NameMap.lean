import Mathlib.Data.List.Sort
import Gauge.NameMap

/-!
Laws of maps by names. A map is told by its entries: putting them in one after another builds it again.
What is found under a name is what was put there last.
-/

namespace Gauge.NameMap

variable {α : Type}

theorem insertEntry_after {name : String} {value : α} {entries : List (String × α)}
    (h : ∀ e ∈ entries, e.1 < name) :
    insertEntry name value entries = entries ++ [(name, value)] := by
  induction entries with
  | nil => rfl
  | cons e rest ih =>
      have he : e.1 < name := h e List.mem_cons_self
      have hlt : ¬ name < e.1 := fun h' => String.lt_irrefl _ (String.lt_trans he h')
      have hne : name ≠ e.1 := fun h' => String.lt_irrefl _ (h' ▸ he)
      simp only [insertEntry, hlt, hne, if_false, List.cons_append]
      rw [ih fun e' h' => h e' (List.mem_cons_of_mem _ h')]

theorem entries_insertAll_after (m : NameMap α) (entries : List (String × α))
    (h : Sorted (m.entries ++ entries)) :
    (m.insertAll entries).entries = m.entries ++ entries := by
  induction entries generalizing m with
  | nil => simp [insertAll]
  | cons e rest ih =>
      have hbefore : ∀ e' ∈ m.entries, e'.1 < e.1 := fun e' h' =>
        (List.pairwise_append.mp h).2.2 e' h' e List.mem_cons_self
      have hentries : (m.insert e.1 e.2).entries = m.entries ++ [e] := insertEntry_after hbefore
      have hrest : Sorted ((m.insert e.1 e.2).entries ++ rest) := by
        rw [hentries, List.append_assoc]
        exact h
      change ((m.insert e.1 e.2).insertAll rest).entries = _
      rw [ih _ hrest, hentries, List.append_assoc]
      rfl

theorem ext_entries {m n : NameMap α} (h : m.entries = n.entries) : m = n := by
  cases m
  cases n
  cases h
  rfl

@[simp]
theorem ofList_entries (m : NameMap α) : ofList m.entries = m :=
  ext_entries (entries_insertAll_after .empty m.entries m.sorted)

theorem find?_insertEntry (name key : String) (value : α) (entries : List (String × α)) :
    (insertEntry name value entries).find? (·.1 == key) =
      if name = key then some (name, value) else entries.find? (·.1 == key) := by
  induction entries with
  | nil => by_cases h : name = key <;> simp [insertEntry, h]
  | cons e rest ih =>
      simp only [insertEntry]
      split
      · by_cases h : name = key <;> simp [h]
      · split
        · rename_i heq
          by_cases h : name = key <;> simp [h, ← heq]
        · rename_i hne
          rw [List.find?_cons, ih, List.find?_cons]
          by_cases h : name = key
          · have he : (e.1 == key) = false :=
              beq_eq_false_iff_ne.mpr fun h' => hne (h.trans h'.symm)
            simp only [he, h, if_true]
          · simp only [h, if_false]

theorem get?_insert (m : NameMap α) (name key : String) (value : α) :
    (m.insert name value).get? key = if name = key then some value else m.get? key := by
  simp only [get?]
  change Option.map _ ((insertEntry name value m.entries).find? _) = _
  rw [find?_insertEntry]
  split <;> rfl

theorem mem_names_iff (m : NameMap α) (name : String) : name ∈ m.names ↔ (m.get? name).isSome := by
  simp [names, get?]

theorem mem_entries_iff (m : NameMap α) (e : String × α) :
    e ∈ m.entries ↔ m.get? e.1 = some e.2 := by
  have names_inj : ∀ e ∈ m.entries, ∀ e' ∈ m.entries, e.1 = e'.1 → e = e' := by
    have hnames : (m.entries.map (·.1)).Nodup :=
      List.pairwise_map.mpr (m.sorted.imp fun h => String.ne_of_lt h)
    exact fun e he e' he' => List.inj_on_of_nodup_map hnames he he'
  constructor
  · intro he
    obtain ⟨e', hfind⟩ : ∃ e', m.entries.find? (·.1 == e.1) = some e' :=
      Option.isSome_iff_exists.mp (List.find?_isSome.mpr ⟨e, he, beq_self_eq_true e.1⟩)
    have hname : e'.1 = e.1 := by simpa using List.find?_some hfind
    rw [get?, hfind, names_inj e' (List.mem_of_find?_eq_some hfind) e he hname]
    rfl
  · intro h
    obtain ⟨e', hfind, hvalue⟩ := Option.map_eq_some_iff.mp h
    have hname : e'.1 = e.1 := by simpa using List.find?_some hfind
    rw [← Prod.ext hname hvalue]
    exact List.mem_of_find?_eq_some hfind

/-- Maps are equal that have the same things under the same names. -/
theorem ext_get? {m n : NameMap α} (h : ∀ name, m.get? name = n.get? name) : m = n := by
  let before (a b : String × α) : Prop := a.1 < b.1
  have : Std.Irrefl before := ⟨fun a => String.lt_irrefl a.1⟩
  have : Std.Antisymm before :=
    ⟨fun _ _ hab hba => (String.lt_irrefl _ (String.lt_trans hab hba)).elim⟩
  refine ext_entries (List.Pairwise.eq_of_mem_iff (r := before) m.sorted n.sorted fun e => ?_)
  rw [mem_entries_iff, mem_entries_iff, h]

theorem insert_comm (m : NameMap α) {name name' : String} (h : name ≠ name') (value value' : α) :
    (m.insert name value).insert name' value' = (m.insert name' value').insert name value := by
  refine ext_get? fun key => ?_
  simp only [get?_insert]
  split
  · rename_i hkey
    rw [if_neg (hkey ▸ h)]
  · rfl

/-- Things under distinct names may be put in in any order. -/
theorem ofList_perm {l l' : List (String × α)} (h : l.Perm l') (distinct : (l.map (·.1)).Nodup) :
    ofList l = ofList l' := by
  refine h.foldl_eq' (fun e he e' he' m => ?_) empty
  by_cases hname : e.1 = e'.1
  · rw [List.inj_on_of_nodup_map distinct he he' hname]
  · exact insert_comm m hname e.2 e'.2

end Gauge.NameMap
