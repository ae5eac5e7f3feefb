/-!
Things under names, each name once, in the order of the names. The order makes them canonical: two
maps with the same things under the same names are equal.
-/

namespace Gauge

namespace NameMap

variable {α : Type}

/-- Puts a thing into sorted entries; an entry of the same name gives way. -/
def insertEntry (name : String) (value : α) : List (String × α) → List (String × α)
  | [] => [(name, value)]
  | e :: rest =>
    if name < e.1 then (name, value) :: e :: rest
    else if name = e.1 then (name, value) :: rest
    else e :: insertEntry name value rest

def Sorted (entries : List (String × α)) : Prop := entries.Pairwise fun a b => a.1 < b.1

theorem name_of_mem_insertEntry {name : String} {value : α} {entries : List (String × α)}
    {e : String × α} (h : e ∈ insertEntry name value entries) : e.1 = name ∨ e ∈ entries := by
  induction entries with
  | nil => simp_all [insertEntry]
  | cons a rest ih =>
    unfold insertEntry at h
    split at h
    · simp only [List.mem_cons] at h ⊢
      rcases h with rfl | h
      · exact .inl rfl
      · exact .inr h
    · split at h
      · simp only [List.mem_cons] at h ⊢
        rcases h with rfl | h
        · exact .inl rfl
        · exact .inr (.inr h)
      · simp only [List.mem_cons] at h ⊢
        rcases h with rfl | h
        · exact .inr (.inl rfl)
        · exact (ih h).imp_right .inr

theorem sorted_insertEntry {name : String} {value : α} {entries : List (String × α)}
    (h : Sorted entries) : Sorted (insertEntry name value entries) := by
  induction entries with
  | nil => simp [insertEntry, Sorted]
  | cons a rest ih =>
    have hrest : Sorted rest := (List.pairwise_cons.mp h).2
    have ha : ∀ b ∈ rest, a.1 < b.1 := (List.pairwise_cons.mp h).1
    unfold insertEntry
    split
    · rename_i hlt
      refine List.pairwise_cons.mpr ⟨fun b hb => ?_, h⟩
      rcases List.mem_cons.mp hb with rfl | hb
      · exact hlt
      · exact String.lt_trans hlt (ha b hb)
    · split
      · rename_i heq
        exact List.pairwise_cons.mpr ⟨fun b hb => heq ▸ ha b hb, hrest⟩
      · rename_i hlt hne
        have hgt : a.1 < name := by
          rcases String.le_total a.1 name with hle | hle
          · exact String.not_le.mp fun h' => hne (String.le_antisymm h' hle)
          · exact absurd (String.le_antisymm hle (String.not_lt.mp hlt)) hne
        refine List.pairwise_cons.mpr ⟨fun b hb => ?_, ih hrest⟩
        rcases name_of_mem_insertEntry hb with hb | hb
        · exact hb ▸ hgt
        · exact ha b hb

end NameMap

structure NameMap (α : Type) where
  entries : List (String × α)
  sorted : NameMap.Sorted entries

namespace NameMap

variable {α : Type}

def empty : NameMap α := ⟨[], List.Pairwise.nil⟩

instance : Inhabited (NameMap α) := ⟨empty⟩

def insert (m : NameMap α) (name : String) (value : α) : NameMap α :=
  ⟨insertEntry name value m.entries, sorted_insertEntry m.sorted⟩

/-- Puts one thing after another; the last of a name stays. -/
def insertAll (m : NameMap α) (entries : List (String × α)) : NameMap α :=
  entries.foldl (fun m e => m.insert e.1 e.2) m

def ofList (entries : List (String × α)) : NameMap α := empty.insertAll entries

def get? (m : NameMap α) (name : String) : Option α :=
  (m.entries.find? (·.1 == name)).map (·.2)

def names (m : NameMap α) : List String := m.entries.map (·.1)

def size (m : NameMap α) : Nat := m.entries.length

def isEmpty (m : NameMap α) : Bool := m.entries.isEmpty

end NameMap

end Gauge
