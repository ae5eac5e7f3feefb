import Mathlib.Data.List.Nodup
import Gauge.Proofs.Script.Run
import Gauge.Proofs.Script.Table
import Gauge.Script.Session

/-!
Global variables as the host sets them and looks them up, where the table that holds them has no metatable: the
table is all that the host changes, and it changes under the names alone that the host gives.
-/

namespace Gauge.Script

/-! A table in the heap. -/

namespace Heap

@[simp]
theorem table_modifyTable (h : Heap) (id : Nat) (f : Table → Table) (hid : id < h.tables.size) (id' : Nat) :
    (h.modifyTable id f).table id' = if id' = id then f (h.table id) else h.table id' := by
  by_cases heq : id' = id
  · subst heq
    simp [modifyTable, table, hid, Array.getElem_modify]
  · simp [modifyTable, table, Array.getElem?_modify, heq, Ne.symm heq]

theorem modifyTable_congr (h : Heap) {id : Nat} {f g : Table → Table} (hfg : f (h.table id) = g (h.table id)) :
    h.modifyTable id f = h.modifyTable id g := by
  have : h.tables.modify id f = h.tables.modify id g := by
    refine Array.ext_getElem? fun i => ?_
    rw [Array.getElem?_modify, Array.getElem?_modify]
    split
    · rename_i heq
      subst heq
      by_cases hid : id < h.tables.size
      · have : h.table id = h.tables[id] := by simp [table, hid]
        simp [hid, ← this, hfg]
      · simp [hid]
    · rfl
  simp [modifyTable, this]

theorem modifyTable_modifyTable (h : Heap) (id : Nat) (f g : Table → Table) :
    (h.modifyTable id f).modifyTable id g = h.modifyTable id fun t => g (f t) := by
  have : (h.tables.modify id f).modify id g = h.tables.modify id fun t => g (f t) := by
    refine Array.ext_getElem? fun i => ?_
    simp only [Array.getElem?_modify]
    split <;> simp [Function.comp_def]
  simp [modifyTable, this]

theorem modifyTable_id (h : Heap) (id : Nat) : h.modifyTable id (fun t => t) = h := by
  have : h.tables.modify id (fun t => t) = h.tables := by
    refine Array.ext_getElem? fun i => ?_
    simp [Array.getElem?_modify]
  simp [modifyTable, this]

theorem modifyTable_newTable (h : Heap) (t : Table) (f : Table → Table) :
    (h.newTable t).2.modifyTable h.tables.size f = (h.newTable (f t)).2 := by
  have : (h.tables.push t).modify h.tables.size f = h.tables.push (f t) := by
    refine Array.ext_getElem? fun i => ?_
    simp only [Array.getElem?_modify, Array.getElem?_push]
    split <;> simp_all [eq_comm]
  simp [newTable, modifyTable, this]

end Heap

namespace Native

variable {h : Heap} {id : Nat}

theorem index_of_metatable_eq_none (hmeta : (h.table id).metatable = none) (k : Value) :
    index (.table id) k h = .done ((h.table id).getValue k) h := by
  rw [index, maxChain, indexFrom]
  simp only [Bind.bind, Native.bind, Native.read, hmeta]
  split
  · rename_i hnil
    rw [Value.eq_nil_of_isNil hnil]
    rfl
  · rfl

theorem setIndex_of_metatable_eq_none (hmeta : (h.table id).metatable = none) {k : Value} {key : Key}
    (hk : k.key? = some key) (v : Value) :
    setIndex (.table id) k v h = .done () (h.modifyTable id (·.set key v)) := by
  rw [setIndex, maxChain, setIndexFrom]
  simp only [Bind.bind, Native.bind, Native.read, hmeta, rawSet, hk]
  rfl

end Native

namespace Session

/-- The table of global variables. -/
def globalTable (s : Session) : Table := s.heap.table s.heap.globals

/-- The session with another table of global variables. -/
def withGlobals (s : Session) (t : Table) : Session :=
  { s with heap := s.heap.modifyTable s.heap.globals fun _ => t }

@[simp]
theorem globalTable_withGlobals (s : Session) (t : Table) : (s.withGlobals t).globalTable = t := by
  change (s.heap.modifyTable s.heap.globals fun _ => t).table s.heap.globals = t
  rw [Heap.table_modifyTable _ _ _ s.heap.globals_lt, if_pos rfl]

@[simp]
theorem withGlobals_withGlobals (s : Session) (t t' : Table) :
    (s.withGlobals t).withGlobals t' = s.withGlobals t' := by
  rw [withGlobals]
  change { s with heap := (s.heap.modifyTable s.heap.globals fun _ => t).modifyTable s.heap.globals fun _ => t' } = _
  rw [Heap.modifyTable_modifyTable]
  rfl

@[simp]
theorem withGlobals_globalTable (s : Session) : s.withGlobals s.globalTable = s := by
  rw [withGlobals, s.heap.modifyTable_congr (g := fun t => t) rfl, Heap.modifyTable_id]

/-- The script runs, and nothing but the table itself has a say in its global variables. -/
structure Plain (s : Session) : Prop where
  running : s.exit = none
  metatable : s.globalTable.metatable = none

theorem Plain.withGlobals {s : Session} (h : s.Plain) {t : Table} (ht : t.metatable = none) :
    (s.withGlobals t).Plain := ⟨h.running, by rw [globalTable_withGlobals, ht]⟩

theorem perform_of_done {s : Session} (running : s.exit = none) {p : Native (Array Value)} {values : Array Value}
    {h : Heap} (hp : p s.heap = .done values h) : s.perform p = (.ok values, { s with heap := h }) := by
  rw [perform, running, Machine.perform_of_done hp]
  simp only [Option.isSome_none, Bool.false_eq_true, if_false, finish]

/-- The key of a global variable. -/
def keyOf (name : String) : Key := .string name.toUTF8

theorem keyOf_inj {name name' : String} : keyOf name = keyOf name' ↔ name = name' := by
  rw [keyOf, keyOf, Key.string.injEq]
  exact String.toByteArray_inj

theorem setGlobal_eq {s : Session} (h : s.Plain) (name : String) (v : Value) :
    s.setGlobal name v = s.withGlobals (s.globalTable.set (keyOf name) v) := by
  have hkey : (Value.ofString name).key? = some (keyOf name) := rfl
  have hset := Native.setIndex_of_metatable_eq_none h.metatable hkey v
  have hdone : (do
      Native.setIndex (.table (← Native.read (·.globals))) (.ofString name) v
      return #[] : Native (Array Value)) s.heap =
      .done #[] (s.heap.modifyTable s.heap.globals (·.set (keyOf name) v)) := by
    simp only [Bind.bind, Native.bind, Native.read, hset]
    rfl
  rw [setGlobal, perform_of_done h.running hdone, withGlobals]
  rw [s.heap.modifyTable_congr (g := fun _ => s.globalTable.set (keyOf name) v) rfl]

theorem global_eq {s : Session} (h : s.Plain) (name : String) :
    s.global name = (.ok (s.globalTable.get (keyOf name)), s) := by
  have hindex := Native.index_of_metatable_eq_none h.metatable (.ofString name)
  have hdone : (do
      return #[← Native.index (.table (← Native.read (·.globals))) (.ofString name)] : Native (Array Value)) s.heap =
      .done #[s.globalTable.get (keyOf name)] s.heap := by
    simp only [Bind.bind, Native.bind, Native.read, hindex]
    rfl
  rw [global, perform_of_done h.running hdone]
  rfl

/-! What a script starts with. -/

theorem get_fields {entries : List (String × Value)} (distinct : (entries.map (·.1)).Nodup) {e : String × Value}
    (he : e ∈ entries) : (Surroundings.fields entries).get (keyOf e.1) = e.2 := by
  have hvalue : ∀ e' ∈ entries, Key.string e'.1.toUTF8 = keyOf e.1 → e'.2 = e.2 := fun e' he' hkey =>
    congrArg Prod.snd (List.inj_on_of_nodup_map distinct he' he (keyOf_inj.1 hkey))
  rw [Surroundings.fields, Table.get_foldl_set entries hvalue]
  exact if_pos (List.mem_map.2 ⟨e, he, rfl⟩)

/-- The global variables of a script that has not run yet. -/
def startEntries : List (String × Value) :=
  Surroundings.functions .base Builtin.baseFunctions ++ Surroundings.libraries ++ [("_VERSION", .ofString "Lua 5.4")]

theorem globalTable_start : start.globalTable = Surroundings.fields startEntries := rfl

theorem plain_start : start.Plain where
  running := rfl
  metatable := by
    rw [globalTable_start, Surroundings.fields, Table.metatable_foldl_set]
    rfl

theorem get_start {e : String × Value} (he : e ∈ startEntries) : start.globalTable.get (keyOf e.1) = e.2 := by
  have distinct : (startEntries.map (·.1)).Nodup := by decide +kernel
  exact get_fields distinct he

end Session

end Gauge.Script
