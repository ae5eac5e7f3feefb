import Gauge.Proofs.NameMap
import Gauge.Proofs.Rule.LifeCycle
import Gauge.Proofs.Script.Session

/-!
What becomes of a running script when a rule's numbers are replaced. The names that are no longer given lose their
values, those that are given have the new ones, and nothing else of the script is touched.
-/

namespace Gauge

namespace Script.Session

/-- Stores values under names, one after another. -/
def assign (t : Table) (values : List (String × Value)) : Table :=
  values.foldl (fun t e => t.set (keyOf e.1) e.2) t

theorem assign_cons (t : Table) (e : String × Value) (values : List (String × Value)) :
    assign t (e :: values) = assign (t.set (keyOf e.1) e.2) values := rfl

theorem metatable_assign (t : Table) (values : List (String × Value)) :
    (assign t values).metatable = t.metatable :=
  Table.metatable_foldl_set values _ _ t

theorem get_assign_of_forall_ne {k : Key} (hk : ∀ name, k ≠ keyOf name) (t : Table) (values : List (String × Value)) :
    (assign t values).get k = t.get k := by
  rw [assign, Table.get_foldl_set (v := .nil) values fun e _ he => absurd he.symm (hk e.1)]
  refine if_neg fun hmem => ?_
  obtain ⟨e, -, he⟩ := List.mem_map.1 hmem
  exact hk e.1 he.symm

/-- Where a name comes more than once it is given the same value each time. -/
theorem get_assign {values : List (String × Value)} {value : String → Value} (h : ∀ e ∈ values, e.2 = value e.1)
    (t : Table) (name : String) :
    (assign t values).get (keyOf name) = if name ∈ values.map (·.1) then value name else t.get (keyOf name) := by
  have hvalue : ∀ e ∈ values, keyOf e.1 = keyOf name → e.2 = value name :=
    fun e he hname => (h e he).trans (congrArg value (keyOf_inj.1 hname))
  have hmem : keyOf name ∈ values.map (fun e => keyOf e.1) ↔ name ∈ values.map (·.1) := by
    simp only [List.mem_map, keyOf_inj]
  rw [assign, Table.get_foldl_set values hvalue]
  simp only [hmem]

theorem assign_eq_self {t : Table} {values : List (String × Value)}
    (h : ∀ e ∈ values, t.get (keyOf e.1) = e.2) : assign t values = t := by
  induction values with
  | nil => rfl
  | cons e values ih =>
      rw [assign_cons, ← h e List.mem_cons_self, Table.set_get]
      exact ih fun e' he' => h e' (List.mem_cons_of_mem e he')

theorem foldl_setGlobal {s : Session} (h : s.Plain) (values : List (String × Value)) :
    values.foldl (fun s e => s.setGlobal e.1 e.2) s = s.withGlobals (assign s.globalTable values) := by
  induction values generalizing s with
  | nil => exact s.withGlobals_globalTable.symm
  | cons e values ih =>
      rw [List.foldl_cons, setGlobal_eq h, ih (h.withGlobals (by rw [Table.metatable_set, h.metatable])),
        withGlobals_withGlobals, globalTable_withGlobals, assign_cons]

end Script.Session

namespace Rule

open Script (Session Value)
open Script.Session (keyOf assign)

/-- The number that is given last for a name. -/
def lastGiven (entries : List (String × Float)) (name : String) : Option Float :=
  (entries.reverse.find? (·.1 == name)).map (·.2)

theorem lastGiven_cons (e : String × Float) (entries : List (String × Float)) (name : String) :
    lastGiven (e :: entries) name = (lastGiven entries name).or (if e.1 = name then some e.2 else none) := by
  simp only [lastGiven, List.reverse_cons, List.find?_append, List.find?_singleton, beq_iff_eq]
  cases List.find? (·.1 == name) entries.reverse <;> by_cases hname : e.1 = name <;> simp [hname]

theorem get?_insertAll (m : Globals) (entries : List (String × Float)) (name : String) :
    (m.insertAll entries).get? name = (lastGiven entries name).or (m.get? name) := by
  induction entries generalizing m with
  | nil => rfl
  | cons e entries ih =>
      change ((m.insert e.1 e.2).insertAll entries).get? name = _
      rw [ih, NameMap.get?_insert, lastGiven_cons, Option.or_assoc]
      split <;> rfl

theorem get?_ofList (entries : List (String × Float)) (name : String) :
    (NameMap.ofList entries).get? name = lastGiven entries name := by
  rw [NameMap.ofList, get?_insertAll, NameMap.get?]
  simp [NameMap.empty]

/-- What is stored in place of the numbers `old` to have the numbers `g`: nil under the names that are gone. -/
def replacements (old g : Globals) : List (String × Value) :=
  ((old.names.filter fun n => (g.get? n).isNone).map fun n => (n, .nil)) ++ g.entries.map fun e => (e.1, .float e.2)

/-- The value under a name that has a number, or has had one. -/
def valueIn (g : Globals) (name : String) : Value := ((g.get? name).map Value.float).getD .nil

theorem value_of_mem_replacements {old g : Globals} {e : String × Value} (h : e ∈ replacements old g) :
    e.2 = valueIn g e.1 := by
  rcases List.mem_append.1 h with h | h
  · obtain ⟨n, hn, rfl⟩ := List.mem_map.1 h
    have hnone : g.get? n = none := by simpa using (List.mem_filter.1 hn).2
    simp [valueIn, hnone]
  · obtain ⟨e, he, rfl⟩ := List.mem_map.1 h
    simp [valueIn, (g.mem_entries_iff e).1 he]

theorem mem_names_replacements {old g : Globals} {name : String} :
    name ∈ (replacements old g).map (·.1) ↔ name ∈ old.names ∨ (g.get? name).isSome := by
  rw [← g.mem_names_iff]
  simp only [replacements, List.map_append, List.map_map, Function.comp_def, List.map_id', List.mem_append,
    List.mem_filter, Option.isNone_iff_eq_none]
  change (name ∈ old.names ∧ g.get? name = none) ∨ name ∈ g.names ↔ name ∈ old.names ∨ name ∈ g.names
  have := g.mem_names_iff name
  cases hg : g.get? name <;> simp_all

theorem get_assign_replacements (t : Script.Table) (old g : Globals) (name : String) :
    (assign t (replacements old g)).get (keyOf name) =
      if name ∈ old.names ∨ (g.get? name).isSome then valueIn g name else t.get (keyOf name) := by
  rw [Script.Session.get_assign fun e he => value_of_mem_replacements he]
  simp only [mem_names_replacements]

theorem pushGlobals_eq {s : Session} (h : s.Plain) (g : Globals) :
    pushGlobals g s = s.withGlobals (assign s.globalTable (g.entries.map fun e => (e.1, .float e.2))) := by
  rw [← Script.Session.foldl_setGlobal h, List.foldl_map]
  rfl

theorem push_clear_eq {s : Session} (h : s.Plain) (old g : Globals) :
    pushGlobals g (clearGlobals old g s) = s.withGlobals (assign s.globalTable (replacements old g)) := by
  rw [← Script.Session.foldl_setGlobal h, replacements, List.foldl_append, List.foldl_map, List.foldl_map]
  rfl

theorem session?_setGlobals {r : Rule} {s : Session} (hs : r.session? = some s) (h : s.Plain)
    (entries : List (String × Float)) :
    (r.setGlobals entries).session? =
      some (s.withGlobals (assign s.globalTable (replacements r.globals (.ofList entries)))) := by
  rw [← push_clear_eq h]
  cases hr : r.status <;> simp_all [session?, setGlobals, RuleStatus.mapSession]

/-- A rule that has the numbers already, and whose script has them too, stays as it is. -/
theorem setGlobals_eq_self {r : Rule} {s : Session} (hs : r.session? = some s) (h : s.Plain)
    {entries : List (String × Float)} (hglobals : r.globals = .ofList entries)
    (hvalues : ∀ e ∈ replacements r.globals r.globals, s.globalTable.get (keyOf e.1) = e.2) :
    r.setGlobals entries = r := by
  have hsession : pushGlobals (.ofList entries) (clearGlobals r.globals (.ofList entries) s) = s := by
    rw [push_clear_eq h, ← hglobals, Script.Session.assign_eq_self hvalues, Script.Session.withGlobals_globalTable]
  obtain ⟨name, code, g, status⟩ := r
  subst hglobals
  cases status <;> simp_all [session?, setGlobals, RuleStatus.mapSession]

end Rule

end Gauge
