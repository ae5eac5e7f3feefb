import Gauge.Proofs.Rule.Globals
import Gauge.RuleDocument

/-!
Numbers that are replaced or added before a document's rule is made. Only the last value of each name matters:
the order in which names are given, and what was given for a name before, leave no trace, neither in a rule that
is made nor in a script that is already running and sees its variables being set.
-/

namespace Gauge.RuleDocument

open Rule (lastGiven get?_insertAll get?_ofList)

/-- The document with other numbers. -/
def withGlobals (d : RuleDocument) (g : Globals) : RuleDocument := { d with globals := g }

/-- The numbers `g` are the numbers `old` with the last values of some entries put over them. -/
def IsOverridden (old : Globals) (entries : List (String × Float)) (g : Globals) : Prop :=
  ∀ name, g.get? name = (lastGiven entries name).or (old.get? name)

theorem isOverridden_insertAll (old : Globals) (entries : List (String × Float)) :
    IsOverridden old entries (old.insertAll entries) := get?_insertAll old entries

section

variable {old g : Globals} {o o' : List (String × Float)}

theorem IsOverridden.eq_insertAll (h : IsOverridden old o g) : g = old.insertAll o :=
  NameMap.ext_get? fun name => (h name).trans (get?_insertAll old o name).symm

theorem insertAll_congr (same : ∀ name, lastGiven o name = lastGiven o' name) (old : Globals) :
    old.insertAll o = old.insertAll o' :=
  IsOverridden.eq_insertAll fun name => same name ▸ get?_insertAll old o name

theorem insertAll_append (old : Globals) (o o' : List (String × Float)) :
    (old.insertAll o).insertAll o' = old.insertAll (o ++ o') := List.foldl_append.symm

end

/-- The rule of a document with overrides is that of the document with the overridden numbers. -/
theorem toRuleWith_eq_toRule {d : RuleDocument} {o : List (String × Float)} {g : Globals}
    (h : IsOverridden d.globals o g) : d.toRuleWith o = (d.withGlobals g).toRule := by
  rw [h.eq_insertAll]
  rfl

end Gauge.RuleDocument
