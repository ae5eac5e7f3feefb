/-!
Variables of the environment: names with values, of which the first of a name counts.
-/

namespace Gauge

structure Environment where
  bindings : List (String × String)

namespace Environment

def empty : Environment := ⟨[]⟩

def get? (e : Environment) (name : String) : Option String := e.bindings.lookup name

/-- The value of a variable, if it has one that is not empty. -/
def getFilled? (e : Environment) (name : String) : Option String :=
  (e.get? name).filter (· != "")

def set (e : Environment) (name value : String) : Environment :=
  ⟨(name, value) :: e.bindings⟩

/-- Gives a variable a value if it has none. -/
def setDefault (e : Environment) (name value : String) : Environment :=
  match e.get? name with
  | some _ => e
  | none => e.set name value

/-- The environment of assignments made one after another. -/
def ofList (assignments : List (String × String)) : Environment :=
  assignments.foldl (fun e a => e.set a.1 a.2) empty

theorem get?_set (e : Environment) (name value other : String) :
    (e.set name value).get? other = if other = name then some value else e.get? other := by
  simp only [set, get?, List.lookup_cons]
  by_cases h : other = name
  · simp [h]
  · simp [h, beq_eq_false_iff_ne.mpr h]

end Environment

end Gauge
