import Gauge.Rule
import Gauge.Proofs.NameMap

/-!
What happens to a rule from its making on: operations, their answers, and what is seen of the rule after
each of them. Giving a rule its code starts from its name, its numbers and that code alone, so that
nothing of the time before shows afterwards.
-/

namespace Gauge.Rule

inductive Operation where
  | setGlobals (entries : List (String × Float))
  | setCode (code : String)
  | evaluate (args : List Float)

inductive Answer where
  | done
  | configured (result : Except RuleError Unit)
  | evaluated (result : Except RuleError Float)

def perform (r : Rule) : Operation → Answer × Rule
  | .setGlobals entries => (.done, r.setGlobals entries)
  | .setCode code =>
    let (result, r) := r.setCode code
    (.configured result, r)
  | .evaluate args =>
    let (result, r) := r.evaluate args
    (.evaluated result, r)

/-- The rule that some operations leave. -/
def after (r : Rule) : List Operation → Rule
  | [] => r
  | op :: rest => (r.perform op).2.after rest

/-- What an operation answers, and what is seen of the rule then. -/
structure Sight where
  answer : Answer
  state : RuleState
  code : String
  globals : Globals

def sights (r : Rule) : List Operation → List Sight
  | [] => []
  | op :: rest =>
    let (answer, r) := r.perform op
    ⟨answer, r.state, r.code, r.globals⟩ :: sights r rest

/-! What one operation does. -/

@[simp]
theorem setGlobals_state (r : Rule) (entries : List (String × Float)) :
    (r.setGlobals entries).state = r.state := by
  cases h : r.status <;> simp only [setGlobals, state, RuleStatus.mapSession, RuleStatus.state, h]

/-- All that giving a rule its code depends on, and all that it changes. -/
theorem setCode_eq (r : Rule) (code : String) :
    r.setCode code =
      ((match (configure r.name r.globals code).2 with
        | none => .ok ()
        | some fault => .error ⟨r.name, fault⟩),
       ⟨r.name, code, r.globals,
        match configure r.name r.globals code with
        | (s, none) => .valid s
        | (s, some _) => .invalid s⟩) := by
  simp only [setCode]
  cases configure r.name r.globals code with
  | mk s fault => cases fault <;> rfl

@[simp]
theorem setCode_name (r : Rule) (code : String) : (r.setCode code).2.name = r.name := by
  rw [setCode_eq]

@[simp]
theorem setCode_code (r : Rule) (code : String) : (r.setCode code).2.code = code := by
  rw [setCode_eq]

@[simp]
theorem setCode_globals (r : Rule) (code : String) :
    (r.setCode code).2.globals = r.globals := by
  rw [setCode_eq]

theorem evaluate_eq (r : Rule) (args : List Float) :
    ∃ result status, r.evaluate args = (result, { r with status := status }) ∧
      status.state = r.state := by
  simp only [evaluate]
  cases h : r.status with
  | unconfigured | invalid s => exact ⟨_, r.status, rfl, rfl⟩
  | valid s => exact ⟨_, .valid (evaluateIn s args).2, rfl, by simp only [state, h, RuleStatus.state]⟩

theorem perform_name (r : Rule) (op : Operation) : (r.perform op).2.name = r.name := by
  cases op with
  | setGlobals entries => rfl
  | setCode code => exact setCode_name r code
  | evaluate args =>
      obtain ⟨result, status, h, _⟩ := evaluate_eq r args
      simp only [perform, h]

theorem after_name (r : Rule) (ops : List Operation) : (r.after ops).name = r.name := by
  induction ops generalizing r with
  | nil => rfl
  | cons op ops ih => exact (ih _).trans (perform_name r op)

/-! Starting afresh. -/

theorem setCode_congr {r r' : Rule} (name : r.name = r'.name) (globals : r.globals = r'.globals)
    (code : String) : r.setCode code = r'.setCode code := by
  rw [setCode_eq, setCode_eq, name, globals]

/-- The rule that code is given to needs no more of its past than the numbers it holds: a new rule that
has been given the same numbers answers the same from there on, and becomes the same rule. -/
theorem sights_setCode_after (name : String) (past : List Operation) (code : String)
    (rest : List Operation) :
    let held := (new name).after past
    let fresh := (new name).setGlobals held.globals.entries
    held.sights (.setCode code :: rest) = fresh.sights (.setCode code :: rest) ∧
      held.after (.setCode code :: rest) = fresh.after (.setCode code :: rest) := by
  intro held fresh
  have hname : held.name = fresh.name := after_name (new name) past
  have hglobals : held.globals = fresh.globals := (NameMap.ofList_entries held.globals).symm
  have same : held.perform (.setCode code) = fresh.perform (.setCode code) := by
    simp only [perform, setCode_congr hname hglobals code]
  simp only [sights, after, same, and_self]

end Gauge.Rule
