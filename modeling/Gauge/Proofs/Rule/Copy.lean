import Gauge.Proofs.Rule.History

/-!
Copies of rules. A copy runs the code again on the numbers that the rule holds now, whereas the rule was
judged by the numbers that it held when it got the code. The two agree about their state exactly when the
code fares alike on both.
-/

namespace Gauge.Rule

/-- The code runs on these numbers and leaves a function `main`. -/
def Accepts (name code : String) (g : Globals) : Prop := (configure name g code).2 = none

/-- The numbers that a rule held when it last got code within some operations, if it did; before them
they were `last`. -/
def basisFrom (r : Rule) (last : Option Globals) : List Operation → Option Globals
  | [] => last
  | op :: rest =>
    (r.perform op).2.basisFrom
      (match op with
        | .setCode _ => some r.globals
        | _ => last)
      rest

/-- The numbers by which the state of a rule was decided, if anything has decided it. -/
def basis (name : String) (ops : List Operation) : Option Globals := (new name).basisFrom none ops

/-- The state of a rule is what its code makes of the numbers `last`. -/
def Judged (r : Rule) : Option Globals → Prop
  | none => r.state = .unconfigured ∧ r.code = ""
  | some g => (r.state = .valid ∧ Accepts r.name r.code g) ∨
      (r.state = .invalid ∧ ¬ Accepts r.name r.code g)

theorem setCode_judged (r : Rule) (code : String) :
    (r.setCode code).2.Judged (some r.globals) := by
  rw [setCode_eq]
  simp only [Judged, Accepts]
  cases configure r.name r.globals code with
  | mk s fault =>
      cases fault with
      | none => exact .inl ⟨by simp only [state, RuleStatus.state], rfl⟩
      | some fault => exact .inr ⟨by simp only [state, RuleStatus.state], by simp⟩

theorem Judged.congr {r r' : Rule} {last : Option Globals} (h : r.Judged last)
    (name : r'.name = r.name) (code : r'.code = r.code) (state : r'.state = r.state) :
    r'.Judged last := by
  cases last with
  | none => exact ⟨state.trans h.1, code.trans h.2⟩
  | some g => simpa only [Judged, name, code, state] using h

theorem perform_judged (r : Rule) (op : Operation) {last : Option Globals} (h : r.Judged last) :
    (r.perform op).2.Judged
      (match op with
        | .setCode _ => some r.globals
        | _ => last) := by
  cases op with
  | setGlobals entries =>
      exact h.congr rfl rfl (setGlobals_state r entries)
  | setCode code => exact setCode_judged r code
  | evaluate args =>
      obtain ⟨result, status, heq, hstate⟩ := evaluate_eq r args
      simp only [perform, heq]
      exact h.congr rfl rfl hstate

theorem after_judged (r : Rule) (ops : List Operation) {last : Option Globals}
    (h : r.Judged last) : (r.after ops).Judged (r.basisFrom last ops) := by
  induction ops generalizing r last with
  | nil => exact h
  | cons op ops ih => exact ih _ (perform_judged r op h)

/-! The copy. -/

theorem clone_of_unconfigured {r : Rule} (h : r.state = .unconfigured) :
    r.clone = { new r.name with globals := r.globals } := by
  simp only [clone]
  cases hs : r.status with
  | unconfigured => rfl
  | valid s | invalid s => simp [state, RuleStatus.state, hs] at h

theorem clone_of_configured {r : Rule} (h : r.state ≠ .unconfigured) :
    r.clone = ({ new r.name with globals := r.globals }.setCode r.code).2 := by
  simp only [clone]
  cases hs : r.status with
  | unconfigured => exact absurd (by simp [state, RuleStatus.state, hs]) h
  | valid s | invalid s => rfl

theorem clone_name (r : Rule) : r.clone.name = r.name := by
  by_cases h : r.state = .unconfigured
  · rw [clone_of_unconfigured h]; rfl
  · rw [clone_of_configured h, setCode_name]; rfl

theorem clone_globals (r : Rule) : r.clone.globals = r.globals := by
  by_cases h : r.state = .unconfigured
  · rw [clone_of_unconfigured h]
  · rw [clone_of_configured h, setCode_globals]

theorem clone_code {r : Rule} (h : r.state ≠ .unconfigured) : r.clone.code = r.code := by
  rw [clone_of_configured h, setCode_code]

theorem clone_judged {r : Rule} (h : r.state ≠ .unconfigured) :
    r.clone.Judged (some r.globals) := by
  rw [clone_of_configured h]
  exact setCode_judged _ r.code

/-- A copy has the name, the code and the numbers of the rule. It is in the same state as the rule
exactly when the code fares on the numbers held now as it did on those held when the code was given. -/
theorem clone_state_eq_iff (name : String) (ops : List Operation) :
    let r := (new name).after ops
    r.clone.name = r.name ∧ r.clone.code = r.code ∧ r.clone.globals = r.globals ∧
      (r.clone.state = r.state ↔
        ∀ g, basis name ops = some g → (Accepts name r.code g ↔ Accepts name r.code r.globals)) := by
  intro r
  have hname : r.name = name := after_name (new name) ops
  have judged : r.Judged (basis name ops) := after_judged (new name) ops ⟨rfl, rfl⟩
  refine ⟨clone_name r, ?_, clone_globals r, ?_⟩
  · cases hb : basis name ops with
    | none =>
        rw [hb] at judged
        rw [clone_of_unconfigured judged.1, judged.2]
        rfl
    | some g => exact clone_code (by rw [hb] at judged; rcases judged with h | h <;> simp [h.1])
  · cases hb : basis name ops with
    | none =>
        rw [hb] at judged
        simp only [clone_of_unconfigured judged.1, judged.1, reduceCtorEq, false_implies,
          implies_true, iff_true]
        rfl
    | some g =>
        rw [hb] at judged
        have configured : r.state ≠ .unconfigured := by
          rcases judged with h | h <;> simp [h.1]
        have copied := clone_judged configured
        simp only [Judged, clone_name, clone_code configured, hname] at judged copied
        simp only [Option.some.injEq, forall_eq']
        rcases judged with ⟨hs, ha⟩ | ⟨hs, ha⟩ <;> rcases copied with ⟨hs', ha'⟩ | ⟨hs', ha'⟩ <;>
          simp [hs, hs', ha, ha']

end Gauge.Rule
