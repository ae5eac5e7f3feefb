import Gauge.Proofs.Except
import Gauge.Proofs.Rule.Isolation

/-!
The ways to copy a rule against each other: a copy that is made whatever becomes of it, one that is refused
where the code is, and a rule made of the name, the numbers and the code that are seen of the first. Once there
is code, all three run it on the numbers held now, so that they fare alike; before, both copies are the rule
itself over again.
-/

namespace Gauge.Rule

/-! Whether a rule has been given code. -/

theorem setCode_state_ne (r : Rule) (code : String) : (r.setCode code).2.state ≠ .unconfigured := by
  rw [setCode_eq]
  cases configure r.name r.globals code with
  | mk s fault => cases fault <;> simp [state, RuleStatus.state]

theorem perform_unconfigured_iff (r : Rule) (op : Operation) :
    (r.perform op).2.state = .unconfigured ↔ r.state = .unconfigured ∧ ∀ code, op ≠ .setCode code := by
  cases op with
  | setGlobals entries => simp [perform]
  | setCode code => simp [perform, setCode_state_ne]
  | evaluate args =>
      obtain ⟨result, status, heq, hstate⟩ := evaluate_eq r args
      have hstate' : ({ r with status := status } : Rule).state = r.state := hstate
      simp [perform, heq, hstate']

theorem after_unconfigured_iff (r : Rule) (ops : List Operation) :
    (r.after ops).state = .unconfigured ↔
      r.state = .unconfigured ∧ ∀ code, .setCode code ∉ ops := by
  induction ops generalizing r with
  | nil => simp [after]
  | cons op ops ih =>
      simp only [after, ih, perform_unconfigured_iff, List.mem_cons, not_or, forall_and, and_assoc,
        ne_comm (a := op)]

/-- A rule that has never been given code has a name and numbers, and nothing else. -/
theorem eq_of_unconfigured {name : String} {ops : List Operation}
    (h : ((new name).after ops).state = .unconfigured) :
    let r := (new name).after ops
    r = { new r.name with globals := r.globals } := by
  intro r
  have hcode : r.code = "" := by
    have judged : r.Judged (basis name ops) := after_judged (new name) ops ⟨rfl, rfl⟩
    cases hb : basis name ops with
    | none => exact (hb ▸ judged).2
    | some g =>
        rw [hb] at judged
        rcases judged with ⟨hs, -⟩ | ⟨hs, -⟩ <;> cases hs.symm.trans h
  have hstatus : r.status = .unconfigured := by
    have hstate : r.status.state = .unconfigured := h
    cases hs : r.status with
    | unconfigured => rfl
    | valid s | invalid s => rw [hs] at hstate; cases hstate
  obtain ⟨name, code, globals, status⟩ := r
  subst hcode hstatus
  rfl

/-! What the copies are. -/

/-- The rule that runs the code over again on the numbers held now. -/
def rerun (r : Rule) : Except RuleError Unit × Rule :=
  ({ new r.name with globals := r.globals } : Rule).setCode r.code

theorem ofParts_eq_rerun (r : Rule) :
    ofParts r.name r.globals.entries r.code = r.rerun.1.map fun _ => r.rerun.2 := by
  simp only [ofParts, prepare, setGlobals_new, rerun]
  split <;> rename_i heq <;> rw [heq] <;> rfl

theorem tryClone_of_unconfigured {r : Rule} (h : r.state = .unconfigured) :
    r.tryClone = .ok { new r.name with globals := r.globals } := by
  simp only [tryClone]
  cases hs : r.status with
  | unconfigured => rfl
  | valid s | invalid s => simp [state, RuleStatus.state, hs] at h

theorem tryClone_of_configured {r : Rule} (h : r.state ≠ .unconfigured) :
    r.tryClone = r.rerun.1.map fun _ => r.rerun.2 := by
  simp only [tryClone]
  cases hs : r.status with
  | unconfigured => exact absurd (by simp [state, RuleStatus.state, hs]) h
  | valid s | invalid s =>
      simp only [rerun]
      split <;> rename_i heq <;> rw [heq] <;> rfl

theorem rerun_valid_iff (r : Rule) :
    (∃ c, r.rerun.1.map (fun _ => r.rerun.2) = .ok c) ↔ r.rerun.2.state = .valid := by
  have hok : r.rerun.2.state = .valid ↔ r.rerun.1 = .ok () := setCode_valid_iff _ r.code
  rw [hok]
  constructor
  · rintro ⟨c, hc⟩
    obtain ⟨_, hx, -⟩ := Except.map_eq_ok_iff.mp hc
    exact hx
  · exact fun hx => ⟨r.rerun.2, Except.map_eq_ok_iff.mpr ⟨(), hx, rfl⟩⟩

/-- Copies of a rule that has been given code, and the rule made of its name, numbers and code: they are refused
together and for the same reason, or they are one and the same rule, of which nothing that is asked later tells
them apart. Copies of a rule that has not been given any are that rule again. -/
theorem copies_agree (name : String) (ops : List Operation) :
    let r := (new name).after ops
    let rebuilt := ofParts r.name r.globals.entries r.code
    ((∃ code, .setCode code ∈ ops) →
      ((∃ c, r.tryClone = .ok c) ↔ r.clone.state = .valid) ∧
      ((∃ c, rebuilt = .ok c) ↔ r.clone.state = .valid) ∧
      (∀ a b, r.tryClone = .ok a → rebuilt = .ok b → ∀ later,
        a.sights later = r.clone.sights later ∧ b.sights later = r.clone.sights later ∧
        a.after later = r.clone.after later ∧ b.after later = r.clone.after later) ∧
      (∀ e, r.tryClone = .error e ↔ rebuilt = .error e) ∧
      (∀ e, r.tryClone = .error e →
        r.clone.state = .invalid ∧ r.clone.code = r.code ∧ r.clone.globals = r.globals)) ∧
    ((∀ code, .setCode code ∉ ops) →
      r.clone.state = .unconfigured ∧ r.clone.globals = r.globals ∧
      ∃ c, r.tryClone = .ok c ∧ c.state = .unconfigured ∧ c.globals = r.globals ∧
        ∀ later, c.sights later = r.sights later ∧ r.clone.sights later = r.sights later ∧
          c.after later = r.after later ∧ r.clone.after later = r.after later) := by
  intro r rebuilt
  have unconfigured_iff : r.state = .unconfigured ↔ ∀ code, .setCode code ∉ ops := by
    rw [after_unconfigured_iff]
    exact and_iff_right rfl
  constructor
  · rintro ⟨code, given⟩
    have configured : r.state ≠ .unconfigured := fun h => unconfigured_iff.mp h code given
    have hclone : r.clone = r.rerun.2 := clone_of_configured configured
    have hrebuilt : rebuilt = r.rerun.1.map fun _ => r.rerun.2 := ofParts_eq_rerun r
    rw [hrebuilt, tryClone_of_configured configured, hclone]
    refine ⟨rerun_valid_iff r, rerun_valid_iff r, fun a b ha hb later => ?_, fun e => .rfl,
      fun e he => ⟨?_, setCode_code _ _, setCode_globals _ _⟩⟩
    · obtain ⟨_, -, rfl⟩ := Except.map_eq_ok_iff.mp ha
      obtain ⟨_, -, rfl⟩ := Except.map_eq_ok_iff.mp hb
      exact ⟨rfl, rfl, rfl, rfl⟩
    · exact (setCode_invalid_iff _ r.code).mpr ⟨e, Except.map_eq_error_iff.mp he⟩
  · intro never
    have unconfigured := unconfigured_iff.mpr never
    have hcopy : { new r.name with globals := r.globals } = r := (eq_of_unconfigured unconfigured).symm
    rw [clone_of_unconfigured unconfigured, tryClone_of_unconfigured unconfigured, hcopy]
    exact ⟨unconfigured, rfl, r, rfl, unconfigured, rfl, fun later => ⟨rfl, rfl, rfl, rfl⟩⟩

end Gauge.Rule
