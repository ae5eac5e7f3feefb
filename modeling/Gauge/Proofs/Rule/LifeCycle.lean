import Gauge.Proofs.Rule.History

/-!
The life of a rule as it is told by what it has been asked and what it has answered. The last code that it
was given and the answer to that decide its state; a session is there from the first code on; and an
error names the rule and the phase it belongs to, whichever operation gives it.
-/

namespace Gauge.Rule

/-- The session of a rule's script, if it has one. -/
def session? (r : Rule) : Option Script.Session :=
  match r.status with
  | .unconfigured => none
  | .valid s | .invalid s => some s

/-- An operation and the answer to it. -/
structure Step where
  operation : Operation
  answer : Answer

/-- The code that the rule was given in a step, and what was said to it. -/
def Step.code? : Step → Option (String × Except RuleError Unit)
  | ⟨.setCode code, .configured result⟩ => some (code, result)
  | _ => none

/-- The numbers that the rule was given in a step. -/
def Step.globals? : Step → Option (List (String × Float))
  | ⟨.setGlobals entries, _⟩ => some entries
  | _ => none

def steps (r : Rule) : List Operation → List Step
  | [] => []
  | op :: rest => ⟨op, (r.perform op).1⟩ :: (r.perform op).2.steps rest

def lastCode? (steps : List Step) : Option (String × Except RuleError Unit) :=
  steps.reverse.findSome? Step.code?

def lastGlobals? (steps : List Step) : Option (List (String × Float)) :=
  steps.reverse.findSome? Step.globals?

/-- What is seen of a rule when `last` is the code that it was given last, with the answer to that, and
`entries` are the numbers that it was given last. -/
structure ToldBy (r : Rule) (last : Option (String × Except RuleError Unit))
    (entries : List (String × Float)) : Prop where
  unconfigured_iff : r.state = .unconfigured ↔ last = none
  valid_iff : r.state = .valid ↔ ∃ code, last = some (code, .ok ())
  invalid_iff : r.state = .invalid ↔ ∃ code e, last = some (code, .error e)
  session_iff : r.session?.isSome ↔ last.isSome
  code_eq : r.code = (last.map (·.1)).getD ""
  globals_eq : r.globals = .ofList entries

theorem session?_isSome_iff (r : Rule) : r.session?.isSome ↔ r.state ≠ .unconfigured := by
  cases h : r.status <;> simp [session?, state, RuleStatus.state, h]

theorem toldBy_new (name : String) : (new name).ToldBy none [] := by
  constructor <;> simp [new, state, RuleStatus.state, session?, NameMap.ofList, NameMap.insertAll]

theorem ToldBy.congr {r r' : Rule} {last : Option (String × Except RuleError Unit)}
    {entries : List (String × Float)} (h : r.ToldBy last entries) (state : r'.state = r.state)
    (code : r'.code = r.code) {entries' : List (String × Float)}
    (globals : r'.globals = .ofList entries') : r'.ToldBy last entries' where
  unconfigured_iff := state ▸ h.unconfigured_iff
  valid_iff := state ▸ h.valid_iff
  invalid_iff := state ▸ h.invalid_iff
  session_iff := by rw [session?_isSome_iff, state, ← session?_isSome_iff, h.session_iff]
  code_eq := code.trans h.code_eq
  globals_eq := globals

theorem setCode_toldBy (r : Rule) (code : String) {entries : List (String × Float)}
    (globals : r.globals = .ofList entries) :
    (r.setCode code).2.ToldBy (some (code, (r.setCode code).1)) entries := by
  rw [setCode_eq]
  cases h : configure r.name r.globals code with
  | mk s fault =>
      cases fault <;> constructor <;> simp [state, RuleStatus.state, session?, globals]

theorem perform_toldBy {r : Rule} {last : Option (String × Except RuleError Unit)}
    {entries : List (String × Float)} (h : r.ToldBy last entries) (op : Operation) :
    (r.perform op).2.ToldBy ((Step.code? ⟨op, (r.perform op).1⟩).or last)
      ((Step.globals? ⟨op, (r.perform op).1⟩).getD entries) := by
  cases op with
  | setGlobals given => exact h.congr (setGlobals_state r given) rfl rfl
  | setCode code => exact setCode_toldBy r code h.globals_eq
  | evaluate args =>
      obtain ⟨result, status, heq, hstate⟩ := evaluate_eq r args
      simp only [perform, heq]
      exact @ToldBy.congr r { r with status := status } _ _ h hstate rfl _ h.globals_eq

/-- What was told before some operations is told on by those of them that give code or numbers. -/
theorem after_toldBy {r : Rule} {last : Option (String × Except RuleError Unit)}
    {entries : List (String × Float)} (h : r.ToldBy last entries) (ops : List Operation) :
    (r.after ops).ToldBy ((lastCode? (r.steps ops)).or last)
      ((lastGlobals? (r.steps ops)).getD entries) := by
  induction ops generalizing r last entries with
  | nil => exact h
  | cons op ops ih =>
      have := ih (perform_toldBy h op)
      simpa only [after, steps, lastCode?, lastGlobals?, List.reverse_cons, List.findSome?_append,
        List.findSome?_singleton, Option.or_assoc, Option.getD_or] using this

theorem setCode_valid_iff (r : Rule) (code : String) :
    (r.setCode code).2.state = .valid ↔ (r.setCode code).1 = .ok () := by
  rw [setCode_eq]
  cases configure r.name r.globals code with
  | mk s fault => cases fault <;> simp [state, RuleStatus.state]

/-! A rule of given parts. -/

theorem prepare_of_ok {name code : String} {entries : List (String × Float)} {r : Rule}
    (h : prepare name entries code = (.ok (), r)) :
    r.state = .valid ∧ r.name = name ∧ r.globals = .ofList entries ∧ r.code = code := by
  simp only [prepare] at h
  have hstate := (setCode_valid_iff ((new name).setGlobals entries) code).mpr (congrArg Prod.fst h)
  have hname := setCode_name ((new name).setGlobals entries) code
  have hglobals := setCode_globals ((new name).setGlobals entries) code
  have hcode := setCode_code ((new name).setGlobals entries) code
  rw [h] at hstate hname hglobals hcode
  exact ⟨hstate, hname, hglobals, hcode⟩

theorem prepare_of_error {name code : String} {entries : List (String × Float)} {e : RuleError}
    {r : Rule} (h : prepare name entries code = (.error e, r)) : r.state ≠ .valid := by
  simp only [prepare] at h
  intro hstate
  have hok := (setCode_valid_iff ((new name).setGlobals entries) code).mp (by rw [h]; exact hstate)
  rw [h] at hok
  cases hok

theorem ofParts_eq_ok_iff {name code : String} {entries : List (String × Float)} {r : Rule} :
    ofParts name entries code = .ok r ↔ prepare name entries code = (.ok (), r) := by
  simp only [ofParts]
  split <;> rename_i heq <;> simp [heq]

/-! Errors. -/

theorem configure_phase {name code : String} {g : Globals} {fault : RuleFault}
    (h : (configure name g code).2 = some fault) : fault.phase = .configuration := by
  simp only [configure] at h
  split at h
  · cases h
    rfl
  · split at h
    · cases h
      rfl
    · split at h
      · cases h
        rfl
      · cases h
        rfl
      · cases h

theorem numberOf_phase {v : Script.Value} {fault : RuleFault} (h : numberOf v = .error fault) :
    ∃ found, fault = .notANumber found := by
  cases v <;> cases h <;> exact ⟨_, rfl⟩

/-- A session that is evaluated does not say that the rule is not valid. -/
theorem evaluateIn_phase {s : Script.Session} {args : List Float} {fault : RuleFault}
    (h : (evaluateIn s args).1 = .error fault) :
    fault.phase = .evaluation ∧ fault ≠ .notValid := by
  simp only [evaluateIn] at h
  split at h
  · cases h
    exact ⟨rfl, nofun⟩
  · cases h
    exact ⟨rfl, nofun⟩
  · split at h
    · cases h
      exact ⟨rfl, nofun⟩
    · obtain ⟨found, rfl⟩ := numberOf_phase h
      exact ⟨rfl, nofun⟩

theorem setCode_error {r : Rule} {code : String} {e : RuleError}
    (h : (r.setCode code).1 = .error e) : e.phase = .configuration ∧ e.rule = r.name := by
  rw [setCode_eq] at h
  cases hf : (configure r.name r.globals code).2 with
  | none => simp [hf] at h
  | some fault =>
      simp only [hf, Except.error.injEq] at h
      subst h
      exact ⟨configure_phase hf, rfl⟩

theorem ofParts_error {name code : String} {entries : List (String × Float)} {e : RuleError}
    (h : ofParts name entries code = .error e) : e.phase = .configuration ∧ e.rule = name := by
  simp only [ofParts, prepare] at h
  split at h
  · cases h
  · rename_i e' r heq
    cases h
    exact setCode_error (congrArg Prod.fst heq)

theorem tryClone_error {r : Rule} {e : RuleError} (h : r.tryClone = .error e) :
    e.phase = .configuration ∧ e.rule = r.name := by
  simp only [tryClone] at h
  split at h
  · cases h
  · split at h
    · cases h
    · rename_i e' copy heq
      cases h
      exact setCode_error (congrArg Prod.fst heq)

theorem evaluate_error {r : Rule} {args : List Float} {e : RuleError}
    (h : (r.evaluate args).1 = .error e) :
    e.phase = .evaluation ∧ e.rule = r.name ∧ (e.fault = .notValid ↔ r.state ≠ .valid) := by
  simp only [evaluate] at h
  cases hs : r.status with
  | unconfigured | invalid s =>
      simp only [hs, Except.error.injEq] at h
      subst h
      exact ⟨rfl, rfl, by simp [error, state, RuleStatus.state, hs]⟩
  | valid s =>
      simp only [hs] at h
      cases hr : (evaluateIn s args).1 with
      | ok x => rw [hr] at h; cases h
      | error fault =>
          rw [hr] at h
          obtain rfl := Except.error.inj h
          obtain ⟨hphase, hne⟩ := evaluateIn_phase hr
          exact ⟨hphase, rfl, by simp [error, state, RuleStatus.state, hs, hne]⟩

theorem evaluate_of_not_valid {r : Rule} (h : r.state ≠ .valid) (args : List Float) :
    r.evaluate args = (.error ⟨r.name, .notValid⟩, r) := by
  simp only [evaluate]
  cases hs : r.status with
  | unconfigured | invalid s => rfl
  | valid s => exact absurd (by simp [state, RuleStatus.state, hs]) h

/-- The life of a rule from its making on. Its state, its code and its session are told by the last code
that it was given and the answer to that, its numbers by the last that it was given; new numbers and
evaluations leave the state as it is. It refuses to be evaluated exactly when it is not valid, and each
error has the phase of the operation that gives it and the name of the rule. -/
theorem lifeCycle (name : String) (ops : List Operation) :
    let r := (new name).after ops
    let told := (new name).steps ops
    r.name = name ∧ r.ToldBy (lastCode? told) ((lastGlobals? told).getD []) ∧
      (∀ entries, (r.setGlobals entries).state = r.state) ∧
      (∀ args, (r.evaluate args).2.state = r.state) ∧
      (∀ args, (r.evaluate args).1 = .error ⟨name, .notValid⟩ ↔ r.state ≠ .valid) ∧
      (∀ args e, (r.evaluate args).1 = .error e → e.phase = .evaluation ∧ e.rule = name) ∧
      (∀ code e, (r.setCode code).1 = .error e → e.phase = .configuration ∧ e.rule = name) ∧
      (∀ e, r.tryClone = .error e → e.phase = .configuration ∧ e.rule = name) ∧
      ∀ entries code e, ofParts name entries code = .error e →
        e.phase = .configuration ∧ e.rule = name := by
  intro r told
  have hname : r.name = name := after_name (new name) ops
  have htold := after_toldBy (toldBy_new name) ops
  rw [Option.or_none] at htold
  refine ⟨hname, htold, setGlobals_state r, fun args => ?_, fun args => ⟨fun h => ?_, fun h => ?_⟩,
    fun args e h => ?_, fun code e h => ?_, fun e h => ?_, fun entries code e h => ofParts_error h⟩
  · obtain ⟨result, status, heq, hstate⟩ := evaluate_eq r args
    rw [heq]
    exact hstate
  · exact (evaluate_error h).2.2.mp rfl
  · rw [evaluate_of_not_valid h args, hname]
  · obtain ⟨hphase, hrule, -⟩ := evaluate_error h
    exact ⟨hphase, hrule.trans hname⟩
  · exact hname ▸ setCode_error h
  · exact hname ▸ tryClone_error h

end Gauge.Rule
