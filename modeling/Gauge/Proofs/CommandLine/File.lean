import Gauge.Proofs.CommandLine.Arguments
import Gauge.Proofs.Loader.Build
import Gauge.Proofs.Rule.Transcript
import Gauge.Proofs.Numeral.Literal

/-!
A rule out of a file on the command line, and the same rule in the library. The command runs the code
first on the document's own numbers, to see whether the document is in order, and only then on the numbers
as the arguments override them. So it prints what the library answers exactly when the document is in order
by itself as well.
-/

namespace Gauge.CommandLine

/-- The settings of a run. -/
def settings (t : FileTree) (e : Environment) : Config :=
  .ofEnvironment <|
    match t.read environmentFile with
    | .ok text => e.load text
    | .error _ => e

theorem run_of_accepted {arguments : List String} {o : Options}
    (accepted : Options.ofArguments arguments = .ok o) (t : FileTree) (e : Environment) :
    run t e arguments = execute t (settings t e) o := by
  simp only [run, accepted]
  rfl

theorem run_of_refused {a b : List String} {h : Halt} (ha : Options.ofArguments a = .error h)
    (hb : Options.ofArguments b = .error h) (t : FileTree) (e : Environment) :
    run t e a = run t e b := by
  simp only [run, ha, hb]

theorem finish_of_silent {transcript : Script.Transcript} (running : transcript.exit = none)
    (silent : transcript.streams.output = ByteArray.empty) (line : String) :
    finish transcript (.ok line) = ⟨0, (line ++ "\n").toUTF8, transcript.streams.complaints⟩ := by
  have hempty (i j : Nat) : ByteArray.empty.extract i j = ByteArray.empty := by
    apply ByteArray.ext
    simp
  simp [finish, running, silent, hempty]

theorem finish_error_of_silent {transcript : Script.Transcript}
    (silent : transcript.streams.output = ByteArray.empty) (f : Failure) (line : String) :
    ¬ ((finish transcript (.error f)).exitCode = 0 ∧
      (finish transcript (.error f)).output = (line ++ "\n").toUTF8) := by
  rintro ⟨hcode, hline⟩
  cases hexit : transcript.exit with
  | none => simp [finish, hexit] at hcode
  | some code =>
      have hsize := congrArg ByteArray.size hline
      have hbreak : "\n".utf8ByteSize = 1 := rfl
      simp [finish, hexit, silent, hbreak] at hsize

/-- What a run comes to once the document is found and scripts have written something. -/
def conclude (d : RuleDocument) (o : Options) (before : Script.Transcript) : Outcome :=
  finish (before.append (evaluate d o).2) ((evaluate d o).1.map fun e => report o e.1 e.2)

theorem execute_of_found {t : FileTree} {c : Config} {o : Options} {d : RuleDocument}
    {before : Script.Transcript} (found : findDocument t c o = (.ok d, before)) :
    execute t c o = conclude d o before := by
  simp only [execute, found]
  rfl

/-! What the rule is asked, and what it answers. -/

theorem evaluate_eq_ok_iff {d : RuleDocument} {o : Options} {name : String} {x : Float} :
    (evaluate d o).1 = .ok (name, x) ↔
      name = d.id ∧ ∃ r, d.toRuleWith o.globals = .ok r ∧ (r.evaluate o.values).1 = .ok x := by
  simp only [evaluate, RuleDocument.toRuleWith_eq_ok_iff]
  cases hp : d.prepare o.globals with
  | mk result r =>
      cases result with
      | error e => simp
      | ok u =>
          have hname : r.name = d.id := (Rule.prepare_of_ok hp).2.1
          have hafter : (r.evaluate o.values).2.name = r.name := by
            obtain ⟨result, status, heq, -⟩ := Rule.evaluate_eq r o.values
            rw [heq]
          cases hr : (r.evaluate o.values).1 with
          | error e => simp [hr, Except.map, Except.mapError_error]
          | ok y => simp [hr, Except.map, Except.mapError_ok, hafter, hname, eq_comm]

/-- What the script writes is what a rule writes that is prepared and then evaluated, valid or not. -/
theorem evaluate_transcript (d : RuleDocument) (o : Options) :
    (evaluate d o).2 = ((d.prepare o.globals).2.evaluate o.values).2.transcript := by
  simp only [evaluate]
  cases hp : d.prepare o.globals with
  | mk result r =>
      cases result with
      | ok u => rfl
      | error e => rw [Rule.evaluate_of_not_valid (Rule.prepare_of_error hp)]

theorem exit_of_evaluate {d : RuleDocument} {o : Options} {answer : String × Float}
    (h : (evaluate d o).1 = .ok answer) : (evaluate d o).2.exit = none := by
  obtain ⟨name, x⟩ := answer
  obtain ⟨-, r, hr, hx⟩ := evaluate_eq_ok_iff.mp h
  rw [evaluate_transcript, RuleDocument.toRuleWith_eq_ok_iff.mp hr]
  exact Rule.exit_of_evaluate hx

theorem conclude_prints_iff {d : RuleDocument} {o : Options} (plain : o.json = false)
    {before : Script.Transcript} (running : before.exit = none)
    (silent_before : before.streams.output = ByteArray.empty)
    (silent : (evaluate d o).2.streams.output = ByteArray.empty) (x : Float) :
    ((conclude d o before).exitCode = 0 ∧
      (conclude d o before).output = (NumeralStyle.plain.write x ++ "\n").toUTF8) ↔
      ∃ r, d.toRuleWith o.globals = .ok r ∧ (r.evaluate o.values).1 = .ok x := by
  have hanswer := @evaluate_eq_ok_iff d o d.id
  have hsilent : (before.append (evaluate d o).2).streams.output = ByteArray.empty := by
    simp [Script.Transcript.output_append running, silent_before, silent]
  simp only [conclude]
  cases hr : (evaluate d o).1 with
  | error f =>
      simp only [hr, reduceCtorEq, true_and, false_iff] at hanswer
      exact iff_of_false (finish_error_of_silent hsilent f _) hanswer
  | ok answer =>
      have hexit : (before.append (evaluate d o).2).exit = none := by
        simp [running, exit_of_evaluate hr]
      obtain ⟨name, y⟩ := answer
      obtain ⟨rfl, -⟩ := evaluate_eq_ok_iff.mp hr
      simp only [hr, Except.ok.injEq, Prod.mk.injEq, true_and] at hanswer
      have hprinted : (NumeralStyle.plain.write y ++ "\n").toUTF8 =
          (NumeralStyle.plain.write x ++ "\n").toUTF8 ↔ y = x := by
        simp only [String.toUTF8, String.toByteArray_inj, String.append_left_inj,
          NumeralStyle.write_plain_inj]
      simp only [Except.map, finish_of_silent hexit hsilent, report, plain, Bool.false_eq_true,
        if_false, hprinted, true_and]
      exact hanswer

/-! The document in the file. -/

theorem findDocument_file {t : FileTree} {c : Config} {o : Options} {path : String}
    (file : o.file = some path) :
    findDocument t c o =
      ((RuleDocument.load t path).1.mapError (.document path), (RuleDocument.load t path).2) := by
  simp only [findDocument, file]

theorem findDocument_loaded {t : FileTree} {c : Config} {o : Options} {path : String}
    (file : o.file = some path) {d : RuleDocument} {transcript : Script.Transcript}
    (loaded : RuleDocument.load t path = (.ok d, transcript)) :
    findDocument t c o = (.ok d, transcript) := by
  rw [findDocument_file file, loaded]
  rfl

theorem path_ne_of_load {t : FileTree} {path : String} {d : RuleDocument} {transcript : Script.Transcript}
    (h : RuleDocument.load t path = (.ok d, transcript)) : path ≠ "" := by
  rintro rfl
  cases h

/-- A document that is not in order by itself is refused, whatever the arguments say of its numbers. -/
theorem execute_of_invalid {t : FileTree} {c : Config} {o : Options} {path text : String}
    {d : RuleDocument} (file : o.file = some path) (read : t.read path = .ok text)
    (parsed : RuleDocument.ofYaml text = .ok d) (kind : d.kind = RuleDocument.metricRule)
    (id : d.id ≠ "") {e : RuleError} {r : Rule} (invalid : d.prepare [] = (.error e, r)) :
    execute t c o = finish r.transcript (.error (.document path (.rule e))) := by
  simp only [execute, findDocument_file file, RuleDocument.load_eq_check read parsed,
    RuleDocument.check_eq kind id, invalid]
  rfl

/-- A document that is in order by itself is evaluated with the numbers that the arguments give. -/
theorem execute_of_valid {t : FileTree} {c : Config} {o : Options} {path text : String}
    {d : RuleDocument} (file : o.file = some path) (read : t.read path = .ok text)
    (parsed : RuleDocument.ofYaml text = .ok d) (kind : d.kind = RuleDocument.metricRule)
    (id : d.id ≠ "") {r : Rule} (valid : d.prepare [] = (.ok (), r)) :
    execute t c o = conclude d o r.transcript := by
  apply execute_of_found
  simp only [findDocument_file file, RuleDocument.load_eq_check read parsed,
    RuleDocument.check_eq kind id, valid]
  rfl

theorem path_ne_of_read {t : FileTree} {path text : String} (read : t.read path = .ok text) :
    path ≠ "" := by
  rintro rfl
  cases read

/-- Where nothing is written, a document that is not in order by itself makes the command print nothing. -/
theorem not_prints_of_invalid {t : FileTree} {path text : String} {d : RuleDocument}
    (read : t.read path = .ok text) (parsed : RuleDocument.ofYaml text = .ok d)
    (kind : d.kind = RuleDocument.metricRule) (id : d.id ≠ "") {arguments : List String} {o : Options}
    (accepted : Options.ofArguments arguments = .ok o) (file : o.file = some path)
    (silent : (d.prepare []).2.transcript.streams.output = ByteArray.empty)
    (invalid : ¬ ∃ r, d.toRule = .ok r) (e : Environment) (line : String) :
    ¬ ((run t e arguments).exitCode = 0 ∧
      (run t e arguments).output = (line ++ "\n").toUTF8) := by
  cases hp : d.prepare [] with
  | mk result r =>
      cases result with
      | ok u => exact absurd ⟨r, RuleDocument.toRuleWith_eq_ok_iff.mpr hp⟩ invalid
      | error fault =>
          rw [hp] at silent
          rw [run_of_accepted accepted, execute_of_invalid file read parsed kind id hp]
          exact finish_error_of_silent silent _ _

/-- With arguments that name a file, override numbers and give metric values, the command prints a number
and ends well exactly when the document is a valid rule by itself and the rule of the document with the
overrides answers that number. -/
theorem run_file_prints_iff (t : FileTree) (e : Environment) {path text : String} {d : RuleDocument}
    (read : t.read path = .ok text) (parsed : RuleDocument.ofYaml text = .ok d)
    (kind : d.kind = RuleDocument.metricRule) (id : d.id ≠ "")
    {overrides : List (String × (String × Float))} {values : List (String × Float)}
    (overrides_read : ∀ e ∈ overrides, readOverride e.1 = .ok e.2)
    (values_read : ∀ v ∈ values, Literal.read v.1 = .ok v.2)
    (accepted : ∃ o,
      Options.ofArguments (fileArguments path (overrides.map (·.1)) (values.map (·.1))) = .ok o)
    (silent_by_itself : (d.prepare []).2.transcript.streams.output = ByteArray.empty)
    (silent : ((d.prepare (overrides.map (·.2))).2.evaluate
      (values.map (·.2))).2.transcript.streams.output = ByteArray.empty) (x : Float) :
    let outcome := run t e (fileArguments path (overrides.map (·.1)) (values.map (·.1)))
    (outcome.exitCode = 0 ∧ outcome.output = (NumeralStyle.plain.write x ++ "\n").toUTF8) ↔
      (∃ r, d.toRule = .ok r) ∧
        ∃ r, d.toRuleWith (overrides.map (·.2)) = .ok r ∧
          (r.evaluate (values.map (·.2))).1 = .ok x := by
  intro outcome
  obtain ⟨o, accepted⟩ := accepted
  have options := ofArguments_fileArguments (path_ne_of_read read) overrides_read values_read accepted
  have file : o.file = some path := by rw [options]
  by_cases valid : ∃ r, d.toRule = .ok r
  · obtain ⟨r, hr⟩ := valid
    have hp := RuleDocument.toRuleWith_eq_ok_iff.mp hr
    have houtcome : outcome = conclude d o r.transcript :=
      (run_of_accepted accepted t e).trans (execute_of_valid file read parsed kind id hp)
    have hsilent : (evaluate d o).2.streams.output = ByteArray.empty := by
      rw [evaluate_transcript, options]
      exact silent
    rw [hp] at silent_by_itself
    have hprints := conclude_prints_iff (by rw [options]) (Rule.exit_of_prepare hp) silent_by_itself
      hsilent x
    simp only [options] at hprints
    rw [houtcome, options, hprints]
    exact (and_iff_right ⟨r, hr⟩).symm
  · exact iff_of_false
      (not_prints_of_invalid read parsed kind id accepted file silent_by_itself valid e _)
      fun h => valid h.1

set_option maxRecDepth 100000 in
/-- A document with a number of its own that the arguments replace. -/
theorem run_file_prints_iff_replaced :
    let text := "apiVersion: v1\nkind: MetricRule\nmetadata: {id: a, name: a}\nglobals: {limit: 10}\n" ++
      "code: |\n  function main(x) return x / limit end\n"
    let t : FileTree := ⟨[(["a.yml"], .file text.toUTF8)]⟩
    let outcome := run t .empty (fileArguments "a.yml" ["limit=20"] ["10"])
    outcome.exitCode = 0 ∧ outcome.output = (NumeralStyle.plain.write 0.5 ++ "\n").toUTF8 := by
  intro text t outcome
  have read : t.read "a.yml" = .ok text := FileTree.read_of_isName (by decide) rfl
  have found : ∃ d, RuleDocument.ofYaml text = .ok d ∧ d.kind = RuleDocument.metricRule ∧ d.id ≠ "" ∧
      (d.prepare []).2.transcript.streams.output = ByteArray.empty ∧
      ((d.prepare [("limit", 20)]).2.evaluate [10]).2.transcript.streams.output = ByteArray.empty ∧
      (∃ r, d.toRule = .ok r) ∧
      ∃ r, d.toRuleWith [("limit", 20)] = .ok r ∧ (r.evaluate [10]).1 = .ok 0.5 := by decide +kernel
  obtain ⟨d, parsed, kind, id, silent_by_itself, silent, valid, answers⟩ := found
  have overrides_read : ∀ e ∈ [("limit=20", "limit", (20 : Float))], readOverride e.1 = .ok e.2 := by
    decide +kernel
  have values_read : ∀ v ∈ [("10", (10 : Float))], Literal.read v.1 = .ok v.2 := by decide +kernel
  have accepted : ∃ o, Options.ofArguments (fileArguments "a.yml" ["limit=20"] ["10"]) = .ok o := by
    decide +kernel
  exact (run_file_prints_iff t .empty read parsed kind id overrides_read values_read accepted
    silent_by_itself silent 0.5).mpr ⟨valid, answers⟩

set_option maxRecDepth 100000 in
/-- A document that needs a number that only the arguments give. Its rule with the overrides answers, but
the command refuses the document. -/
theorem run_file_number_missing :
    let text := "apiVersion: v1\nkind: MetricRule\nmetadata: {id: a, name: a}\n" ++
      "code: |\n  scale = 100 / limit\n  function main(x) return x * scale end\n"
    let t : FileTree := ⟨[(["a.yml"], .file text.toUTF8)]⟩
    let outcome := run t .empty (fileArguments "a.yml" ["limit=20"] ["3"])
    t.read "a.yml" = .ok text ∧ readOverride "limit=20" = .ok ("limit", 20) ∧ Literal.read "3" = .ok 3 ∧
      (∃ o, Options.ofArguments (fileArguments "a.yml" ["limit=20"] ["3"]) = .ok o) ∧
      ∃ d, RuleDocument.ofYaml text = .ok d ∧ d.kind = RuleDocument.metricRule ∧ d.id ≠ "" ∧
        (d.prepare []).2.transcript.streams.output = ByteArray.empty ∧
        ((d.prepare [("limit", 20)]).2.evaluate [3]).2.transcript.streams.output = ByteArray.empty ∧
        (∃ r, d.toRuleWith [("limit", 20)] = .ok r ∧ (r.evaluate [3]).1 = .ok 15) ∧
        ¬ (outcome.exitCode = 0 ∧
          outcome.output = (NumeralStyle.plain.write 15 ++ "\n").toUTF8) := by
  intro text t outcome
  have read : t.read "a.yml" = .ok text := FileTree.read_of_isName (by decide) rfl
  have override_read : readOverride "limit=20" = .ok ("limit", 20) := by decide +kernel
  have value_read : Literal.read "3" = .ok 3 := by decide +kernel
  have accepted : ∃ o, Options.ofArguments (fileArguments "a.yml" ["limit=20"] ["3"]) = .ok o := by
    decide +kernel
  have found : ∃ d, RuleDocument.ofYaml text = .ok d ∧ d.kind = RuleDocument.metricRule ∧ d.id ≠ "" ∧
      (d.prepare []).2.transcript.streams.output = ByteArray.empty ∧
      ((d.prepare [("limit", 20)]).2.evaluate [3]).2.transcript.streams.output = ByteArray.empty ∧
      (∃ r, d.toRuleWith [("limit", 20)] = .ok r ∧ (r.evaluate [3]).1 = .ok 15) ∧
      ¬ ∃ r, d.toRule = .ok r := by decide +kernel
  obtain ⟨d, parsed, kind, id, silent_by_itself, silent, answers, invalid⟩ := found
  refine ⟨read, override_read, value_read, accepted, d, parsed, kind, id, silent_by_itself, silent,
    answers, ?_⟩
  obtain ⟨o, accepted⟩ := accepted
  have options := @ofArguments_fileArguments "a.yml" (path_ne_of_read read)
    [("limit=20", ("limit", 20))] [("3", 3)] (by simpa using override_read) (by simpa using value_read)
    o accepted
  exact not_prints_of_invalid read parsed kind id accepted (by rw [options]) silent_by_itself invalid
    .empty _

end Gauge.CommandLine
