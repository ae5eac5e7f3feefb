import Gauge.Proofs.CommandLine.Simulation
import Gauge.Proofs.CommandLine.Values
import Gauge.Proofs.Json.Tree

/-!
The two ways to show a result. The flag for JSON changes nothing but the line that is printed, and both lines
tell the result to the last bit: as a plain decimal, and as an object that also names the rule and lists the
metric values.
-/

namespace Gauge.CommandLine

/-! The flag for JSON. -/

def Progress.withJson (p : Progress) : Progress :=
  ⟨{ p.options with json := true }, .json :: p.given, p.pending⟩

/-- Arguments without the flag for JSON have been read as far as here, by themselves and behind the flag. -/
inductive Ahead : Progress → Progress → Prop
  | intro {p : Progress} (plain : p.options.json = false) (not_given : Flag.json ∉ p.given)
      (not_pending : ∀ f texts, p.pending = some (.flag f, texts) → f ≠ .json) : Ahead p p.withJson

namespace Ahead

variable {p q : Progress}

theorem ne_json_of_pending (h : Ahead p q) {f : Flag} {texts : List String}
    (hp : q.pending = some (.flag f, texts)) : f ≠ .json := by
  cases h with
  | intro _ _ not_pending => exact not_pending f texts hp

theorem withPending (h : Ahead p q) {pending : Option (Slot × List String)}
    (hp : ∀ f texts, pending = some (.flag f, texts) → f ≠ .json) :
    Ahead { p with pending := pending } { q with pending := pending } := by
  cases h with
  | intro plain not_given _ => exact .intro plain not_given hp

theorem contains_given (h : Ahead p q) {f : Flag} (hf : f ≠ .json) : p.given.contains f = q.given.contains f := by
  cases h
  simp [Progress.withJson, hf]

theorem give (h : Ahead p q) {f : Flag} (hf : f ≠ .json) (change : Options → Options)
    (json_eq : ∀ o, (change o).json = o.json)
    (with_json : ∀ o, change { o with json := true } = { change o with json := true }) :
    Ahead (p.give f (change p.options)) (q.give f (change q.options)) := by
  cases h with
  | intro plain not_given not_pending =>
      have hgiven : Progress.give p.withJson f (change p.withJson.options) =
          (p.give f (change p.options)).withJson := by
        simp only [Progress.give, Progress.withJson, with_json, List.cons_append]
      rw [hgiven]
      refine .intro ?_ ?_ not_pending
      · rw [Progress.give, json_eq, plain]
      · simp [Progress.give, not_given, hf.symm]

theorem takeFlag (h : Ahead p q) {f : Flag} (hf : f ≠ .json) (value : String) :
    Agree Ahead (p.takeFlag f value) (q.takeFlag f value) := by
  simp only [Progress.takeFlag, h.contains_given hf]
  cases f with
  | json => exact absurd rfl hf
  | global =>
      simp only [beq_self_eq_true, if_true]
      cases readOverride value with
      | error e => exact .error _
      | ok e =>
          exact .ok (h.give hf (fun o => { o with globals := o.globals ++ [e] }) (fun _ => rfl) fun _ => rfl)
  | rulesDirectory =>
      simp only [reduceCtorEq, beq_iff_eq, if_false]
      split
      · exact .error _
      · split
        · exact .error _
        · exact .ok (h.give hf (fun o => { o with rulesDirectory := some value }) (fun _ => rfl) fun _ => rfl)
  | file =>
      simp only [reduceCtorEq, beq_iff_eq, if_false]
      split
      · exact .error _
      · split
        · exact .error _
        · exact .ok (h.give hf (fun o => { o with file := some value }) (fun _ => rfl) fun _ => rfl)
  | rule =>
      simp only [reduceCtorEq, beq_iff_eq, if_false]
      split
      · exact .error _
      · exact .ok (h.give hf (fun o => { o with rule := some value }) (fun _ => rfl) fun _ => rfl)
  | help | version =>
      simp only [reduceCtorEq, beq_iff_eq, if_false]
      split
      · exact .error _
      · exact .ok (h.give hf id (fun _ => rfl) fun _ => rfl)

theorem simulation : Simulation (· ≠ .json) Ahead where
  flags_help := by decide
  flags_version := by decide
  pending_eq h := by
    cases h
    rfl
  flags_of_pending := ne_json_of_pending
  withPending := withPending
  takeValue h x := by
    cases h with
    | intro plain not_given not_pending => exact .intro plain not_given not_pending
  takeFlag := takeFlag
  contains_json _ hf := absurd rfl hf
  giveJson _ hf := absurd rfl hf

theorem check (h : Ahead p q) :
    Agree (fun o o' => o.json = false ∧ o' = { o with json := true }) p.check q.check := by
  cases h with
  | intro plain not_given _ =>
      have hfirst : (Flag.json == Flag.rule || Flag.json == Flag.file) = false := rfl
      simp only [Progress.check, Progress.withJson, List.find?_cons, List.contains_cons, hfirst]
      cases p.given.find? fun f => f == .rule || f == .file with
      | none => exact .error _
      | some f =>
          dsimp only
          have hother : ((if f == .rule then Flag.file else Flag.rule) == Flag.json) = false := by
            split <;> rfl
          generalize (if f == .rule then Flag.file else Flag.rule) = other at hother ⊢
          simp only [hother, Bool.false_or]
          split
          · exact .error _
          · exact .ok ⟨plain, rfl⟩

end Ahead

theorem isWithin_of_ne_json {s : String} (h : s ≠ "--json") : IsWithin (· ≠ .json) s := by
  intro rest hs f hf
  by_cases hjson : f = .json
  · subst hjson
    refine .inr ⟨rfl, fun hnone => h ?_⟩
    have hname := List.find?_some hf
    -- without an equals sign the name is all of the argument
    have hdrop : rest.dropWhile (· != '=') = [] := by
      simp only [splitEquals?] at hnone
      split at hnone
      · assumption
      · cases hnone
    have hall := List.dropWhile_eq_nil_iff.mp hdrop
    simp only [beq_iff_eq, List.takeWhile_eq_self_iff.mpr hall] at hname
    rw [← String.toList_inj, hs, ← String.toList_ofList (l := rest), ← hname]
    rfl
  · exact .inl hjson

/-- Behind the flag for JSON, arguments without it are refused as they are by themselves, or come to the same. -/
theorem ofArguments_json {arguments : List String} (absent : "--json" ∉ arguments) :
    Agree (fun o o' => o.json = false ∧ o' = { o with json := true }) (Options.ofArguments arguments)
      (Options.ofArguments ("--json" :: arguments)) := by
  have start : Ahead .start Progress.start.withJson := .intro rfl (by simp [Progress.start]) nofun
  have hflag : Progress.start.takeAll false ("--json" :: arguments) =
      Progress.start.withJson.takeAll false arguments := rfl
  simp only [Options.ofArguments, hflag]
  refine (Ahead.simulation.takeAll start false fun s hs => isWithin_of_ne_json ?_).bind fun p q h =>
    h.check.mapError _
  rintro rfl
  exact absent hs

/-! The run on a file. -/

/-- What scripts have written once the document in a file has been loaded and evaluated. -/
def written (t : FileTree) (path : String) (o : Options) : Script.Transcript :=
  match RuleDocument.load t path with
  | (.error _, before) => before
  | (.ok d, before) => before.append (evaluate d o).2

/-- The name of the rule in a file and its result. -/
def answer (t : FileTree) (path : String) (o : Options) : Except Failure (String × Float) :=
  match RuleDocument.load t path with
  | (.error e, _) => .error (.document path e)
  | (.ok d, _) => (evaluate d o).1

section

variable {t : FileTree} {c : Config} {path : String} {o : Options}

theorem execute_file (file : o.file = some path) :
    execute t c o = finish (written t path o) ((answer t path o).map fun a => report o a.1 a.2) := by
  simp only [execute, findDocument_file file, written, answer]
  cases RuleDocument.load t path with
  | mk result before => cases result <;> rfl

theorem answer_eq_ok_iff {name : String} {x : Float} :
    answer t path o = .ok (name, x) ↔
      ∃ d, (RuleDocument.load t path).1 = .ok d ∧ name = d.id ∧
        ∃ r, d.toRuleWith o.globals = .ok r ∧ (r.evaluate o.values).1 = .ok x := by
  simp only [answer]
  cases RuleDocument.load t path with
  | mk result before =>
      cases result with
      | error e => simp
      | ok d => simp [evaluate_eq_ok_iff]

theorem exit_of_answer {a : String × Float} (h : answer t path o = .ok a) : (written t path o).exit = none := by
  simp only [answer] at h
  simp only [written]
  cases loads : RuleDocument.load t path with
  | mk result before =>
      rw [loads] at h
      cases result with
      | error e => cases h
      | ok d =>
          obtain ⟨r, -, -, running⟩ := transcript_of_load loads
          simp [running, exit_of_evaluate h]

end

theorem exitCode_finish_map {α : Type} (transcript : Script.Transcript) (result : Except Failure α)
    (f g : α → String) :
    (finish transcript (result.map f)).exitCode = (finish transcript (result.map g)).exitCode := by
  cases result with
  | error e => rfl
  | ok a =>
      simp only [Except.map, finish]
      cases transcript.exit <;> rfl

/-- A run ends well if there is something to show, or if a script says so. -/
theorem ok_of_exitCode_eq_zero {transcript : Script.Transcript} {shown : Except Failure String}
    (h : (finish transcript shown).exitCode = 0) : (∃ line, shown = .ok line) ∨ transcript.exit = some 0 := by
  simp only [finish] at h
  cases hexit : transcript.exit with
  | some code =>
      rw [hexit] at h
      exact .inr (congrArg some h)
  | none =>
      rw [hexit] at h
      cases shown with
      | error f => cases h
      | ok line => exact .inl ⟨line, rfl⟩

/-! What is shown. -/

/-- A number in JSON, which has none that is not finite. -/
def shownNumber (x : Float) : Json.Tree := if x.isFinite then .number x else .null

theorem isText_number (x : Float) : Json.IsText (Json.number x) (shownNumber x) := by
  simp only [shownNumber]
  split
  · exact .number ‹_›
  · rename_i infinite
    have hnull : Json.number x = "null" := by
      simp only [Json.number, NumeralStyle.write]
      cases hx : x.decode with
      | nan => rfl
      | infinite negative => cases negative <;> rfl
      | finite negative m e => exact absurd (Float.isFinite_of_decode hx) infinite
    rw [hnull]
    exact .null

theorem isText_report (o : Options) (name : String) (x : Float) :
    Json.IsText (report { o with json := true } name x)
      (.object [("metrics", .list (o.values.map shownNumber)), ("result", shownNumber x), ("rule", .string name)]) := by
  have hvalues : Json.IsText (Json.array (o.values.map Json.number)) (.list (o.values.map shownNumber)) := by
    have := @Json.IsText.list (o.values.map fun v => (Json.number v, shownNumber v)) (by simp [isText_number])
    simpa only [List.map_map, Function.comp_def] using this
  have hmembers : ∀ m ∈ [("metrics", Json.array (o.values.map Json.number), .list (o.values.map shownNumber)),
      ("result", Json.number x, shownNumber x), ("rule", Json.string name, .string name)],
      Json.IsText m.2.1 m.2.2 := by
    intro m hm
    simp only [List.mem_cons, List.not_mem_nil, or_false] at hm
    rcases hm with rfl | rfl | rfl
    · exact hvalues
    · exact isText_number x
    · exact .string name
  have hobject := Json.IsText.object hmembers
  simp only [List.map_cons, List.map_nil] at hobject
  simp only [report, if_true]
  exact hobject

theorem newline_notMem_plain (x : Float) : '\n' ∉ (NumeralStyle.plain.write x).toList := fun hmem =>
  absurd (NumeralStyle.isBlank_of_mem_plain x _ hmem) (by decide)

theorem write_plain_of_isNaN {x : Float} (h : x.isNaN = true) : NumeralStyle.plain.write x = "NaN" := by
  cases hx : x.decode with
  | nan => exact NumeralStyle.write_nan _ hx
  | infinite negative =>
      rw [← Float.ofBits_toBits x, Binary64.bits_of_infinite hx] at h
      cases negative <;> cases h
  | finite negative m e =>
      rw [Binary64.isNaN_eq_false hx] at h
      cases h

/-! The two lines. -/

section

variable {t : FileTree} {e : Environment} {path : String} {arguments : List String} {o : Options}

theorem run_file (accepted : Options.ofArguments arguments = .ok o) (file : o.file = some path) :
    run t e arguments = finish (written t path o) ((answer t path o).map fun a => report o a.1 a.2) :=
  (run_of_accepted accepted t e).trans (execute_file file)

theorem run_file_ok (accepted : Options.ofArguments arguments = .ok o) (file : o.file = some path)
    (silent : (written t path o).streams.output = ByteArray.empty) {name : String} {x : Float}
    (h : answer t path o = .ok (name, x)) :
    run t e arguments = ⟨0, (report o name x ++ "\n").toUTF8, (written t path o).streams.complaints⟩ := by
  rw [run_file accepted file, h]
  exact finish_of_silent (exit_of_answer h) silent _

end

end Gauge.CommandLine
