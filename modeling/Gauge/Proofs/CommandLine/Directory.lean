import Gauge.Proofs.CommandLine.File
import Gauge.Proofs.CommandLine.Source

/-!
One rule of a directory, and the same rule out of its own file. To find the rule by its identifier the command
runs the scripts of all documents of the directory, and they share the streams with it. What it comes to in
the end is still decided by the one document alone, as long as no other script ends the program, and its
output is the same as long as the others leave the output alone.
-/

namespace Gauge.CommandLine

open Script (Transcript)

/-- What scripts have done to the streams while a directory was gone through. -/
def writings (results : List LoadResult) : Transcript :=
  results.foldl (fun s r => s.append r.transcript) .empty

theorem exit_foldl_append {results : List LoadResult}
    (running : ∀ r ∈ results, r.transcript.exit = none) (s : Transcript) :
    (results.foldl (fun s r => s.append r.transcript) s).exit = s.exit := by
  induction results generalizing s with
  | nil => rfl
  | cons r results ih =>
      rw [List.foldl_cons, ih fun r' hr' => running r' (List.mem_cons_of_mem _ hr')]
      simp [running r List.mem_cons_self]

theorem matches_foldl_append {results : List LoadResult}
    (quiet : ∀ r ∈ results, r.transcript.IsQuiet) {s u : Transcript} (h : s.Matches u) :
    (results.foldl (fun s r => s.append r.transcript) s).Matches u := by
  induction results generalizing s with
  | nil => exact h
  | cons r results ih =>
      exact ih (fun r' hr' => quiet r' (List.mem_cons_of_mem _ hr'))
        (h.append_quiet (quiet r List.mem_cons_self))

section

variable {before after : List LoadResult} {r : LoadResult}

theorem exit_writings (running : ∀ r' ∈ before ++ after, r'.transcript.exit = none) :
    (writings (before ++ r :: after)).exit = r.transcript.exit := by
  rw [writings, List.foldl_append, List.foldl_cons,
    exit_foldl_append fun r' hr' => running r' (List.mem_append_right _ hr'),
    Transcript.exit_append, exit_foldl_append fun r' hr' => running r' (List.mem_append_left _ hr')]
  rfl

/-- Among scripts that leave the output alone, a script does as by itself. -/
theorem writings_matches (quiet : ∀ r' ∈ before ++ after, r'.transcript.IsQuiet) :
    (writings (before ++ r :: after)).Matches r.transcript := by
  rw [writings, List.foldl_append, List.foldl_cons]
  refine matches_foldl_append (fun r' hr' => quiet r' (List.mem_append_right _ hr')) ?_
  have hbefore := matches_foldl_append
    (fun r' hr' => quiet r' (List.mem_append_left _ hr')) (Transcript.Matches.refl .empty)
  simpa using hbefore.append r.transcript

end

/-! What a run comes to. -/

theorem finish_exitCode_congr {t u : Transcript} (h : t.exit = u.exit) (shown : Except Failure String) :
    (finish t shown).exitCode = (finish u shown).exitCode := by
  cases hu : u.exit <;> cases shown <;> simp [finish, h, hu]

theorem finish_output_congr {t u : Transcript} (h : t.Matches u) (shown : Except Failure String) :
    (finish t shown).output = (finish u shown).output := by
  obtain ⟨output, released, -⟩ := h.output .start .start ⟨rfl, rfl, rfl⟩
  rw [← Transcript.streams_eq, ← Transcript.streams_eq] at output released
  cases hu : u.exit <;> cases shown <;> simp [finish, h.exit, hu, output, released]

/-- The rule that is found in a directory. -/
theorem findDocument_directory {t : FileTree} {c : Config} {o : Options} {directory id : String}
    (file : o.file = none) (named : o.rulesDirectory = some directory) (rule : o.rule = some id)
    {results : List LoadResult} {l : Loader}
    (scanned : (Loader.new directory).loadAll t = (.ok results, l)) {d : RuleDocument}
    (held : l.get? id = some d) : findDocument t c o = (.ok d, writings results) := by
  simp only [findDocument, file, named, rule, Option.getD_some, scanned, held]
  rfl

/-! A directory with two documents, on which the command can be run. -/

/-- The directory `rules` with two documents in it. -/
def twoDocuments (a b : String) : FileTree :=
  ⟨[(["rules"], .directory), (["rules", "a.yml"], .file a.toUTF8),
    (["rules", "b.yml"], .file b.toUTF8)]⟩

theorem path_second : Loader.pathOf "rules" ["b.yml"] = "rules/b.yml" := by decide

section

variable {a b : String} {d e : RuleDocument} (hd : RuleDocument.ofYaml a = .ok d)
  (he : RuleDocument.ofYaml b = .ok e) (accepted : e.Accepted)
include hd he accepted

theorem loadAll_twoDocuments : ∃ status l, (Loader.new "rules").loadAll (twoDocuments a b) =
    (.ok [⟨["a.yml"], status, d.check.2⟩, ⟨["b.yml"], .loaded e, e.check.2⟩], l) := by
  have list : (twoDocuments a b).list "rules" = .ok ["a.yml", "b.yml"] := by cbv
  have first : Loader.Offers (twoDocuments a b) "rules" "a.yml" d :=
    Loader.offers_of_entry (by decide) (by decide) (by decide) (by decide) rfl rfl hd
  have second : Loader.Offers (twoDocuments a b) "rules" "b.yml" e :=
    Loader.offers_of_entry (by decide) (by decide) (by decide) (by decide) rfl rfl he
  have loaded : Loader.resultOf "b.yml" e = ⟨["b.yml"], .loaded e, e.check.2⟩ := by
    rw [Loader.resultOf, accepted.check]
  have scanned := Loader.loadAll_of_offers list (.cons first (.cons second .nil))
  simp only [List.zipWith_cons_cons, List.zipWith_nil_left, loaded] at scanned
  exact ⟨_, _, scanned⟩

theorem run_twoDocuments {o o' : Options} {byRule byFile : List String}
    (hrule : Options.ofArguments byRule = .ok o)
    (source : o.file = none ∧ o.rulesDirectory = some "rules" ∧ o.rule = some e.id)
    (hfile : Options.ofArguments byFile = .ok o') (source' : o'.file = some "rules/b.yml")
    (environment : Environment) :
    run (twoDocuments a b) environment byRule = conclude e o (d.check.2.append e.check.2) ∧
      run (twoDocuments a b) environment byFile = conclude e o' e.check.2 := by
  obtain ⟨status, l, scanned⟩ := loadAll_twoDocuments hd he accepted
  obtain ⟨results, rfl⟩ := Loader.loadAll_eq_ok scanned
  have hload : RuleDocument.load (twoDocuments a b) "rules/b.yml" = (.ok e, e.check.2) := by
    rw [← path_second]
    exact @Loader.load_of_mem_scan _ _ _ results ⟨["b.yml"], .loaded e, e.check.2⟩ (by simp) e rfl
  have held := @Loader.get?_foldl_keep_of_split (.new "rules") [⟨["a.yml"], status, d.check.2⟩] []
    ⟨["b.yml"], .loaded e, e.check.2⟩ e rfl fun _ h => absurd h List.not_mem_nil
  have hwritings : writings [⟨["a.yml"], status, d.check.2⟩, ⟨["b.yml"], .loaded e, e.check.2⟩] =
      d.check.2.append e.check.2 := by
    simp [writings]
  constructor
  · rw [run_of_accepted hrule, ← hwritings]
    exact execute_of_found (findDocument_directory source.1 source.2.1 source.2.2 scanned held)
  · rw [run_of_accepted hfile]
    exact execute_of_found (findDocument_loaded source' hload)

end

/-! The rule of a directory and the rule of a file. -/

end Gauge.CommandLine
