import Gauge.Proofs.CommandLine.Simulation

/-!
Where a rule is from has no part in how the other arguments are read. Behind a rule of a directory they are
refused for the same reason as behind a file, or come to the same numbers and the same values.
-/

namespace Gauge.CommandLine

/-- A flag that says where the rule is from. -/
def Flag.isSource : Flag → Bool
  | .rulesDirectory | .rule | .file => true
  | .global | .json | .help | .version => false

/-- An argument that begins neither as a flag of rules does nor as that of a file. -/
def IsOther (s : String) : Prop :=
  s.startsWith "--rule" = false ∧ s.startsWith "--file" = false

theorem isPrefix_of_ofName? {s : List Char} {f : Flag}
    (h : Flag.ofName? (String.ofList (s.takeWhile (· != '='))) = some f) : f.name.toList <+: s := by
  have hname := List.find?_some h
  simp only [beq_iff_eq] at hname
  rw [hname, String.toList_ofList]
  exact List.takeWhile_prefix _

theorem IsOther.isWithin {s : String} (h : IsOther s) : IsWithin (fun f => f.isSource = false) s := by
  intro rest hs f hf
  left
  have hprefix := isPrefix_of_ofName? hf
  obtain ⟨hrule, hfile⟩ := h
  rw [String.startsWith_string_eq_false_iff, hs] at hrule hfile
  have behind {t : List Char} (h : t <+: rest) : ['-', '-'] ++ t <+: '-' :: '-' :: rest :=
    (List.prefix_append_right_inj ['-', '-']).mpr h
  cases f with
  | global | json | help | version => rfl
  | rulesDirectory =>
      have hlonger : "rule".toList <+: "rules-dir".toList := by decide
      exact absurd (behind (hlonger.trans hprefix)) hrule
  | rule => exact absurd (behind hprefix) hrule
  | file => exact absurd (behind hprefix) hfile

/-- The arguments after a rule of a directory, and after a file, have been read as far as here: they
have said nothing of where the rule is from, and nothing that does waits for its value. -/
inductive Alike (directory id path : String) : Progress → Progress → Prop
  | intro {globals : List (String × Float)} {json : Bool} {values : List Float} {given : List Flag}
      {pending : Option (Slot × List String)} (given_other : ∀ f ∈ given, f.isSource = false)
      (pending_other : ∀ f texts, pending = some (.flag f, texts) → f.isSource = false) :
      Alike directory id path
        ⟨⟨some directory, some id, none, globals, json, values⟩, [.rulesDirectory, .rule] ++ given,
          pending⟩
        ⟨⟨none, none, some path, globals, json, values⟩, [.file] ++ given, pending⟩

variable {directory id path : String}
namespace Alike

variable {p q : Progress}

/-- What waits does not matter once it is taken away or replaced by what is not of a source. -/
theorem withPending (h : Alike directory id path p q) {pending : Option (Slot × List String)}
    (other : ∀ f texts, pending = some (.flag f, texts) → f.isSource = false) :
    Alike directory id path { p with pending := pending } { q with pending := pending } := by
  cases h with
  | intro given_other _ => exact .intro given_other other

theorem pending_eq (h : Alike directory id path p q) : p.pending = q.pending := by
  cases h
  rfl

theorem pending_other (h : Alike directory id path p q) {f : Flag} {texts : List String}
    (hp : q.pending = some (.flag f, texts)) : f.isSource = false := by
  cases h with
  | intro _ pending_other => exact pending_other f texts hp

theorem contains_given (h : Alike directory id path p q) {f : Flag} (other : f.isSource = false) :
    p.given.contains f = q.given.contains f := by
  cases h
  cases f with
  | rulesDirectory | rule | file => cases other
  | global | json | help | version => simp

/-- A flag that is not of a source is given, and changes what the two have in common. -/
theorem give (h : Alike directory id path p q) {f : Flag} (other : f.isSource = false)
    (globals : List (String × Float)) (json : Bool) :
    Alike directory id path
      (p.give f { p.options with globals := p.options.globals ++ globals, json := json || p.options.json })
      (q.give f { q.options with globals := q.options.globals ++ globals, json := json || q.options.json }) := by
  cases h with
  | intro given_other pending_other =>
      simp only [Progress.give, List.append_assoc]
      refine .intro (fun g hg => ?_) pending_other
      rcases List.mem_append.mp hg with hg | hg
      · exact given_other g hg
      · exact List.mem_singleton.mp hg ▸ other

theorem takeValue (h : Alike directory id path p q) (x : Float) :
    Alike directory id path { p with options := { p.options with values := p.options.values ++ [x] } }
      { q with options := { q.options with values := q.options.values ++ [x] } } := by
  cases h with
  | intro given_other pending_other => exact .intro given_other pending_other

theorem takeFlag (h : Alike directory id path p q) {f : Flag} (other : f.isSource = false)
    (value : String) : Agree (Alike directory id path) (p.takeFlag f value) (q.takeFlag f value) := by
  simp only [Progress.takeFlag, h.contains_given other]
  cases f with
  | rulesDirectory | rule | file => cases other
  | global =>
      simp only [beq_self_eq_true, if_true]
      cases readOverride value with
      | error e => exact .error _
      | ok e => exact .ok (by simpa using h.give other [e] false)
  | json | help | version =>
      simp only [reduceCtorEq, beq_iff_eq, if_false]
      split
      · exact .error _
      · exact .ok (by simpa using h.give other [] false)

theorem simulation : Simulation (fun f => f.isSource = false) (Alike directory id path) where
  flags_help := rfl
  flags_version := rfl
  pending_eq := pending_eq
  flags_of_pending := pending_other
  withPending := withPending
  takeValue := takeValue
  takeFlag := takeFlag
  contains_json h hf := h.contains_given hf
  giveJson h hf := by simpa using h.give hf [] true

theorem check (h : Alike directory id path p q) :
    ∃ globals json values,
      p.check = .ok ⟨some directory, some id, none, globals, json, values⟩ ∧
        q.check = .ok ⟨none, none, some path, globals, json, values⟩ := by
  cases h with
  | @intro globals json values given pending given_other _ =>
      have hrule : Flag.rule ∉ given := fun h => Bool.noConfusion (given_other _ h)
      have hfile : Flag.file ∉ given := fun h => Bool.noConfusion (given_other _ h)
      exact ⟨globals, json, values, by simp [Progress.check, hfile], by simp [Progress.check, hrule]⟩

end Alike

theorem takeAll_rule {directory : String} (directory_ne : directory ≠ "") (id : String)
    (rest : List String) :
    Progress.start.takeAll false (("--rules-dir=" ++ directory) :: ("--rule=" ++ id) :: rest) =
      Progress.takeAll ⟨⟨some directory, some id, none, [], false, []⟩, [.rulesDirectory, .rule], none⟩
        false rest := by
  have hdirectory : Progress.start.takeAll false
      (("--rules-dir=" ++ directory) :: ("--rule=" ++ id) :: rest) = _ :=
    Progress.takeAll_flag_with .start .rulesDirectory directory _
  have hid (p : Progress) : p.takeAll false (("--rule=" ++ id) :: rest) = _ :=
    Progress.takeAll_flag_with p .rule id rest
  simp only [hdirectory, hid]
  simp [Progress.addFlag, Flag.valueName?, Progress.settle, Progress.start, Progress.takeFlag,
    Progress.give, directory_ne, Except.mapError_ok, bind, Except.bind]

theorem takeAll_file {path : String} (path_ne : path ≠ "") (rest : List String) :
    Progress.start.takeAll false (("--file=" ++ path) :: rest) =
      Progress.takeAll ⟨⟨none, none, some path, [], false, []⟩, [.file], none⟩ false rest := by
  have hfile : Progress.start.takeAll false (("--file=" ++ path) :: rest) = _ :=
    Progress.takeAll_flag_with .start .file path rest
  rw [hfile]
  simp [Progress.addFlag, Flag.valueName?, Progress.settle, Progress.start, Progress.takeFlag,
    Progress.give, path_ne, Except.mapError_ok, bind, Except.bind]

/-- Behind a rule of a directory and behind a file, other arguments are refused for one reason or come to
the same. -/
theorem ofArguments_agree (directory_ne : directory ≠ "") (path_ne : path ≠ "") (id : String)
    {rest : List String} (other : ∀ s ∈ rest, IsOther s) :
    Agree
      (fun a b => ∃ globals json values, a = ⟨some directory, some id, none, globals, json, values⟩ ∧
        b = ⟨none, none, some path, globals, json, values⟩)
      (Options.ofArguments (("--rules-dir=" ++ directory) :: ("--rule=" ++ id) :: rest))
      (Options.ofArguments (("--file=" ++ path) :: rest)) := by
  have start : Alike directory id path
      ⟨⟨some directory, some id, none, [], false, []⟩, [.rulesDirectory, .rule], none⟩
      ⟨⟨none, none, some path, [], false, []⟩, [.file], none⟩ :=
    @Alike.intro _ _ _ [] false [] [] none nofun nofun
  simp only [Options.ofArguments, takeAll_rule directory_ne, takeAll_file path_ne]
  refine (Alike.simulation.takeAll start false fun s hs => (other s hs).isWithin).bind fun p q h => ?_
  obtain ⟨globals, json, values, hp, hq⟩ := h.check
  rw [hp, hq]
  exact .ok ⟨globals, json, values, rfl, rfl⟩

end Gauge.CommandLine
