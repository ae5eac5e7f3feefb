import Gauge.CommandLine
import Gauge.Proofs.Except

/-!
Reading arguments. Arguments that name a file, override numbers and give metric values are read as what
they say, if they are accepted at all.
-/

namespace Gauge.CommandLine

/-- What a computation ends well with can be tried out. -/
instance decidableExistsOkAnd {α ε : Type} (x : Except ε α) (p : α → Prop) [DecidablePred p] :
    Decidable (∃ a, x = .ok a ∧ p a) :=
  match x with
  | .ok a => decidable_of_iff (p a) (by simp)
  | .error e => .isFalse (by simp)

instance decidableExistsOk {α ε : Type} (x : Except ε α) : Decidable (∃ a, x = .ok a) :=
  match x with
  | .ok a => .isTrue ⟨a, rfl⟩
  | .error e => .isFalse (by simp)

namespace Progress

/-! Flags by their names. -/

theorem take_flag (p : Progress) (f : Flag) : p.take ("--" ++ f.name) = p.addFlag f none := by
  cases f <;> rfl

theorem splitEquals?_append {s : List Char} (h : '=' ∉ s) (rest : List Char) :
    splitEquals? (s ++ '=' :: rest) = some (s, rest) := by
  have hall : ∀ c ∈ s, (c != '=') = true := fun c hc =>
    bne_iff_ne.mpr fun he => h (he ▸ hc)
  simp [splitEquals?, List.dropWhile_append_of_pos hall, List.takeWhile_append_of_pos hall]

theorem take_flag_with (p : Progress) (f : Flag) (value : String) :
    p.take ("--" ++ f.name ++ "=" ++ value) = p.addFlag f (some value) := by
  have hname : '=' ∉ f.name.toList := by cases f <;> decide
  have hall : ∀ c ∈ f.name.toList, (c != '=') = true := fun c hc =>
    bne_iff_ne.mpr fun he => hname (he ▸ hc)
  have htext : ("--" ++ f.name ++ "=" ++ value).toList =
      '-' :: '-' :: (f.name.toList ++ '=' :: value.toList) := by
    simp
  have hflag : Flag.ofName? f.name = some f := by cases f <;> rfl
  simp only [take, htext, splitEquals?_append hname, List.takeWhile_append_of_pos hall]
  simp [hflag]

theorem takeAll_flag_with (p : Progress) (f : Flag) (value : String) (rest : List String) :
    p.takeAll false (("--" ++ f.name ++ "=" ++ value) :: rest) =
      p.addFlag f (some value) >>= fun p => p.takeAll false rest := by
  have hne : ("--" ++ f.name ++ "=" ++ value == "--") = false := by
    rw [beq_eq_false_iff_ne]
    intro h
    simpa using congrArg String.toList h
  simp only [takeAll, Bool.false_eq_true, if_false, hne, take_flag_with]

/-! What waits for its value. -/

section

variable {p q : Progress} {f : Flag}

theorem settle_of_waiting (h : p.pending = some (.flag f, [])) :
    p.settle = .error (.valueMissing f) := by
  simp only [settle]
  rw [h]

/-- A flag that waits for its value lets no other flag in. -/
theorem addFlag_of_waiting (h : p.pending = some (.flag f, [])) (g : Flag) (attached : Option String) :
    ∃ u, p.addFlag g attached = .error (.usage u) := by
  simp only [addFlag, settle_of_waiting h, Except.mapError_error]
  cases g.valueName? <;> cases attached <;> exact ⟨_, rfl⟩

theorem add_of_waiting (h : p.pending = some (.flag f, [])) (s : String) :
    p.add s = .ok { p with pending := some (.flag f, [s]) } := by
  simp only [add]
  rw [h]

theorem take_of_waiting (h : p.pending = some (.flag f, [])) {s : String} (ok : p.take s = .ok q) :
    q = { p with pending := some (.flag f, [s]) } := by
  have added (h' : (p.add s).mapError Halt.usage = .ok q) :
      q = { p with pending := some (.flag f, [s]) } := by
    rw [add_of_waiting h, Except.mapError_eq_ok_iff] at h'
    exact (Except.ok.inj h').symm
  have refused (g : Flag) (attached : Option String) : p.addFlag g attached ≠ .ok q := by
    obtain ⟨u, hu⟩ := addFlag_of_waiting h g attached
    simp [hu]
  simp only [take] at ok
  split at ok
  · split at ok
    · exact absurd ok (refused _ _)
    · cases ok
  · split at ok
    · exact added ok
    · split at ok
      · exact absurd ok (refused _ _)
      · cases ok
  · exact added ok

/-- Nor does it take a value from behind two dashes. -/
theorem takeAll_separated_of_waiting (h : p.pending = some (.flag f, [])) (rest : List String) :
    ∃ u, p.takeAll true rest = .error (.usage u) := by
  cases rest with
  | nil => exact ⟨.valueMissing f, by simp [takeAll, settle_of_waiting h, Except.mapError_error]⟩
  | cons s rest =>
      have hadd : p.addValue s = .error (.valueMissing f) := by
        simp only [addValue, settle_of_waiting h]
        rw [h]
        rfl
      exact ⟨.valueMissing f, by simp [takeAll, hadd, Except.mapError_error, bind, Except.bind]⟩

/-- If arguments are accepted at all, the one after a flag that waits for its value is that value. -/
theorem takeAll_of_waiting (h : p.pending = some (.flag f, [])) {s : String} {rest : List String}
    (ok : p.takeAll false (s :: rest) = .ok q) :
    ({ p with pending := some (.flag f, [s]) } : Progress).takeAll false rest = .ok q := by
  simp only [takeAll, Bool.false_eq_true, if_false] at ok
  split at ok
  · obtain ⟨u, hu⟩ := takeAll_separated_of_waiting h rest
    rw [hu] at ok
    cases ok
  · obtain ⟨p', hp', ok⟩ := Except.bind_eq_ok_iff.mp ok
    rwa [take_of_waiting h hp'] at ok

end

/-! Overrides and values. -/

theorem takeFlag_global (p : Progress) {s : String} {e : String × Float} (h : readOverride s = .ok e) :
    p.takeFlag .global s =
      .ok (p.give .global { p.options with globals := p.options.globals ++ [e] }) := by
  simp [takeFlag, h]

/-- A flag that takes a value settles what waits, and waits itself. -/
theorem takeAll_flag {p free q : Progress} (settled : p.settle = .ok free) {f : Flag}
    (takes : f.valueName?.isSome) {rest : List String}
    (ok : p.takeAll false (("--" ++ f.name) :: rest) = .ok q) :
    ({ free with pending := some (.flag f, []) } : Progress).takeAll false rest = .ok q := by
  have hne : ("--" ++ f.name == "--") = false := by cases f <;> rfl
  obtain ⟨value, hvalue⟩ := Option.isSome_iff_exists.mp takes
  simpa [takeAll, hne, take_flag, addFlag, hvalue, settled, Except.mapError_ok, bind, Except.bind, pure,
    Except.pure] using ok

/-- What the arguments after some overrides are read on from. -/
theorem takeAll_overrides {p free q : Progress} (settled : p.settle = .ok free)
    (none_pending : free.pending = none) {overrides : List (String × (String × Float))}
    (read : ∀ e ∈ overrides, readOverride e.1 = .ok e.2) {rest : List String}
    (ok : p.takeAll false (overrides.flatMap (fun e => ["--global", e.1]) ++ rest) = .ok q) :
    ∃ p' free' : Progress, p'.settle = .ok free' ∧ free'.pending = none ∧
      free'.options =
        { free.options with globals := free.options.globals ++ overrides.map (·.2) } ∧
      p'.takeAll false rest = .ok q := by
  induction overrides generalizing p free with
  | nil => exact ⟨p, free, settled, none_pending, by simp, ok⟩
  | cons e overrides ih =>
      have hvalue := takeAll_of_waiting rfl (takeAll_flag (f := .global) settled rfl ok)
      have hsettle : ({ free with pending := some (.flag .global, [e.1]) } : Progress).settle =
          .ok (free.give .global { free.options with globals := free.options.globals ++ [e.2] }) := by
        simp only [settle]
        rw [takeFlag_global _ (read e List.mem_cons_self), ← none_pending]
      obtain ⟨p', free', hp', hnone, hoptions, hok⟩ := ih hsettle none_pending
        (fun e' he' => read e' (List.mem_cons_of_mem _ he')) hvalue
      refine ⟨p', free', hp', hnone, ?_, hok⟩
      rw [hoptions]
      simp [give]

theorem takeValues_append (p : Progress) (s t : List String) :
    p.takeValues (s ++ t) = p.takeValues s >>= fun p => p.takeValues t := by
  induction s generalizing p with
  | nil => rfl
  | cons a s ih =>
      simp only [List.cons_append, takeValues]
      split
      · exact ih _
      · rfl

theorem takeValues_singleton (p : Progress) {s : String} {x : Float} (h : Literal.read s = .ok x) :
    p.takeValues [s] =
      .ok { p with options := { p.options with values := p.options.values ++ [x] } } := by
  simp [takeValues, h]

/-- A number does not begin with two dashes. -/
theorem not_dashes_of_read {s : String} {x : Float} (h : Literal.read s = .ok x) (rest : List Char) :
    s.toList ≠ '-' :: '-' :: rest := by
  intro hs
  simp only [Literal.read] at h
  split at h
  · cases h
  · have hdecimal : Literal.decimal? ('-' :: rest) = none := by
      simp [Literal.decimal?]
    have hword : Literal.word? true ('-' :: rest) = none := by
      simp only [Literal.word?]
      split <;> rename_i hw <;>
        first | rfl | exact absurd (congrArg String.toList hw) (by simp)
    simp only [hs, Literal.sign, hdecimal, hword] at h
    cases h

theorem letterFlag?_eq_some {c : Char} {f : Flag} (h : letterFlag? c = some f) :
    f = .help ∨ f = .version := by
  simp only [letterFlag?] at h
  split at h
  · exact .inl (Option.some.inj h).symm
  · split at h
    · exact .inr (Option.some.inj h).symm
    · cases h

theorem addFlag_letter {c : Char} {f : Flag} (h : letterFlag? c = some f) (p q : Progress) :
    p.addFlag f none ≠ .ok q := by
  cases hs : p.settle <;> rcases letterFlag?_eq_some h with rfl | rfl <;>
    simp [addFlag, Flag.valueName?, hs, Except.mapError_ok, Except.mapError_error, bind, Except.bind, throw, throwThe,
      MonadExceptOf.throw]

/-- A number that is accepted is taken as a metric value. -/
theorem take_number {p q : Progress} {s : String} {x : Float} (read : Literal.read s = .ok x)
    (ok : p.take s = .ok q) : p.add s = .ok q := by
  simp only [take] at ok
  split at ok
  · rename_i rest hs
    exact absurd hs (not_dashes_of_read read rest)
  · split at ok
    · exact Except.mapError_eq_ok_iff.mp ok
    · split at ok
      · rename_i f hf
        exact absurd ok (addFlag_letter hf p q)
      · cases ok
  · exact Except.mapError_eq_ok_iff.mp ok

theorem settle_of_add {p free q : Progress} (settled : p.settle = .ok free)
    (none_pending : free.pending = none) {s : String} {x : Float} (read : Literal.read s = .ok x)
    (ok : p.add s = .ok q) :
    q.settle =
      .ok { free with options := { free.options with values := free.options.values ++ [x] } } := by
  -- other than behind values, what waits is settled first
  have first (h : p.addValue s = .ok { free with pending := some (.values, [s]) })
      (hadd : p.add s = p.addValue s) : q.settle =
        .ok { free with options := { free.options with values := free.options.values ++ [x] } } := by
    obtain rfl := Except.ok.inj (h.symm.trans (hadd.symm.trans ok))
    simp only [settle]
    rw [takeValues_singleton _ read, ← none_pending]
  cases hp : p.pending with
  | none =>
      refine first ?_ (by simp only [add]; rw [hp])
      simp only [addValue, settled]
      rw [hp]
      rfl
  | some slot =>
      obtain ⟨waiting, texts⟩ := slot
      cases waiting with
      | values =>
          have settled' : ({ p with pending := none } : Progress).takeValues texts = .ok free := by
            simpa only [settle, hp] using settled
          simp only [add, addValue] at ok
          rw [hp] at ok
          obtain rfl := Except.ok.inj ok
          simp only [settle]
          rw [takeValues_append, settled']
          exact takeValues_singleton free read
      | flag f =>
          cases texts with
          | nil => rw [settle_of_waiting hp] at settled; cases settled
          | cons text texts =>
              refine first ?_ (by simp only [add]; rw [hp])
              simp only [addValue, settled]
              rw [hp]
              rfl

theorem takeAll_values {p free q : Progress} (settled : p.settle = .ok free)
    (none_pending : free.pending = none) {values : List (String × Float)}
    (read : ∀ v ∈ values, Literal.read v.1 = .ok v.2)
    (ok : p.takeAll false (values.map (·.1)) = .ok q) :
    q.options = { free.options with values := free.options.values ++ values.map (·.2) } := by
  induction values generalizing p free with
  | nil =>
      simp only [List.map_nil, takeAll, settled, Except.mapError_ok, Except.ok.injEq] at ok
      simp [ok]
  | cons v values ih =>
      have hv := read v List.mem_cons_self
      have hne : ¬ v.1 = "--" := fun h => not_dashes_of_read hv [] (congrArg String.toList h)
      simp only [List.map_cons, takeAll, Bool.false_eq_true, if_false, beq_iff_eq, hne] at ok
      obtain ⟨p', htake, ok⟩ := Except.bind_eq_ok_iff.mp ok
      rw [ih (settle_of_add settled none_pending hv (take_number hv htake)) none_pending
        (fun v' hv' => read v' (List.mem_cons_of_mem _ hv')) ok]
      simp

theorem check_eq_ok {p : Progress} {o : Options} (h : p.check = .ok o) : o = p.options := by
  simp only [check] at h
  split at h
  · cases h
  · rename_i f _
    generalize (if f == Flag.rule then Flag.file else Flag.rule) = other at h
    split at h
    · cases h
    · exact (Except.ok.inj h).symm

end Progress

/-- Arguments that name a file, override numbers and give metric values. -/
def fileArguments (path : String) (overrides values : List String) : List String :=
  "--file" :: path :: (overrides.flatMap (fun s => ["--global", s]) ++ values)

theorem ofArguments_fileArguments {path : String} (path_ne : path ≠ "")
    {overrides : List (String × (String × Float))} {values : List (String × Float)}
    (overrides_read : ∀ e ∈ overrides, readOverride e.1 = .ok e.2)
    (values_read : ∀ v ∈ values, Literal.read v.1 = .ok v.2) {o : Options}
    (accepted :
      Options.ofArguments (fileArguments path (overrides.map (·.1)) (values.map (·.1))) = .ok o) :
    o = ⟨none, none, some path, overrides.map (·.2), false, values.map (·.2)⟩ := by
  simp only [Options.ofArguments, fileArguments, List.flatMap_map] at accepted
  obtain ⟨q, hq, accepted⟩ := Except.bind_eq_ok_iff.mp accepted
  have hpath := Progress.takeAll_of_waiting rfl (Progress.takeAll_flag (f := .file) rfl rfl hq)
  have hsettle :
      ({ Progress.start with pending := some (.flag .file, [path]) } : Progress).settle =
        .ok (Progress.start.give .file { Progress.start.options with file := some path }) := by
    simp [Progress.settle, Progress.takeFlag, Progress.start, Progress.give, path_ne]
  obtain ⟨p', free, settled, none_pending, hoptions, hrest⟩ :=
    Progress.takeAll_overrides hsettle rfl overrides_read hpath
  have hvalues := Progress.takeAll_values settled none_pending values_read hrest
  rw [Progress.check_eq_ok (Except.mapError_eq_ok_iff.mp accepted), hvalues, hoptions]
  simp [Progress.give, Progress.start]

end Gauge.CommandLine
