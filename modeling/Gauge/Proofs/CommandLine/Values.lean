import Gauge.Proofs.CommandLine.File
import Gauge.Proofs.Numeral.Spelling

/-!
Metric values on the command line. Values stand among flags, so that one with a minus sign has to look like
a number to be told from a flag, and not all spellings of a number do: behind the sign there have to be a
digit first and, if there is a power of ten, a small mark and no second sign. Numbers that are taken are what
the rule is evaluated on, in their order; any other is refused as a flag that is not known.
-/

namespace Gauge.CommandLine

open Literal (Spelling Power)

/-- What is taken for a value and not for a flag. -/
def IsValue (s : String) : Prop := ∀ rest, s.toList = '-' :: rest → looksNumeric rest = true

theorem looksNumeric_dash (rest : List Char) : looksNumeric ('-' :: rest) = false := by
  simp [looksNumeric]

/-! Which spellings look like numbers. -/

/-- The spellings of a number that may stand behind a minus sign. -/
def IsTaken (n : Spelling) : Prop :=
  n.isNegative = true → n.whole ≠ [] ∧ ∀ p ∈ n.power, p.mark = 'e' ∧ p.sign = none

/-- What has to follow the mark of an exponent. -/
def digitsOnly (s : List Char) : Bool := !s.isEmpty && s.all Char.isDigit

theorem digitsOnly_power (p : Power) :
    digitsOnly (Literal.signText p.sign ++ p.digits) = true ↔ p.sign = none := by
  have hall : p.digits.all Char.isDigit = true := List.all_eq_true.mpr p.isDigit
  cases p.sign with
  | none => simp [digitsOnly, Literal.signText, hall, p.nonempty]
  | some sign => cases sign <;> simp [digitsOnly, Literal.signText, Literal.Sign.text]

theorem looksNumeric_magnitude (n : Spelling) :
    looksNumeric n.magnitude = true ↔
      n.whole ≠ [] ∧ ∀ p ∈ n.power, p.mark = 'e' ∧ p.sign = none := by
  obtain ⟨hwhole, htail⟩ := Literal.takeWhile_digits n.isDigit_whole n.stops_tail
  have ne := n.nonempty
  simp only [looksNumeric, Spelling.magnitude, hwhole, htail]
  cases hf : n.fraction with
  | none =>
      have hw : n.whole ≠ [] := by simpa [hf] using ne
      cases hp : n.power with
      | none => simp [Spelling.tail, hf, hp, hw]
      | some p =>
          have hpower := digitsOnly_power p
          rcases p.isMark with hm | hm <;>
            simp_all [Spelling.tail, Power.text, digitsOnly]
  | some digits =>
      have hdigits : ∀ c ∈ digits, c.isDigit = true := fun c hc =>
        n.isDigit c (List.mem_append_right _ (by simpa [hf] using hc))
      have ht : n.tail = '.' :: (digits ++ (n.power.map Power.text).getD []) := by
        simp [Spelling.tail, hf]
      obtain ⟨-, hrest⟩ := Literal.takeWhile_digits hdigits (Literal.stops_power n.power)
      by_cases hw : n.whole = []
      · simp [ht, hw]
      · simp only [ht, hrest]
        cases hp : n.power with
        | none => simp [hw]
        | some p =>
            have hpower := digitsOnly_power p
            rcases p.isMark with hm | hm <;> simp_all [Power.text, digitsOnly]

theorem isValue_text (n : Spelling) : IsValue n.text ↔ IsTaken n := by
  simp only [IsValue, n.toList_text_eq_dash_iff]
  constructor
  · exact fun h hnegative => (looksNumeric_magnitude n).mp (h _ ⟨hnegative, rfl⟩)
  · rintro h rest ⟨hnegative, rfl⟩
    exact (looksNumeric_magnitude n).mpr (h hnegative)

namespace Progress

variable {p q free : Progress} {s : String}

/-! One argument that is a value. -/

theorem take_of_isValue (h : IsValue s) (p : Progress) : p.take s = (p.add s).mapError .usage := by
  simp only [take]
  split
  · rename_i rest hs
    exact absurd (h _ hs) (by simp [looksNumeric_dash])
  · rename_i c rest hs
    rw [if_pos (h _ hs)]
  · rfl

theorem takeAll_cons_of_isValue (h : IsValue s) (p : Progress) (rest : List String) :
    p.takeAll false (s :: rest) = (p.add s).mapError .usage >>= fun p => p.takeAll false rest := by
  have hne : (s == "--") = false := by
    rw [beq_eq_false_iff_ne]
    rintro rfl
    exact absurd (h ['-'] rfl) (by simp [looksNumeric_dash])
  simp only [takeAll, hne, take_of_isValue h, Bool.false_eq_true, if_false]

/-- Where what waits can be settled, there is room for a value. -/
theorem add_of_settled (settled : p.settle = .ok free) (s : String) : ∃ q, p.add s = .ok q := by
  cases hp : p.pending with
  | none =>
      refine ⟨{ free with pending := some (.values, [s]) }, ?_⟩
      simp only [add, addValue, settled]
      rw [hp]
      rfl
  | some slot =>
      obtain ⟨waiting, texts⟩ := slot
      cases waiting with
      | values =>
          refine ⟨{ p with pending := some (.values, texts ++ [s]) }, ?_⟩
          simp only [add, addValue]
          rw [hp]
          rfl
      | flag f =>
          cases texts with
          | nil => rw [settle_of_waiting hp] at settled; cases settled
          | cons text texts =>
              refine ⟨{ free with pending := some (.values, [s]) }, ?_⟩
              simp only [add, addValue, settled]
              rw [hp]
              rfl

/-- Numbers that can be told from flags are taken as values, one after another. -/
theorem takeAll_numbers (settled : p.settle = .ok free) (none_pending : free.pending = none)
    {numbers : List Spelling} (taken : ∀ n ∈ numbers, IsTaken n) :
    p.takeAll false (numbers.map Spelling.text) =
      .ok { free with options :=
        { free.options with values := free.options.values ++ numbers.map Spelling.value } } := by
  induction numbers generalizing p free with
  | nil => simp [takeAll, settled, Except.mapError_ok]
  | cons n numbers ih =>
      obtain ⟨q, hq⟩ := add_of_settled settled n.text
      have hsettle := settle_of_add settled none_pending n.read_text hq
      rw [List.map_cons,
        takeAll_cons_of_isValue ((isValue_text n).mpr (taken n List.mem_cons_self)), hq, Except.mapError_ok]
      refine (ih hsettle none_pending fun n' hn' => taken n' (List.mem_cons_of_mem _ hn')).trans ?_
      simp

/-- A number that cannot be told from a flag is refused. -/
theorem take_number_refused {n : Spelling} (h : ¬ IsTaken n) (p : Progress) :
    ∃ shown, p.take n.text = .error (.usage (.unknown shown)) := by
  obtain ⟨hnegative, hlooks⟩ : n.isNegative = true ∧ looksNumeric n.magnitude = false := by
    rw [← isValue_text] at h
    simpa [IsValue, n.toList_text_eq_dash_iff] using h
  obtain ⟨c, rest, hmagnitude, hc⟩ := n.magnitude_eq_cons
  have htext : n.text.toList = '-' :: c :: rest :=
    (n.toList_text_eq_dash_iff _).mpr ⟨hnegative, hmagnitude⟩
  have hletter : letterFlag? c = none ∧ c ≠ '-' := by
    rcases hc with hc | rfl
    · have hne : c ≠ 'h' ∧ c ≠ 'V' ∧ c ≠ '-' := by
        refine ⟨?_, ?_, ?_⟩ <;> rintro rfl <;> cases hc
      simp [letterFlag?, hne]
    · decide
  refine ⟨String.ofList ['-', c], ?_⟩
  simp only [take]
  split
  · rename_i rest' hs
    rw [htext] at hs
    exact absurd (List.cons.inj (List.cons.inj hs).2).1 hletter.2
  · rename_i c' rest' hs
    rw [htext] at hs
    obtain ⟨rfl, rfl⟩ := List.cons.inj (List.cons.inj hs).2
    rw [← hmagnitude, hlooks, hletter.1]
    rfl
  · rename_i hs
    exact absurd htext (hs c rest)

theorem takeAll_numbers_refused (settled : p.settle = .ok free) (none_pending : free.pending = none)
    {numbers : List Spelling} (refused : ∃ n ∈ numbers, ¬ IsTaken n) :
    ∃ u, p.takeAll false (numbers.map Spelling.text) = .error (.usage u) := by
  induction numbers generalizing p free with
  | nil => simp at refused
  | cons n numbers ih =>
      by_cases hn : IsTaken n
      · obtain ⟨q, hq⟩ := add_of_settled settled n.text
        rw [List.map_cons, takeAll_cons_of_isValue ((isValue_text n).mpr hn), hq, Except.mapError_ok]
        exact ih (settle_of_add settled none_pending n.read_text hq) none_pending
          (by simpa [hn] using refused)
      · obtain ⟨shown, hshown⟩ := take_number_refused hn p
        have hne : (n.text == "--") = false := by
          rw [beq_eq_false_iff_ne]
          exact fun h => not_dashes_of_read n.read_text [] (congrArg String.toList h)
        exact ⟨.unknown shown, by simp [takeAll, hne, hshown, bind, Except.bind]⟩

/-! The path of the file. -/

theorem takeAll_file_of_isValue {path : String} (h : IsValue path) (rest : List String) :
    start.takeAll false ("--file" :: path :: rest) =
      ({ start with pending := some (.flag .file, [path]) } : Progress).takeAll false rest := by
  change ({ start with pending := some (.flag .file, []) } : Progress).takeAll false (path :: rest) = _
  rw [takeAll_cons_of_isValue h, add_of_waiting rfl]
  rfl

theorem take_refused {f : Flag} (h : p.pending = some (.flag f, [])) (hs : ¬ IsValue s) :
    ∃ u, p.take s = .error (.usage u) := by
  obtain ⟨rest, hrest, hlooks⟩ : ∃ rest, s.toList = '-' :: rest ∧ looksNumeric rest = false := by
    simpa [IsValue] using hs
  simp only [take]
  split
  · split
    · exact addFlag_of_waiting h _ _
    · exact ⟨_, rfl⟩
  · rename_i c rest' hs
    obtain rfl := (List.cons.inj (hrest.symm.trans hs)).2
    rw [if_neg (by simp [hlooks])]
    split
    · exact addFlag_of_waiting h _ _
    · exact ⟨_, rfl⟩
  · rename_i hother
    cases rest with
    | nil => simp [looksNumeric] at hlooks
    | cons c rest => exact absurd hrest (hother c rest)

/-- A path that is not taken for a value leaves the flag without one. -/
theorem takeAll_file_refused {path : String} (h : ¬ IsValue path) (rest : List String) :
    ∃ u, start.takeAll false ("--file" :: path :: rest) = .error (.usage u) := by
  change ∃ u, ({ start with pending := some (.flag .file, []) } : Progress).takeAll false
    (path :: rest) = .error (.usage u)
  simp only [takeAll, Bool.false_eq_true, if_false]
  split
  · exact takeAll_separated_of_waiting rfl rest
  · obtain ⟨u, hu⟩ := take_refused (f := .file) (p := { start with pending := some (.flag .file, []) }) rfl h
    exact ⟨u, by rw [hu]; rfl⟩

end Progress

theorem ofArguments_numbers {path : String} (path_ne : path ≠ "") (hpath : IsValue path)
    {numbers : List Spelling} (taken : ∀ n ∈ numbers, IsTaken n) :
    Options.ofArguments (fileArguments path [] (numbers.map Spelling.text)) =
      .ok ⟨none, none, some path, [], false, numbers.map Spelling.value⟩ := by
  have settled : ({ Progress.start with pending := some (.flag .file, [path]) } : Progress).settle =
      .ok (Progress.start.give .file { Progress.start.options with file := some path }) := by
    simp [Progress.settle, Progress.takeFlag, Progress.start, Progress.give, path_ne]
  simp only [Options.ofArguments, fileArguments, List.flatMap_nil, List.nil_append,
    Progress.takeAll_file_of_isValue hpath, Progress.takeAll_numbers settled rfl taken]
  rfl

theorem ofArguments_refused {path : String} (path_ne : path ≠ "") {numbers : List Spelling}
    (refused : ¬ (IsValue path ∧ ∀ n ∈ numbers, IsTaken n)) :
    ∃ u, Options.ofArguments (fileArguments path [] (numbers.map Spelling.text)) =
      .error (.usage u) := by
  simp only [Options.ofArguments, fileArguments, List.flatMap_nil, List.nil_append]
  by_cases hpath : IsValue path
  · have settled : ({ Progress.start with pending := some (.flag .file, [path]) } : Progress).settle =
        .ok (Progress.start.give .file { Progress.start.options with file := some path }) := by
      simp [Progress.settle, Progress.takeFlag, Progress.start, Progress.give, path_ne]
    obtain ⟨u, hu⟩ := Progress.takeAll_numbers_refused settled rfl
      (by simpa [hpath] using refused : ∃ n ∈ numbers, ¬ IsTaken n)
    exact ⟨u, by rw [Progress.takeAll_file_of_isValue hpath, hu]; rfl⟩
  · obtain ⟨u, hu⟩ := Progress.takeAll_file_refused hpath (numbers.map Spelling.text)
    exact ⟨u, by rw [hu]; rfl⟩

/-- A document that is evaluated on its own numbers. -/
theorem evaluate_of_toRule {d : RuleDocument} {r : Rule} (h : d.toRule = .ok r) {o : Options}
    (globals : o.globals = []) :
    evaluate d o =
      (((r.evaluate o.values).1.map fun x => (r.name, x)).mapError .rule,
        (r.evaluate o.values).2.transcript) := by
  have hafter : (r.evaluate o.values).2.name = r.name := by
    obtain ⟨result, status, heq, -⟩ := Rule.evaluate_eq r o.values
    rw [heq]
  simp only [evaluate, globals, RuleDocument.toRuleWith_eq_ok_iff.mp h, hafter]

/-- A document that loads has been run, and what was written then is what its rule has written. -/
theorem transcript_of_load {t : FileTree} {path : String} {d : RuleDocument} {before : Script.Transcript}
    (loads : RuleDocument.load t path = (.ok d, before)) :
    ∃ r, d.toRule = .ok r ∧ r.transcript = before ∧ before.exit = none := by
  simp only [RuleDocument.load] at loads
  split at loads
  · cases loads
  · split at loads
    · cases loads
    · obtain ⟨rfl, accepted⟩ := RuleDocument.check_eq_ok (congrArg Prod.fst loads)
      obtain ⟨r, hr⟩ := accepted.valid
      rw [RuleDocument.check_eq accepted.kind_eq accepted.id_ne, hr] at loads
      obtain rfl : r.transcript = before := congrArg Prod.snd loads
      exact ⟨r, RuleDocument.toRuleWith_eq_ok_iff.mpr hr, rfl, Rule.exit_of_prepare hr⟩

/-- Numbers behind the name of a file that loads are read as what is nearest to what they stand for. They are
refused as wrong usage exactly if the name or one of them is taken for a flag, and otherwise the rule is
evaluated on them, in their order. -/
theorem run_file_values (t : FileTree) (e : Environment) {path : String} {d : RuleDocument}
    {before : Script.Transcript} (loads : RuleDocument.load t path = (.ok d, before))
    (numbers : List Spelling) :
    let arguments := fileArguments path [] (numbers.map Spelling.text)
    let values := numbers.map Spelling.value
    (∀ n ∈ numbers, Literal.read n.text = .ok n.value) ∧
      ((∃ u, Options.ofArguments arguments = .error (.usage u)) ↔
        ¬ (IsValue path ∧ ∀ n ∈ numbers, IsTaken n)) ∧
      (IsValue path → (∀ n ∈ numbers, IsTaken n) → ∃ r, d.toRule = .ok r ∧
        run t e arguments = finish (before.append (r.evaluate values).2.transcript)
          (((r.evaluate values).1.map NumeralStyle.plain.write).mapError .rule) ∧
        (before.streams.output = ByteArray.empty →
          (r.evaluate values).2.transcript.streams.output = ByteArray.empty →
          ∀ x, ((run t e arguments).exitCode = 0 ∧
            (run t e arguments).output = (NumeralStyle.plain.write x ++ "\n").toUTF8) ↔
              (r.evaluate values).1 = .ok x)) := by
  intro arguments values
  have path_ne := path_ne_of_load loads
  refine ⟨fun n _ => n.read_text, ⟨?_, ofArguments_refused path_ne⟩, fun hpath taken => ?_⟩
  · rintro ⟨u, hu⟩ ⟨hpath, taken⟩
    rw [ofArguments_numbers path_ne hpath taken] at hu
    cases hu
  · obtain ⟨r, hr, -, running⟩ := transcript_of_load loads
    have accepted := ofArguments_numbers path_ne hpath taken
    have found : findDocument t (settings t e) ⟨none, none, some path, [], false, values⟩ =
        (.ok d, before) := findDocument_loaded rfl loads
    have concluded := (run_of_accepted accepted t e).trans (execute_of_found found)
    have evaluated := evaluate_of_toRule hr
      (rfl : (⟨none, none, some path, [], false, values⟩ : Options).globals = [])
    refine ⟨r, hr, ?_, fun silent_before silent x => ?_⟩
    · rw [concluded, conclude, evaluated]
      cases (r.evaluate values).1 <;> rfl
    · rw [concluded, conclude_prints_iff rfl running silent_before (by rw [evaluated]; exact silent)]
      constructor
      · rintro ⟨r', hr', hx⟩
        obtain rfl : r = r' := Except.ok.inj (hr.symm.trans hr')
        exact hx
      · exact fun hx => ⟨r, hr, hx⟩

/-- The numbers `-1.5e1`, `+.5` and `25.E-2`. -/
def sampleNumbers : List Spelling :=
  [⟨some .minus, ['1'], some ['5'], some ⟨'e', none, ['1'], .inl rfl, by simp, by simp⟩, by simp, by simp⟩,
    ⟨some .plus, [], some ['5'], none, by simp, by simp⟩,
    ⟨none, ['2', '5'], some [], some ⟨'E', some .minus, ['2'], .inr rfl, by simp, by simp⟩, by simp,
      by simp⟩]

set_option maxRecDepth 100000 in
/-- Numbers with signs, points and powers of ten. -/
theorem run_file_values_sample :
    let text := "apiVersion: v1\nkind: MetricRule\nmetadata: {id: a, name: a}\n" ++
      "code: |\n  function main(x, y, z) return x + y * z end\n"
    let t : FileTree := ⟨[(["a.yml"], .file text.toUTF8)]⟩
    let outcome := run t .empty (fileArguments "a.yml" [] (sampleNumbers.map Spelling.text))
    outcome.exitCode = 0 ∧ outcome.output = (NumeralStyle.plain.write (-14.875) ++ "\n").toUTF8 := by
  intro text t outcome
  have read : t.read "a.yml" = .ok text := FileTree.read_of_isName (by decide) rfl
  have found : ∃ d, RuleDocument.ofYaml text = .ok d ∧ d.Accepted ∧
      d.check.2.streams.output = ByteArray.empty ∧
      ∃ r, d.toRule = .ok r ∧ (r.evaluate (sampleNumbers.map Spelling.value)).2.transcript.streams.output =
        ByteArray.empty ∧ (r.evaluate (sampleNumbers.map Spelling.value)).1 = .ok (-14.875) := by
    decide +kernel
  obtain ⟨d, parsed, accepted, silent_before, r, hr, silent, answers⟩ := found
  have loads := (RuleDocument.load_eq_check read parsed).trans accepted.check
  obtain ⟨-, -, h⟩ := run_file_values t .empty loads sampleNumbers
  obtain ⟨r', hr', -, prints⟩ := h (by simp [IsValue]) (by simp [IsTaken, sampleNumbers, Spelling.isNegative])
  obtain rfl : r = r' := Except.ok.inj (hr.symm.trans hr')
  exact (prints silent_before silent _).mpr answers

/-- A negative number near zero is refused if its power of ten has a sign. -/
example : Options.ofArguments (fileArguments "a.yml" [] ["-1e-5"]) =
    .error (.usage (.unknown "-1")) := by
  cbv

end Gauge.CommandLine
