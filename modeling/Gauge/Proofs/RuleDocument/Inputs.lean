import Gauge.Proofs.Except
import Gauge.RuleDocument
import Mathlib

/-!
The values that a document takes from a list of metrics. Each name that it declares is looked up by itself, and the
last metric of that name decides; the first name that has none is what is missing. Lists that agree on the last
values of the declared names are the same to the document, whatever else they hold and in whatever order.
-/

namespace Gauge

namespace MetricList

/-- What is left of metrics pushed one after another. -/
def ofPushes (pushes : List Metric) : MetricList := pushes.foldl push empty

theorem samples_foldl_push (pushes : List Metric) (l : MetricList) :
    (pushes.foldl push l).samples = l.samples ++ pushes := by
  induction pushes generalizing l with
  | nil => exact (List.append_nil l.samples).symm
  | cons m pushes ih => rw [List.foldl_cons, ih, push, List.append_assoc, List.singleton_append]

theorem samples_ofPushes (pushes : List Metric) : (ofPushes pushes).samples = pushes :=
  samples_foldl_push pushes empty

def Measures (samples : List Metric) (name : String) : Prop := ∃ m ∈ samples, m.name = name

/-- The metric has the name, and none behind it has. -/
def IsLast (samples : List Metric) (name : String) (m : Metric) : Prop :=
  ∃ before after, samples = before ++ m :: after ∧ m.name = name ∧ ∀ m' ∈ after, m'.name ≠ name

section

variable {l : MetricList} {name : String}

/-- The search from the end stops at the last metric of the name. -/
theorem latest?_eq_some_iff {m : Metric} : l.latest? name = some m ↔ IsLast l.samples name m := by
  simp only [latest?, List.find?_eq_some_iff_append, beq_iff_eq, Bool.not_eq_true', beq_eq_false_iff_ne]
  constructor
  · rintro ⟨hname, after, before, hsamples, hafter⟩
    refine ⟨before.reverse, after.reverse, ?_, hname, fun m' hm' => hafter m' (List.mem_reverse.mp hm')⟩
    rw [← List.reverse_inj, hsamples]
    simp
  · rintro ⟨before, after, hsamples, hname, hafter⟩
    refine ⟨hname, after.reverse, before.reverse, ?_, fun m' hm' => hafter m' (List.mem_reverse.mp hm')⟩
    rw [hsamples]
    simp

theorem latest?_eq_none_iff : l.latest? name = none ↔ ¬ Measures l.samples name := by
  simp [latest?, Measures]

theorem measures_iff : Measures l.samples name ↔ ∃ m, IsLast l.samples name m := by
  simp only [← latest?_eq_some_iff, ← Option.isSome_iff_exists]
  rw [Option.isSome_iff_ne_none, ne_eq, latest?_eq_none_iff, not_not]

end

/-! Values of several names. -/

section

variable {l : MetricList} {names : List String}

theorem valuesFor_eq_ok_iff {v : List Float} :
    l.valuesFor names = .ok v ↔
      List.Forall₂ (fun name x => ∃ m, IsLast l.samples name m ∧ x = m.value) names v := by
  induction names generalizing v with
  | nil => simp [valuesFor, eq_comm]
  | cons name names ih =>
      rw [List.forall₂_cons_left_iff, valuesFor]
      simp only [← latest?_eq_some_iff] at ih ⊢
      cases l.latest? name with
      | none => simp
      | some m => simp [Except.map_eq_ok_iff, ih, @eq_comm _ v]

theorem exists_valuesFor_iff : (∃ v, l.valuesFor names = .ok v) ↔ ∀ name ∈ names, Measures l.samples name := by
  simp only [measures_iff, ← latest?_eq_some_iff]
  induction names with
  | nil => simp [valuesFor]
  | cons name names ih =>
      rw [List.forall_mem_cons, ← ih, valuesFor]
      cases l.latest? name with
      | none => simp
      | some m => simp [Except.map_eq_ok_iff]

theorem valuesFor_eq_error_iff {e : MissingMetric} :
    l.valuesFor names = .error e ↔ ∃ before after, names = before ++ e.name :: after ∧
      (∀ name ∈ before, Measures l.samples name) ∧ ¬ Measures l.samples e.name := by
  induction names with
  | nil => simp [valuesFor]
  | cons name names ih =>
      rw [valuesFor]
      cases hlatest : l.latest? name with
      | none =>
          have missing : ¬ Measures l.samples name := latest?_eq_none_iff.mp hlatest
          constructor
          · rintro ⟨⟩
            exact ⟨[], names, rfl, by simp, missing⟩
          · rintro ⟨before, after, hnames, hbefore, -⟩
            -- the name is the first to be missing, so that there is none before it
            cases before with
            | nil => cases hnames; rfl
            | cons first before =>
                obtain ⟨rfl, -⟩ := List.cons.inj hnames
                exact absurd (hbefore name List.mem_cons_self) missing
      | some m =>
          have measured : Measures l.samples name := measures_iff.mpr ⟨m, latest?_eq_some_iff.mp hlatest⟩
          rw [Except.map_eq_error_iff, ih]
          constructor
          · rintro ⟨before, after, rfl, hbefore, missing⟩
            exact ⟨name :: before, after, rfl, List.forall_mem_cons.mpr ⟨measured, hbefore⟩, missing⟩
          · rintro ⟨before, after, hnames, hbefore, missing⟩
            cases before with
            | nil =>
                obtain ⟨rfl, -⟩ := List.cons.inj hnames
                exact absurd measured missing
            | cons first before =>
                obtain ⟨rfl, rfl⟩ := List.cons.inj hnames
                exact ⟨before, after, rfl, (List.forall_mem_cons.mp hbefore).2, missing⟩

theorem valuesFor_congr {l' : MetricList}
    (same : ∀ name ∈ names, (l'.latest? name).map Metric.value = (l.latest? name).map Metric.value) :
    l'.valuesFor names = l.valuesFor names := by
  induction names with
  | nil => rfl
  | cons name names ih =>
      obtain ⟨hname, hnames⟩ := List.forall_mem_cons.mp same
      rw [valuesFor, valuesFor, ih hnames]
      cases h : l.latest? name with
      | none =>
          rw [h, Option.map_none, Option.map_eq_none_iff] at hname
          rw [hname]
      | some m =>
          rw [h, Option.map_some, Option.map_eq_some_iff] at hname
          obtain ⟨m', hm', hvalue⟩ := hname
          simp only [hm', hvalue]

end

/-- To the name both lists have the same last value, or none. -/
def SameLast (samples samples' : List Metric) (name : String) : Prop :=
  (∃ m m', IsLast samples name m ∧ IsLast samples' name m' ∧ m.value = m'.value) ∨
    (¬ Measures samples name ∧ ¬ Measures samples' name)

theorem SameLast.latest?_eq {l l' : MetricList} {name : String} (h : SameLast l.samples l'.samples name) :
    (l'.latest? name).map Metric.value = (l.latest? name).map Metric.value := by
  obtain ⟨m, m', hm, hm', hvalue⟩ | ⟨missing, missing'⟩ := h
  · rw [latest?_eq_some_iff.mpr hm, latest?_eq_some_iff.mpr hm', Option.map_some, Option.map_some, hvalue]
  · rw [latest?_eq_none_iff.mpr missing, latest?_eq_none_iff.mpr missing']

end MetricList

namespace RuleDocument

open MetricList

/-- A document finds its values if all of its names have been measured, each in the last metric of that name;
otherwise the first name that has not been measured is missing. Nothing else of a list of metrics matters. -/
theorem inputsFrom_latest (d : RuleDocument) (pushes : List Metric) :
    let l := ofPushes pushes
    ((∃ v, d.inputsFrom l = .ok v) ↔ ∀ name ∈ d.inputs, Measures pushes name) ∧
      (∀ v, d.inputsFrom l = .ok v → v.length = d.inputs.length ∧
        ∀ (i : Nat) (name : String), d.inputs[i]? = some name → ∃ m, IsLast pushes name m ∧ v[i]? = some m.value) ∧
      (∀ e, d.inputsFrom l = .error e ↔ ∃ before after, d.inputs = before ++ e.name :: after ∧
        (∀ name ∈ before, Measures pushes name) ∧ ¬ Measures pushes e.name) ∧
      ∀ pushes', (∀ name ∈ d.inputs, SameLast pushes pushes' name) →
        d.inputsFrom (ofPushes pushes') = d.inputsFrom l := by
  intro l
  have hsamples : l.samples = pushes := samples_ofPushes pushes
  refine ⟨?_, ?_, ?_, ?_⟩
  · rw [← hsamples]
    exact exists_valuesFor_iff
  · intro v hv
    have hvalues := valuesFor_eq_ok_iff.mp hv
    rw [hsamples] at hvalues
    refine ⟨hvalues.length_eq.symm, ?_⟩
    intro i name hname
    obtain ⟨hi, rfl⟩ := List.getElem?_eq_some_iff.mp hname
    obtain ⟨m, hm, hvalue⟩ := hvalues.get hi (hvalues.length_eq ▸ hi)
    exact ⟨m, hm, List.getElem?_eq_some_iff.mpr ⟨hvalues.length_eq ▸ hi, hvalue⟩⟩
  · intro e
    rw [← hsamples]
    exact valuesFor_eq_error_iff
  · intro pushes' same
    refine valuesFor_congr fun name hname => SameLast.latest?_eq ?_
    rw [hsamples, samples_ofPushes]
    exact same name hname

end RuleDocument

end Gauge
