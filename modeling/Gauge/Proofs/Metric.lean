import Gauge.Metric
import Gauge.Proofs.Json.Record

/-!
Metrics through JSON. Everything of a list of metrics comes back but for the values, which come back as what is made
of the decimals that are written for them.
-/

namespace Gauge

open Json.Reader

namespace Metric

/-- The metric with its value as it is read from its own text. -/
def reread (m : Metric) : Metric := { m with value := Json.Reader.reread m.value }

/-- The members of a metric as they are written. -/
def members (m : Metric) : List (String × String) :=
  [("element", Json.string m.element), ("name", Json.string m.name), ("value", Json.number m.value),
    ("timestamp", Json.int m.timestamp.toInt)]

theorem isRecord_members {m : Metric} (finite : m.value.isFinite = true) :
    IsRecord shape shape.blank (m.members.map fun f => (f.1, f.2.toList))
      ⟨some m.element, some m.name, some (Json.Reader.reread m.value), some m.timestamp⟩ := by
  obtain ⟨negative, n, e, hvalue⟩ := Float.exists_decode_of_isFinite finite
  refine .cons rfl rfl (fun rest _ => (takes_string _ m.element rest).bind_last (takes_pure _ rest)) ?_
  refine .cons rfl rfl (fun rest _ => (takes_string _ m.name rest).bind_last (takes_pure _ rest)) ?_
  refine .cons rfl rfl (fun rest hends => (takes_float hvalue hends).bind_last (takes_pure _ rest)) ?_
  refine .cons rfl rfl (fun rest hends => (takes_int64 m.timestamp hends).bind_last (takes_pure _ rest)) ?_
  exact .nil _

theorem toList_toJson (m : Metric) :
    m.toJson.toList =
      '\x7b' :: (joined true (m.members.map fun f => member f.1 f.2.toList) ++ ['\x7d']) :=
  toList_object m.members

theorem takes_reader {m : Metric} (finite : m.value.isFinite = true) (rest : List Char) :
    Takes reader m.toJson.toList m.reread rest := by
  have hread := takes_read (isRecord_members finite) (complete_of_isKnown (by simp [shape])) rest
  rw [List.map_map] at hread
  rw [toList_toJson]
  unfold reader
  exact hread.bind_last (takes_pure m.reread rest)

end Metric

namespace MetricList

theorem isList_samples {l : MetricList} (finite : ∀ m ∈ l.samples, m.value.isFinite = true) :
    IsList Metric.reader (l.samples.map fun m => (m.toJson.toList, m.reread)) := by
  constructor
  · intro x hx rest _
    obtain ⟨m, hm, hx⟩ := List.mem_map.1 hx
    rw [← hx]
    dsimp only
    exact Metric.takes_reader (finite m hm) rest
  · intro x hx
    obtain ⟨m, -, hx⟩ := List.mem_map.1 hx
    rw [← hx]
    simp only [m.toList_toJson, List.cons.injEq]
    exact ⟨'\x7b', _, ⟨rfl, rfl⟩, by decide, by decide⟩

/-- A list with finite values is always read from its own text: the same samples in the same order, each value being
what is made of the decimal written for it. This is the value itself where digits and power of ten are doubles. -/
theorem ofJson_toJson (l : MetricList) (finite : ∀ m ∈ l.samples, m.value.isFinite = true) :
    ofJson l.toJson = .ok ⟨l.samples.map Metric.reread⟩ ∧
      ∀ m ∈ l.samples, (written m.value).IsExact → m.reread = m := by
  constructor
  · have hlist := takes_list (isList_samples finite) []
    simp only [List.map_map, Function.comp_def] at hlist
    have htext : l.toJson.toList =
        '[' :: (joined true (l.samples.map fun m => m.toJson.toList) ++ [']']) := by
      simp only [toJson, toList_array, List.map_map, Function.comp_def]
    have hwhole : Takes (list Metric.reader) l.toJson.toList (l.samples.map Metric.reread) [] := by
      rw [htext]
      exact hlist
    rw [ofJson, whole_eq hwhole]
    rfl
  · intro m hm hexact
    obtain ⟨negative, n, e, hvalue⟩ := Float.exists_decode_of_isFinite (finite m hm)
    rw [Metric.reread, reread_eq hvalue hexact]

theorem ofJson_toJson_sample :
    let l : MetricList := ⟨[⟨"cpu", "load \"1m\"\n", 0.1, -1⟩, ⟨"ü", "", -1e300, 0⟩]⟩
    (∀ m ∈ l.samples, m.value.isFinite = true) ∧
      ofJson l.toJson = .ok ⟨l.samples.map Metric.reread⟩ ∧
        ∀ m ∈ l.samples, (written m.value).IsExact → m.reread = m := by
  have finite : ∀ m ∈ [Metric.mk "cpu" "load \"1m\"\n" 0.1 (-1), Metric.mk "ü" "" (-1e300) 0],
      m.value.isFinite = true := by decide +kernel
  exact ⟨finite, ofJson_toJson _ finite⟩

/-- A value of sixteen digits, which is written with a seventeenth behind the point, is read as its neighbour. -/
theorem ofJson_toJson_ne :
    let l : MetricList := ⟨[⟨"e", "n", 9007199254740991.0, 0⟩]⟩
    (∀ m ∈ l.samples, m.value.isFinite = true) ∧ ofJson l.toJson ≠ .ok l := by
  refine ⟨by decide +kernel, fun h => ?_⟩
  have hbits := congrArg (fun r => r.toOption.map fun l => l.values.map Float.toBits) h
  have hread : (ofJson (toJson ⟨[⟨"e", "n", 9007199254740991.0, 0⟩]⟩)).toOption.map
      (fun l => l.values.map Float.toBits) = some [0x433ffffffffffffe] := by decide +kernel
  have hvalue : (Except.ok (ε := Json.Error) (MetricList.mk [⟨"e", "n", 9007199254740991.0, 0⟩])).toOption.map
      (fun l => l.values.map Float.toBits) = some [0x433fffffffffffff] := by decide +kernel
  rw [hread, hvalue] at hbits
  exact absurd hbits (by decide)

end MetricList

end Gauge
