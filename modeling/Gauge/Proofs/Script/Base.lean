import Gauge.Proofs.Script.Session

/-!
What some of the functions give that every script has at hand, where no metatable has a say in it.
-/

namespace Gauge.Script.Base

variable (h : Heap)

theorem value_one (v : Value) (rest : Array Value) : Args.value (#[v] ++ rest) 1 = v := by
  simp [Args.value, Array.getElem?_append]

theorem getD_extract (values : Array Value) (i : Nat) :
    (values.extract i values.size).getD 0 .nil = values.getD i .nil := by
  by_cases hi : i < values.size
  · have hpos : 0 < values.size - i := by omega
    simp [hi, hpos]
  · simp [Array.getElem?_extract, hi]

theorem getD_of_size_le {values : Array Value} {i : Nat} (h : values.size ≤ i) : values.getD i .nil = .nil := by
  simp [h]

theorem select_count (rest : Array Value) :
    select (#[.ofString "#"] ++ rest) h = .done #[.ofNat rest.size] h := by
  have hsize : (#[.ofString "#"] ++ rest : Array Value).size - 1 = rest.size := by simp
  rw [select, hsize, value_one]
  rfl

/-- The values from a place on: the first of them is the one that is asked for, nil if there are fewer. -/
theorem select_integer {x : Float} {n : Int64} (hx : Numeral.float? x = some n) (hn : 1 ≤ n.toInt)
    (rest : Array Value) : ∃ values, select (#[.float x] ++ rest) h = .done values h ∧
      values.getD 0 .nil = rest.getD (n.toInt.toNat - 1) .nil := by
  have hsize : (#[.float x] ++ rest : Array Value).size = rest.size + 1 := by
    rw [Array.size_append]
    exact Nat.add_comm 1 rest.size
  have hinteger : Args.integer (#[.float x] ++ rest) 1 h = .done n h := by
    simp only [Args.integer, value_one, Value.toNumeral?, Numeral.toInt64?, hx]
    rfl
  let place : Int := if n.toInt > rest.size + 1 then rest.size + 1 else n.toInt
  have hplace : 1 ≤ place := by
    simp only [place]
    split <;> omega
  refine ⟨(#[.float x] ++ rest : Array Value).extract place.toNat (rest.size + 1), ?_, ?_⟩
  · simp only [select, hsize, value_one, Nat.add_sub_cancel, Bool.false_eq_true, if_false, Bind.bind, Native.bind,
      hinteger]
    rw [if_neg (show ¬ n.toInt < 0 by omega), if_neg (show ¬ place < 1 by omega)]
    rfl
  · have hfirst : (#[.float x] ++ rest : Array Value).getD place.toNat .nil = rest.getD (place.toNat - 1) .nil := by
      simp [Array.getElem?_append_right (show (#[Value.float x]).size ≤ place.toNat by simp; omega)]
    rw [← hsize, getD_extract, hfirst]
    simp only [place]
    split
    · rw [getD_of_size_le (by omega), getD_of_size_le (by omega)]
    · rfl

theorem ipairs_table (id : Nat) :
    ipairs #[.table id] h = .done #[.builtin (.base .ipairsNext), .table id, .int 0] h := rfl

/-- The next entry of a sequence, nil at its end. -/
theorem ipairsNext_table {h : Heap} {id : Nat} (hmeta : (h.table id).metatable = none) (i : Int64) :
    ipairsNext #[.table id, .int i] h =
      .done (if ((h.table id).get (.int (i + 1))).isNil then #[.nil]
        else #[.int (i + 1), (h.table id).get (.int (i + 1))]) h := by
  have hindex : Native.index (.table id) (.int (i + 1)) h = .done ((h.table id).get (.int (i + 1))) h :=
    Native.index_of_metatable_eq_none hmeta (.int (i + 1))
  have hinteger : Args.integer #[.table id, .int i] 2 h = .done i h := rfl
  have hvalue : Args.value #[.table id, .int i] 1 = .table id := rfl
  simp only [ipairsNext, Bind.bind, Native.bind, hinteger, hvalue, hindex]
  by_cases hnil : ((h.table id).get (.int (i + 1))).isNil = true
  · simp only [if_pos hnil]
    rfl
  · simp only [if_neg hnil]
    rfl

end Gauge.Script.Base
