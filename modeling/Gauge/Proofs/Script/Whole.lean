import Gauge.Proofs.Numeral.Arithmetic
import Gauge.Script.Numeral

/-!
Whole numbers as integers and as floats of a script. As long as 53 bits are enough for a number, the one form can be
made into the other and back.
-/

namespace Gauge.Script.Numeral

open Binary64

theorem toInt?_of_decode {x : Float} {m n : Nat} {e : Int} (hx : x.decode = .finite false m e)
    (hvalue : (m * 2 ^ e : ℚ) = n) : x.toInt? = some (n : Int) := by
  simp only [Float.toInt?, hx]
  rcases le_or_gt 0 e with hpos | hneg
  · obtain ⟨k, rfl⟩ := Int.eq_ofNat_of_zero_le hpos
    have hn : m * 2 ^ k = n := by exact_mod_cast hvalue
    simp [hn]
  · obtain ⟨k, rfl⟩ : ∃ k : Nat, e = -(k : Int) := ⟨(-e).toNat, by omega⟩
    have hm : m = n * 2 ^ k := by
      rw [zpow_neg, zpow_natCast, mul_inv_eq_iff_eq_mul₀ (by positivity)] at hvalue
      exact_mod_cast hvalue
    rw [if_neg (not_le.2 hneg)]
    simp [hm]

theorem toInt?_toFloat {n : Nat} (h : n ≤ 2 ^ 53) : n.toUInt64.toFloat.toInt? = some (n : Int) := by
  by_cases hn : n = 0
  · subst hn
    decide +kernel
  · have hnat : n.toUInt64.toNat = n := UInt64.toNat_ofNat_of_lt' (h.trans_lt (by decide))
    have hnearest := isNearest_toFloat (n := n.toUInt64) (by rwa [hnat])
    rw [hnat] at hnearest
    obtain ⟨m, e, hdecode, -, hvalue⟩ := IsNearest.exact (k := 0) (by simpa using hnearest) hn h (by decide)
    exact toInt?_of_decode hdecode (by simpa using hvalue)

theorem float?_toFloat {n : Nat} (h : n ≤ 2 ^ 53) : float? n.toUInt64.toFloat = some (Int64.ofNat n) := by
  have hrange : (-(2 ^ 63) ≤ (n : Int) && (n : Int) < 2 ^ 63) = true := by
    rw [Bool.and_eq_true, decide_eq_true_eq, decide_eq_true_eq]
    omega
  rw [float?, toInt?_toFloat h]
  simp only [hrange, if_true, Int64.ofInt_eq_ofNat]

theorem ofInt64_ofNat {n : Nat} (h : n < 2 ^ 63) : ofInt64 (Int64.ofNat n) = n.toUInt64.toFloat := by
  have hneg : ¬ Int64.ofNat n < 0 := by
    rw [Int64.lt_iff_toInt_lt, Int64.toInt_ofNat_of_lt h]
    simp
  rw [ofInt64, if_neg hneg, Int64.toUInt64_ofNat']

end Gauge.Script.Numeral
