import Gauge.Json.Reader
import Gauge.Proofs.Numeral.Arithmetic
import Gauge.Proofs.Numeral.Shortest

/-!
The double that is made of a decimal in steps: its digits are rounded, and then their product or their quotient
with a power of ten, which is rounded too. No finite number becomes an infinity on the way, and where digits and
power are doubles the result is the nearest double; elsewhere it may be off.
-/

namespace Gauge

open Binary64

/-- Digits that are a double as a whole number, with a power of ten that is one. -/
structure Decimal.IsExact (d : Decimal) : Prop where
  digits : ∃ n j, n ≤ 2 ^ 53 ∧ d.digits = n * 2 ^ j
  power : d.exponent.natAbs ≤ 22

namespace Json.Reader

def scaled (d : Decimal) : Float :=
  if d.exponent < 0 then scaleDown 4 d.digits.toUInt64.toFloat (-d.exponent).toNat
  else d.digits.toUInt64.toFloat * powerOfTen d.exponent.toNat

theorem assemble_eq (negative : Bool) {d : Decimal} (hpower : d.exponent ≤ maxPower)
    (hfinite : 0 ≤ d.exponent → (scaled d).isInf = false) :
    assemble negative d.digits d.exponent = pure (if negative then -scaled d else scaled d) := by
  simp only [assemble]
  by_cases hneg : d.exponent < 0
  · simp only [if_pos hneg, scaled, pure_bind]
  · have hinf := hfinite (by omega)
    simp only [scaled, if_neg hneg] at hinf ⊢
    rw [if_pos hpower, hinf]
    simp

/-! Powers of ten. -/

theorem isNearest_powerOfTen {k : Nat} (hk : k ≤ 308) : IsNearest (powerOfTen k) false (10 ^ k) := by
  have hten : 10 ^ k ≠ 0 := by positivity
  have hdyadic : powerOfTen k = Float.ofDyadic false (10 ^ k) 0 := by
    simp only [powerOfTen, Decimal.toFloat]
    rw [if_neg (by decide), if_neg (by omega), if_neg (by simp; omega), if_pos (by omega), Int.toNat_natCast,
      Nat.one_mul]
  have := isNearest_ofDyadic false hten (k := 0) (by omega) (by omega)
  rw [hdyadic]
  simpa using this

theorem powerOfTen_exact {k : Nat} (hk : k ≤ 22) :
    ∃ m e, (powerOfTen k).decode = .finite false m e ∧ m ≠ 0 ∧ (m * 2 ^ e : ℚ) = 10 ^ k := by
  have hfive : 5 ^ k ≤ 2 ^ 53 := (Nat.pow_le_pow_right (by decide) hk).trans (by decide)
  have hten : (10 : ℚ) ^ k = (5 ^ k : Nat) * 2 ^ k := by
    push_cast
    rw [← mul_pow]
    norm_num
  have hnearest := isNearest_powerOfTen (k := k) (by omega)
  rw [hten] at hnearest ⊢
  exact hnearest.exact (by positivity) hfive (by omega)

/-! Where nothing is lost. -/

theorem toNat_toUInt64 {n : Nat} (h : n < 2 ^ 64) : n.toUInt64.toNat = n := UInt64.toNat_ofNat_of_lt' h

theorem isNearest_digits {n : Nat} (hn : n ≠ 0) (h : n < 2 ^ 64) :
    IsNearest n.toUInt64.toFloat false n := by
  have := isNearest_toFloat (n := n.toUInt64) (by rwa [toNat_toUInt64 h])
  rwa [toNat_toUInt64 h] at this

theorem digits_exact {d : Decimal} (hd : d.IsExact) (hne : d.digits ≠ 0) (h : d.digits < 2 ^ 64) :
    ∃ m e, d.digits.toUInt64.toFloat.decode = .finite false m e ∧ m ≠ 0 ∧ (m * 2 ^ e : ℚ) = d.digits := by
  obtain ⟨n, j, hbits, hdigits⟩ := hd.digits
  have hnearest := isNearest_digits hne h
  have hn : n ≠ 0 := by
    rintro rfl
    simp_all
  have hj : j < 64 := by
    apply (Nat.pow_lt_pow_iff_right (a := 2) (by decide)).1
    calc 2 ^ j ≤ n * 2 ^ j := Nat.le_mul_of_pos_left _ (Nat.pos_of_ne_zero hn)
      _ < 2 ^ 64 := hdigits ▸ h
  rw [hdigits] at hnearest ⊢
  push_cast at hnearest ⊢
  exact hnearest.exact hn hbits (by omega)

/-- An exact decimal is made into the number whose rounding interval it is in. -/
theorem scaled_exact {d : Decimal} {m : Nat} {e : Int} (hc : Canonical m e) (hm : m ≠ 0)
    (hv : InRoundingInterval m e d.value) (hlt : d.digits < 2 ^ 64) (hd : d.IsExact) :
    (scaled d).decode = .finite false m e := by
  have hne := Decimal.digits_ne_zero hm hv
  obtain ⟨n, k, hdigits, hn, hvalue⟩ := digits_exact hd hne hlt
  have hpower := hd.power
  simp only [scaled]
  split
  · rename_i hneg
    obtain ⟨n', k', hten, hn', hvalue'⟩ := powerOfTen_exact (k := (-d.exponent).toNat) (by omega)
    have hscale : scaleDown 4 d.digits.toUInt64.toFloat (-d.exponent).toNat =
        d.digits.toUInt64.toFloat / powerOfTen (-d.exponent).toNat := by
      rw [scaleDown, if_pos (by simp only [maxPower]; omega)]
    have hnormal : (n' * 2 ^ k' : ℚ) ≤ n * 2 ^ k * 2 ^ 1020 := by
      rw [hvalue, hvalue']
      have hone : (1 : ℚ) ≤ d.digits := by exact_mod_cast Nat.one_le_iff_ne_zero.2 hne
      calc (10 : ℚ) ^ (-d.exponent).toNat ≤ 10 ^ 22 := pow_le_pow_right₀ (by norm_num) (by omega)
        _ ≤ 2 ^ 74 := by norm_num
        _ ≤ 2 ^ 1020 := pow_le_pow_right₀ (by norm_num) (by norm_num)
        _ ≤ d.digits * 2 ^ 1020 := le_mul_of_one_le_left (by positivity) hone
    have hquotient := isNearest_div hdigits hten hn hn' hnormal
    rw [hvalue, hvalue'] at hquotient
    rw [hscale]
    refine hquotient.decode_eq hc ?_
    have := Decimal.value_of_neg hneg
    rw [this] at hv
    simpa using hv
  · rename_i hpos
    obtain ⟨n', k', hten, hn', hvalue'⟩ := powerOfTen_exact (k := d.exponent.toNat) (by omega)
    have hproduct := isNearest_mul hdigits hten hn hn'
    rw [hvalue, hvalue'] at hproduct
    refine hproduct.decode_eq hc ?_
    have := Decimal.value_of_nonneg (d := d) (by omega)
    rw [this] at hv
    simpa using hv

/-! Where nothing becomes too large. -/

/-- Two factors that are rounded up each stay below the greatest number, if their product is a few units below it. -/
theorem product_lt {v p x y w : ℚ} (hv : 0 ≤ v) (hy : 0 ≤ y) (hw : 0 < w)
    (hvx : 2 ^ 53 * x ≤ (2 ^ 53 + 1) * v) (hpy : 2 ^ 53 * y ≤ (2 ^ 53 + 1) * p)
    (h : v * p ≤ (2 ^ 55 - 14) * w) : 2 * (x * y) < (2 ^ 54 - 1) * (4 * w) := by
  have hproduct := mul_le_mul hvx hpy (by positivity) (by positivity)
  linarith

theorem upper_le {m : Nat} {e : Int} (hc : Canonical m e) (h : e < 971 ∨ m ≤ 2 ^ 53 - 4) :
    ((Decimal.roundingInterval m e).2 * 2 ^ (e - 2) : ℚ) ≤ (2 ^ 55 - 14) * 2 ^ (969 : Int) := by
  obtain ⟨small, -, greatest, -⟩ := hc
  have hupper : ((Decimal.roundingInterval m e).2 : ℚ) = 4 * m + 2 := by
    simp [Decimal.roundingInterval]
  rw [hupper]
  rcases h with he | hm4
  · have hm : (4 * m + 2 : ℚ) ≤ 2 ^ 55 := by exact_mod_cast (show 4 * m + 2 ≤ 2 ^ 55 by omega)
    calc ((4 * m + 2) * 2 ^ (e - 2) : ℚ) ≤ 2 ^ 55 * 2 ^ (968 : Int) :=
          mul_le_mul hm (zpow_le_zpow_right₀ (by norm_num) (by omega)) (by positivity) (by positivity)
      _ ≤ (2 ^ 55 - 14) * (2 * 2 ^ (968 : Int)) := by
          have hp : (0 : ℚ) < 2 ^ (968 : Int) := by positivity
          generalize (2 : ℚ) ^ (968 : Int) = w at hp ⊢
          linarith
      _ = (2 ^ 55 - 14) * 2 ^ (969 : Int) := by
          rw [← zpow_one_add₀ (by norm_num)]
          rfl
  · have hm : (4 * m + 2 + 14 : ℚ) ≤ 2 ^ 55 := by
      exact_mod_cast (show 4 * m + 2 + 14 ≤ 2 ^ 55 by omega)
    exact mul_le_mul (by linarith) (zpow_le_zpow_right₀ (by norm_num) (by omega)) (by positivity) (by norm_num)

theorem ne_zero_of_error_le {n : Nat} {i : Int} {v : ℚ} (hv : 1 ≤ v)
    (h : (2 ^ 53 - 1) * v ≤ 2 ^ 53 * (n * 2 ^ i)) : n ≠ 0 := by
  rintro rfl
  rw [Nat.cast_zero, zero_mul, mul_zero] at h
  linarith

/-- No product is an infinity but for the greatest numbers, of which nothing is said here. -/
theorem isInf_scaled {d : Decimal} {m : Nat} {e : Int} (hc : Canonical m e) (hm : m ≠ 0)
    (hv : InRoundingInterval m e d.value) (hlt : d.digits < 2 ^ 64) (hpos : 0 ≤ d.exponent)
    (hgreatest : e < 971 ∨ m ≤ 2 ^ 53 - 4) : (scaled d).isInf = false := by
  have hne := Decimal.digits_ne_zero hm hv
  have hexponent := Decimal.exponent_le hc hne hv
  obtain ⟨k, hk⟩ : ∃ k : Nat, d.exponent = k := ⟨d.exponent.toNat, by omega⟩
  have hone : (1 : ℚ) ≤ d.digits := by exact_mod_cast Nat.one_le_iff_ne_zero.2 hne
  have htiny : (2 : ℚ) ^ (-1022 : Int) ≤ 1 := zpow_le_one_of_nonpos₀ (by norm_num) (by norm_num)
  have hvalue : d.value = d.digits * 10 ^ k := by rw [Decimal.value, hk, zpow_natCast]
  have hbelow : (d.digits * 10 ^ k : ℚ) ≤ (2 ^ 55 - 14) * 2 ^ (969 : Int) := by
    rw [← hvalue]
    exact hv.upper.trans (upper_le hc hgreatest)
  have hgreat : (2 : ℚ) ^ (971 : Int) = 4 * 2 ^ (969 : Int) := by
    rw [show (971 : Int) = 2 + 969 from rfl, zpow_add₀ (by norm_num)]
    norm_num
  have hp : (0 : ℚ) < 2 ^ (969 : Int) := by positivity
  have hten : (1 : ℚ) ≤ 10 ^ k := one_le_pow₀ (by norm_num)
  have hsmall (v : ℚ) (hle : v ≤ d.digits * 10 ^ k) : 2 * v < (2 ^ 54 - 1) * 2 ^ (971 : Int) := by
    rw [hgreat]
    generalize (2 : ℚ) ^ (969 : Int) = w at hp hbelow ⊢
    linarith
  obtain ⟨n, i, hx, hxv⟩ := (isNearest_digits hne hlt).exists_decode
    (hsmall _ (le_mul_of_one_le_right (by positivity) hten))
  obtain ⟨n', i', hy, hyv⟩ := (isNearest_powerOfTen (k := k) (by omega)).exists_decode
    (hsmall _ (le_mul_of_one_le_left (by positivity) hone))
  obtain ⟨hx1, hx2⟩ := hxv (htiny.trans hone)
  obtain ⟨hy1, hy2⟩ := hyv (htiny.trans hten)
  have hn : n ≠ 0 := ne_zero_of_error_le hone hx1
  have hn' : n' ≠ 0 := ne_zero_of_error_le hten hy1
  have hproduct := isNearest_mul hx hy hn hn'
  obtain ⟨r, l, hr, -⟩ := hproduct.exists_decode (by
    rw [hgreat]
    exact product_lt (by positivity) (by positivity) hp hx2 hy2 hbelow)
  rw [scaled, if_neg (by omega), hk]
  exact isInf_eq_false hr

end Json.Reader

end Gauge
