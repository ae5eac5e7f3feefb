import Gauge.Proofs.Numeral.Decimal

/-!
The shortest decimal of a number lies in the rounding interval of the number: a grid is taken only if
a point on it does, and the grid that is left in the end is fine enough.
-/

namespace Gauge.Decimal

open Binary64

theorem zpow_mul_pow_neg_toNat {b : ℚ} (hb : b ≠ 0) (k : Int) :
    b ^ k * b ^ (-k).toNat = b ^ k.toNat := by
  rw [← zpow_natCast, ← zpow_natCast, ← zpow_add₀ hb]
  congr 1
  omega

/-- What makes whole numbers of multiples of `2 ^ e` and of `10 ^ k`. -/
def scale (e k : Int) : ℚ := 2 ^ (-e).toNat * 10 ^ (-k).toNat

theorem scale_pos (e k : Int) : 0 < scale e k := by
  simp only [scale]
  positivity

theorem dyadic_mul_scale (a : Nat) (e k : Int) :
    a * 2 ^ e * scale e k = (a * (2 ^ e.toNat * 10 ^ (-k).toNat) : Nat) := by
  simp only [scale]
  push_cast
  rw [← zpow_mul_pow_neg_toNat (b := 2) (by norm_num) e]
  ring

theorem decimal_mul_scale (a : Nat) (e k : Int) :
    a * 10 ^ k * scale e k = (a * (2 ^ (-e).toNat * 10 ^ k.toNat) : Nat) := by
  simp only [scale]
  push_cast
  rw [← zpow_mul_pow_neg_toNat (b := 10) (by norm_num) k]
  ring

/-- Dyadic and decimal values compare as the whole numbers do that both become when they are scaled. -/
theorem dyadic_le_decimal_iff (a b : Nat) (e k : Int) :
    (a * 2 ^ e : ℚ) ≤ b * 10 ^ k ↔
      a * (2 ^ e.toNat * 10 ^ (-k).toNat) ≤ b * (2 ^ (-e).toNat * 10 ^ k.toNat) := by
  rw [← mul_le_mul_iff_of_pos_right (scale_pos e k), dyadic_mul_scale, decimal_mul_scale,
    Nat.cast_le]

theorem decimal_le_dyadic_iff (a b : Nat) (e k : Int) :
    (b * 10 ^ k : ℚ) ≤ a * 2 ^ e ↔
      b * (2 ^ (-e).toNat * 10 ^ k.toNat) ≤ a * (2 ^ e.toNat * 10 ^ (-k).toNat) := by
  rw [← mul_le_mul_iff_of_pos_right (scale_pos e k), dyadic_mul_scale, decimal_mul_scale,
    Nat.cast_le]

theorem value_normalize (fuel : Nat) (d : Decimal) : (normalize fuel d).value = d.value := by
  induction fuel generalizing d with
  | zero => rfl
  | succ fuel ih =>
      simp only [normalize]
      split
      · rename_i h
        simp only [Bool.and_eq_true, beq_iff_eq] at h
        rw [ih]
        have hd : (d.digits : ℚ) = (d.digits / 10 : Nat) * 10 := by
          exact_mod_cast (Nat.div_mul_cancel (Nat.dvd_of_mod_eq_zero h.2)).symm
        simp only [value]
        rw [hd, zpow_add_one₀ (by norm_num)]
        ring
      · rfl

/-- Whether a point of a grid may be taken. -/
def isInside (m : Nat) (e place : Int) (c : Nat) : Bool :=
  let (low, high) := roundingInterval m e
  let unit := 2 ^ (e - 2).toNat * 10 ^ (-place).toNat
  let den := 2 ^ (2 - e).toNat * 10 ^ place.toNat
  if m % 2 == 0 then low * unit ≤ c * den && c * den ≤ high * unit
  else low * unit < c * den && c * den < high * unit

theorem inRoundingInterval_of_isInside {m c : Nat} {e place : Int} (h : isInside m e place c = true) :
    InRoundingInterval m e (c * 10 ^ place) := by
  have hle (a : Nat) := dyadic_le_decimal_iff a c (e - 2) place
  have hge (a : Nat) := decimal_le_dyadic_iff a c (e - 2) place
  rw [neg_sub] at hle hge
  rw [isInside] at h
  simp only [] at h
  split at h
  · rename_i heven
    simp only [Bool.and_eq_true, decide_eq_true_eq] at h
    refine ⟨(hle _).2 h.1, (hge _).2 h.2, fun hodd => ?_⟩
    simp only [beq_iff_eq] at heven
    omega
  · simp only [Bool.and_eq_true, decide_eq_true_eq] at h
    refine ⟨(hle _).2 h.1.le, (hge _).2 h.2.le, fun _ => ⟨?_, ?_⟩⟩
    · rw [← not_le, hge]
      exact not_le.2 h.1
    · rw [← not_le, hle]
      exact not_le.2 h.2

/-- A point of a grid that is taken lies in the interval. -/
theorem isInside_of_onGrid? {tie : Tie} {m digits : Nat} {e place : Int}
    (h : onGrid? tie m e place = some digits) : isInside m e place digits = true := by
  rw [onGrid?] at h
  simp only [] at h
  split at h
  · cases h
  · rename_i hbelow _
    cases h
    exact hbelow
  · rename_i _ habove
    cases h
    exact habove
  · rename_i hbelow habove
    split at h
    · cases h
      exact hbelow
    · split at h
      · cases h
        exact habove
      · cases tie with
        | up =>
            cases h
            exact habove
        | even =>
            simp only [Option.some.injEq] at h
            subst h
            split
            · exact hbelow
            · exact habove

theorem ten_zpow_le_two_zpow_of_pow {k n : Int} (p q : Nat) (hq : q ≠ 0) (hk : q * k ≤ p * n)
    (h : ((10 ^ p : ℚ)) ^ n ≤ (2 ^ q) ^ n) : (10 ^ k : ℚ) ≤ 2 ^ n := by
  rw [← pow_le_pow_iff_left₀ (by positivity) (by positivity) hq]
  calc ((10 : ℚ) ^ k) ^ q = 10 ^ (q * k : Int) := by rw [mul_comm, zpow_mul, zpow_natCast]
    _ ≤ 10 ^ (p * n : Int) := zpow_le_zpow_right₀ (by norm_num) hk
    _ = (10 ^ p) ^ n := by rw [zpow_mul, zpow_natCast]
    _ ≤ (2 ^ q) ^ n := h
    _ = (2 ^ n) ^ q := by rw [← zpow_natCast, ← zpow_natCast, zpow_comm]

/-- Powers of ten and of two compare as their exponents do by a fraction near to `log10 2`: one
below it for great powers, one above it for small ones. -/
theorem ten_zpow_le_two_zpow {k n : Int} (hn : n ≤ 1100) (hn' : -1100 ≤ n)
    (h : 100000 * k ≤ 30103 * n) : (10 ^ (k - 1) : ℚ) ≤ 2 ^ n := by
  rcases Int.le_total 0 n with hpos | hneg
  · refine ten_zpow_le_two_zpow_of_pow 59 196 (by decide) (by omega) ?_
    exact zpow_le_zpow_left₀ hpos (by positivity) (by norm_num)
  · refine ten_zpow_le_two_zpow_of_pow 28 93 (by decide) (by omega) ?_
    rw [← neg_neg n, zpow_neg, zpow_neg (2 ^ 93 : ℚ),
      inv_le_inv₀ (by positivity) (by positivity)]
    exact zpow_le_zpow_left₀ (by omega) (by positivity) (by norm_num)

theorem floorLog10_le {m : Nat} {e : Int} (hc : Canonical m e) (hm : m ≠ 0) :
    (10 ^ floorLog10 m e : ℚ) ≤ m * 2 ^ e := by
  have hreached (k : Int) (h : m * 2 ^ e.toNat * 10 ^ (-k).toNat ≥ 10 ^ k.toNat * 2 ^ (-e).toNat) :
      (10 ^ k : ℚ) ≤ m * 2 ^ e := by
    have := (decimal_le_dyadic_iff m 1 e k).2 (by linarith)
    simpa using this
  simp only [floorLog10]
  simp only [decide_eq_true_eq]
  split
  · rename_i h
    exact hreached _ h
  · split
    · rename_i h
      exact hreached _ h
    · have hlog : Nat.log2 m < 53 := (Nat.log2_lt hm).2 hc.significand_lt
      have := hc.le_exponent
      have := hc.exponent_le
      refine le_trans (ten_zpow_le_two_zpow (by omega) (by omega) ?_) (hasExponent_log2 hm e).le
      rw [Int.fdiv_eq_ediv_of_nonneg _ (by decide)]
      omega

theorem halves_of_rounded (a b : Nat) (hb : 0 < b) :
    let q := if 2 * (a % b) > b || (2 * (a % b) == b && a / b % 2 == 1) then a / b + 1 else a / b
    2 * (q * b) ≤ 2 * a + b ∧ 2 * a ≤ 2 * (q * b) + b := by
  have hd := Nat.div_add_mod a b
  have hr := Nat.mod_lt a hb
  rw [Nat.mul_comm] at hd
  intro q
  simp only [q]
  split
  · rename_i h
    simp only [gt_iff_lt, Bool.or_eq_true, decide_eq_true_eq, Bool.and_eq_true, beq_iff_eq] at h
    rw [Nat.add_mul, Nat.one_mul]
    omega
  · rename_i h
    simp only [gt_iff_lt, Bool.or_eq_true, decide_eq_true_eq, Bool.and_eq_true, beq_iff_eq] at h
    omega

/-- The point on a grid nearest to a value is half a step away at most. -/
theorem onGrid_spec (m : Nat) (e place : Int) :
    (2 * (onGrid m e place * 10 ^ place) : ℚ) ≤ 2 * (m * 2 ^ e) + 10 ^ place ∧
      (2 * (m * 2 ^ e) : ℚ) ≤ 2 * (onGrid m e place * 10 ^ place) + 10 ^ place := by
  have h := halves_of_rounded (m * 2 ^ e.toNat * 10 ^ (-place).toNat)
    (2 ^ (-e).toNat * 10 ^ place.toNat) (by positivity)
  change 2 * (onGrid m e place * _) ≤ _ ∧ _ ≤ 2 * (onGrid m e place * _) + _ at h
  have hpoint := decimal_mul_scale (onGrid m e place) e place
  have hvalue := dyadic_mul_scale m e place
  have hstep := decimal_mul_scale 1 e place
  rw [Nat.cast_one, one_mul, Nat.one_mul] at hstep
  rw [← Nat.mul_assoc m] at hvalue
  constructor
  · refine le_of_mul_le_mul_right ?_ (scale_pos e place)
    rw [add_mul, mul_assoc 2, mul_assoc 2, hpoint, hvalue, hstep]
    exact_mod_cast h.1
  · refine le_of_mul_le_mul_right ?_ (scale_pos e place)
    rw [add_mul, mul_assoc 2, mul_assoc 2, hpoint, hvalue, hstep]
    exact_mod_cast h.2

theorem inRoundingInterval_onGrid {m : Nat} {e place : Int} (hm : m ≠ 0)
    (h : (2 * 10 ^ place : ℚ) < 2 ^ e) : InRoundingInterval m e (onGrid m e place * 10 ^ place) := by
  obtain ⟨hupper, hlower⟩ := onGrid_spec m e place
  have he : (2 : ℚ) ^ e = 4 * 2 ^ (e - 2) := by
    rw [zpow_sub₀ (by norm_num)]
    norm_num
    ring
  have hp : (0 : ℚ) < 2 ^ (e - 2) := by positivity
  have hlow : ((Decimal.roundingInterval m e).1 : ℚ) ≤ 4 * m - 1 := by
    have : (Decimal.roundingInterval m e).1 + 1 ≤ 4 * m := by
      simp only [Decimal.roundingInterval]
      split <;> omega
    have : ((Decimal.roundingInterval m e).1 + 1 : ℚ) ≤ 4 * m := by exact_mod_cast this
    linarith
  have hhigh : ((Decimal.roundingInterval m e).2 : ℚ) = 4 * m + 2 := by
    simp [Decimal.roundingInterval]
  have hlow' := mul_le_mul_of_nonneg_right hlow hp.le
  rw [he] at h hupper hlower
  have h1 : (Decimal.roundingInterval m e).1 * 2 ^ (e - 2) < (onGrid m e place * 10 ^ place : ℚ) := by
    linarith
  have h2 : (onGrid m e place * 10 ^ place : ℚ) < (Decimal.roundingInterval m e).2 * 2 ^ (e - 2) := by
    rw [hhigh]
    linarith
  exact ⟨h1.le, h2.le, fun _ => ⟨h1, h2⟩⟩

theorem inRoundingInterval_searchGrids {tie : Tie} {m : Nat} {e : Int} (hm : m ≠ 0) (fuel : Nat)
    {place : Int} (h : (2 * 10 ^ (place - fuel) : ℚ) < 2 ^ e) :
    InRoundingInterval m e (searchGrids tie m e fuel place).value := by
  induction fuel generalizing place with
  | zero =>
      rw [Nat.cast_zero, sub_zero] at h
      exact inRoundingInterval_onGrid hm h
  | succ fuel ih =>
      simp only [searchGrids]
      split
      · rename_i digits hgrid
        rw [value_normalize]
        exact inRoundingInterval_of_isInside (isInside_of_onGrid? hgrid)
      · apply ih
        rwa [sub_sub, add_comm 1, ← Nat.cast_succ]

/-- The shortest decimal of a number reads back. -/
theorem inRoundingInterval_shortest (tie : Tie) {m : Nat} {e : Int} (hc : Canonical m e)
    (hm : m ≠ 0) : InRoundingInterval m e (shortest tie m e).value := by
  simp only [shortest]
  rw [if_neg (by simpa using hm)]
  apply inRoundingInterval_searchGrids hm
  have hten := floorLog10_le hc hm
  have hpos : (0 : ℚ) < 2 ^ e := by positivity
  have hm53 : (m : ℚ) < 2 ^ 53 := by exact_mod_cast hc.significand_lt
  rw [zpow_sub₀ (by norm_num), mul_div_assoc', div_lt_iff₀ (by positivity)]
  calc (2 * 10 ^ floorLog10 m e : ℚ)
      ≤ 2 * (m * 2 ^ e) := by linarith
    _ < 2 * (2 ^ 53 * 2 ^ e) := by
        have := mul_lt_mul_of_pos_right hm53 hpos
        linarith
    _ ≤ 2 ^ e * 10 ^ ((17 : Nat) : Int) := by
        rw [zpow_natCast]
        linarith

/-! How many digits there are. -/

theorem lt_floorLog10 {m : Nat} {e : Int} (hc : Canonical m e) (hm : m ≠ 0) :
    (m * 2 ^ e : ℚ) < 10 ^ (floorLog10 m e + 2) := by
  have hmissed (k : Int)
      (h : ¬ m * 2 ^ e.toNat * 10 ^ (-k).toNat ≥ 10 ^ k.toNat * 2 ^ (-e).toNat) :
      (m * 2 ^ e : ℚ) < 10 ^ (k + 1) := by
    have hlt : (m * 2 ^ e : ℚ) < (1 : Nat) * 10 ^ k := by
      rw [← not_le, decimal_le_dyadic_iff]
      intro hle
      apply h
      linarith
    rw [Nat.cast_one, one_mul] at hlt
    exact hlt.trans (zpow_lt_zpow_right₀ (by norm_num) (lt_add_one k))
  simp only [floorLog10]
  simp only [decide_eq_true_eq]
  split
  · have hlog : Nat.log2 m < 53 := (Nat.log2_lt hm).2 hc.significand_lt
    have := hc.le_exponent
    have := hc.exponent_le
    refine (hasExponent_log2 hm e).lt.trans_le ?_
    generalize hestimate : Int.fdiv ((Nat.log2 m + e) * 30103) 100000 = k
    rw [Int.fdiv_eq_ediv_of_nonneg _ (by decide)] at hestimate
    have hpow := ten_zpow_le_two_zpow (k := -(k + 2)) (n := -(Nat.log2 m + e + 1)) (by omega) (by omega)
      (by omega)
    rw [zpow_neg, show -(k + 2) - 1 = -(k + 1 + 2) by omega, zpow_neg] at hpow
    exact (inv_le_inv₀ (by positivity) (by positivity)).1 hpow
  · split
    · rename_i h _
      have := hmissed _ h
      rwa [add_assoc] at this
    · rename_i h
      refine (hmissed _ h).trans_le (zpow_le_zpow_right₀ (by norm_num) ?_)
      omega

theorem le_exponent_normalize (fuel : Nat) (d : Decimal) : d.exponent ≤ (normalize fuel d).exponent := by
  induction fuel generalizing d with
  | zero => exact le_rfl
  | succ fuel ih =>
      simp only [normalize]
      split
      · have := ih ⟨d.digits / 10, d.exponent + 1⟩
        simp only at this
        omega
      · exact le_rfl

theorem le_exponent_searchGrids (tie : Tie) (m : Nat) (e : Int) (fuel : Nat) (place : Int) :
    place - fuel ≤ (searchGrids tie m e fuel place).exponent := by
  induction fuel generalizing place with
  | zero => simp [searchGrids]
  | succ fuel ih =>
      simp only [searchGrids]
      split
      · rename_i digits _
        have := le_exponent_normalize 20 ⟨digits, place⟩
        simp only at this
        omega
      · have := ih (place - 1)
        omega

theorem le_exponent_shortest (tie : Tie) (m : Nat) (hm : m ≠ 0) (e : Int) :
    floorLog10 m e - 17 ≤ (shortest tie m e).exponent := by
  rw [shortest, if_neg (by simpa using hm)]
  exact le_exponent_searchGrids tie m e 17 (floorLog10 m e)

/-- The digits of a shortest decimal fit in 64 bits. -/
theorem digits_shortest_lt (tie : Tie) {m : Nat} {e : Int} (hc : Canonical m e) (hm : m ≠ 0) :
    (shortest tie m e).digits < 2 ^ 64 := by
  have hinside := inRoundingInterval_shortest tie hc hm
  have hplace := le_exponent_shortest tie m hm e
  generalize shortest tie m e = d at hinside hplace
  have hvalue : d.value ≤ 3 / 2 * (m * 2 ^ e) := by
    have hm1 : (1 : ℚ) ≤ m := by exact_mod_cast Nat.one_le_iff_ne_zero.2 hm
    have he : (2 : ℚ) ^ e = 4 * 2 ^ (e - 2) := by
      rw [zpow_sub₀ (by norm_num)]
      norm_num
      ring
    have hp : (0 : ℚ) < 2 ^ (e - 2) := by positivity
    have hle := mul_le_mul_of_nonneg_right hm1 hp.le
    have hupper := hinside.upper
    simp only [roundingInterval] at hupper
    push_cast at hupper
    rw [he]
    linarith
  have hlog := lt_floorLog10 hc hm
  have hpow : (10 : ℚ) ^ (floorLog10 m e + 2) ≤ 10 ^ 19 * 10 ^ d.exponent := by
    rw [← zpow_natCast, ← zpow_add₀ (by norm_num)]
    exact zpow_le_zpow_right₀ (by norm_num) (by omega)
  have hten : (0 : ℚ) < 10 ^ d.exponent := by positivity
  have hdigits : (d.digits : ℚ) < 3 / 2 * 10 ^ 19 := by
    refine lt_of_mul_lt_mul_right ?_ hten.le
    simp only [value] at hvalue
    linarith
  have : d.digits < 15 * 10 ^ 18 := by
    have : (d.digits : ℚ) < 15 * 10 ^ 18 := by linarith
    exact_mod_cast this
  omega

end Gauge.Decimal
