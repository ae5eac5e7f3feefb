import Gauge.Proofs.Numeral.Binary64
import Mathlib.Tactic.FieldSimp

/-!
Decimals and the doubles they are rounded to. Division with a last bit for the rest keeps a value on
its side of the ends of a rounding interval, and the shortest decimal of a number lies in the number's
interval, so that it reads back.
-/

namespace Gauge

open Binary64

namespace Decimal

/-- The exact value of a decimal. -/
def value (d : Decimal) : ℚ := d.digits * 10 ^ d.exponent

theorem value_of_nonneg {d : Decimal} (h : 0 ≤ d.exponent) :
    d.value = (d.digits * 10 ^ d.exponent.toNat : Nat) * 2 ^ (0 : Int) := by
  simp only [value]
  rw [zpow_zero, mul_one]
  push_cast
  rw [← zpow_natCast, Int.toNat_of_nonneg h]

theorem value_of_neg {d : Decimal} (h : d.exponent < 0) :
    d.value = d.digits / (10 ^ (-d.exponent).toNat : Nat) := by
  simp only [value]
  push_cast
  rw [← zpow_natCast, Int.toNat_of_nonneg (by omega), zpow_neg, div_inv_eq_mul]

/-! Division with a last bit for the rest. -/

/-- Twice a quotient, and one more if the division leaves something over. -/
def stickyQuotient (a b : Nat) : Nat := 2 * (a / b) + if a % b = 0 then 0 else 1

theorem le_stickyQuotient_iff {a b c : Nat} (hb : 0 < b) :
    2 * c ≤ stickyQuotient a b ↔ c * b ≤ a := by
  rw [← Nat.le_div_iff_mul_le hb]
  simp only [stickyQuotient]
  split <;> omega

theorem stickyQuotient_le_iff {a b c : Nat} (hb : 0 < b) :
    stickyQuotient a b ≤ 2 * c ↔ a ≤ c * b := by
  have hd := Nat.div_add_mod a b
  have hr := Nat.mod_lt a hb
  simp only [stickyQuotient]
  constructor
  · intro h
    split at h
    · rename_i h0
      have := Nat.mul_le_mul_left b (show a / b ≤ c by omega)
      rw [Nat.mul_comm c]
      omega
    · have := Nat.mul_le_mul_left b (show a / b + 1 ≤ c by omega)
      rw [Nat.mul_comm c]
      rw [Nat.mul_add] at this
      omega
  · intro h
    split
    · have := Nat.div_le_of_le_mul (by rwa [Nat.mul_comm] at h : a ≤ b * c)
      omega
    · rename_i h0
      have : a / b < c := by
        rw [Nat.div_lt_iff_lt_mul hb]
        refine lt_of_le_of_ne h fun he => h0 ?_
        rw [he, Nat.mul_mod_left]
      omega

section

variable {digits unit s : Nat}

/-- A multiple of `2 ^ -s` is on one side of a quotient and of its digits to one place more. -/
theorem le_sticky_iff (hu : 0 < unit) (c : Nat) :
    (c * 2 ^ (-(s : Int)) : ℚ) ≤ stickyQuotient (digits * 2 ^ s) unit * 2 ^ (-(s : Int) - 1) ↔
      (c * 2 ^ (-(s : Int)) : ℚ) ≤ digits / unit := by
  have hu' : (0 : ℚ) < unit := by exact_mod_cast hu
  have hs : (0 : ℚ) < 2 ^ s := by positivity
  rw [zpow_sub_one₀ (by norm_num), zpow_neg, zpow_natCast, le_div_iff₀ hu']
  field_simp
  rw [mul_comm (c : ℚ) 2, mul_comm _ (digits : ℚ)]
  exact_mod_cast (le_stickyQuotient_iff hu : 2 * c ≤ stickyQuotient (digits * 2 ^ s) unit ↔ _)

theorem sticky_le_iff (hu : 0 < unit) (c : Nat) :
    (stickyQuotient (digits * 2 ^ s) unit * 2 ^ (-(s : Int) - 1) : ℚ) ≤ c * 2 ^ (-(s : Int)) ↔
      (digits / unit : ℚ) ≤ c * 2 ^ (-(s : Int)) := by
  have hu' : (0 : ℚ) < unit := by exact_mod_cast hu
  have hs : (0 : ℚ) < 2 ^ s := by positivity
  rw [zpow_sub_one₀ (by norm_num), zpow_neg, zpow_natCast, div_le_iff₀ hu']
  field_simp
  rw [mul_comm _ (digits : ℚ)]
  exact_mod_cast (stickyQuotient_le_iff hu : stickyQuotient (digits * 2 ^ s) unit ≤ 2 * c ↔ _)

/-- So is every dyadic value that is not finer. -/
theorem dyadic_le_sticky_iff (hu : 0 < unit) (c : Nat) {k : Int} (hk : -(s : Int) ≤ k) :
    (c * 2 ^ k : ℚ) ≤ stickyQuotient (digits * 2 ^ s) unit * 2 ^ (-(s : Int) - 1) ↔
      (c * 2 ^ k : ℚ) ≤ digits / unit := by
  rw [dyadic_eq_of_le c hk, le_sticky_iff hu]

theorem sticky_le_dyadic_iff (hu : 0 < unit) (c : Nat) {k : Int} (hk : -(s : Int) ≤ k) :
    (stickyQuotient (digits * 2 ^ s) unit * 2 ^ (-(s : Int) - 1) : ℚ) ≤ c * 2 ^ k ↔
      (digits / unit : ℚ) ≤ c * 2 ^ k := by
  rw [dyadic_eq_of_le c hk, sticky_le_iff hu]

theorem zpow_le_quotient (hu : 0 < unit) (hs : 2 ^ 69 * unit ≤ 2 ^ s) (hd : digits ≠ 0) :
    (2 : ℚ) ^ (69 - s : Int) ≤ digits / unit := by
  have hu' : (0 : ℚ) < unit := by exact_mod_cast hu
  rw [zpow_sub₀ (by norm_num), zpow_natCast, div_le_div_iff₀ (by positivity) hu']
  have := Nat.mul_le_mul_right (2 ^ s) (Nat.one_le_iff_ne_zero.2 hd)
  exact_mod_cast hs.trans (by rwa [one_mul] at this)

theorem inRoundingInterval_sticky {m : Nat} {e : Int} (hu : 0 < unit)
    (hs : 2 ^ 69 * unit ≤ 2 ^ s) (hd : digits ≠ 0) (hc : Canonical m e)
    (hv : InRoundingInterval m e (digits / unit)) :
    InRoundingInterval m e (stickyQuotient (digits * 2 ^ s) unit * 2 ^ (-(s : Int) - 1)) := by
  -- the quotient has so many digits that the ends of the interval are multiples of `2 ^ -s`
  have hfine : -(s : Int) ≤ e - 2 := by
    have := lt_of_le_of_lt ((zpow_le_quotient hu hs hd).trans hv.upper) (upper_lt hc)
    rw [zpow_lt_zpow_iff_right₀ (by norm_num)] at this
    omega
  obtain ⟨lower, upper, strict⟩ := hv
  refine ⟨(dyadic_le_sticky_iff hu _ hfine).2 lower, (sticky_le_dyadic_iff hu _ hfine).2 upper, ?_⟩
  rw [← not_le, ← not_le, sticky_le_dyadic_iff hu _ hfine, dyadic_le_sticky_iff hu _ hfine, not_le,
    not_le]
  exact strict

end

/-! Rounding. -/

theorem digits_ne_zero {m : Nat} {e : Int} {d : Decimal} (hm : m ≠ 0)
    (hv : InRoundingInterval m e d.value) : d.digits ≠ 0 := by
  intro h0
  have h1 := hv.pos hm
  rw [value, h0, Nat.cast_zero, zero_mul] at h1
  exact absurd h1 (lt_irrefl 0)

theorem two_zpow_le_ten_zpow : (2 : ℚ) ^ (1024 : Int) ≤ 10 ^ (309 : Int) := by
  calc (2 : ℚ) ^ (1024 : Int) = (2 ^ 256) ^ 4 := by
        rw [← pow_mul]
        rfl
    _ ≤ (116 * 10 ^ 75) ^ 4 := pow_le_pow_left₀ (by positivity) (by norm_num) 4
    _ = 116 ^ 4 * 10 ^ 300 := by rw [mul_pow, ← pow_mul]
    _ ≤ 10 ^ 9 * 10 ^ 300 := mul_le_mul_of_nonneg_right (by norm_num) (by positivity)
    _ = 10 ^ (309 : Int) := by
        rw [← pow_add]
        rfl

/-- A value in the interval of a number is not so large that its exponent decides alone. -/
theorem exponent_le {m : Nat} {e : Int} {d : Decimal} (hc : Canonical m e) (hd : d.digits ≠ 0)
    (hv : InRoundingInterval m e d.value) : d.exponent ≤ 308 := by
  have hone : (1 : ℚ) ≤ d.digits := by exact_mod_cast Nat.one_le_iff_ne_zero.2 hd
  have hgreatest := hc.exponent_le
  have hlt : (10 : ℚ) ^ d.exponent < 10 ^ (309 : Int) := by
    calc (10 : ℚ) ^ d.exponent ≤ d.value := le_mul_of_one_le_left (by positivity) hone
      _ < 2 ^ (53 + e) := hv.upper.trans_lt (upper_lt hc)
      _ ≤ 2 ^ (1024 : Int) := zpow_le_zpow_right₀ (by norm_num) (by omega)
      _ ≤ 10 ^ (309 : Int) := two_zpow_le_ten_zpow
  have := (zpow_lt_zpow_iff_right₀ (by norm_num : (1 : ℚ) < 10)).1 hlt
  omega

/-- A value whose exponent alone makes it small is below half of the least number. -/
theorem value_lt_of_exponent_lt {d : Decimal} (h : d.exponent < -400 - (Nat.log2 d.digits : Int)) :
    d.value < 2 ^ (-1075 : Int) := by
  have hlog : (d.digits : ℚ) < 10 ^ (Nat.log2 d.digits + 1 : Int) := by
    have h2 : d.digits < 10 ^ (Nat.log2 d.digits + 1) :=
      lt_of_lt_of_le Nat.lt_log2_self (Nat.pow_le_pow_left (by decide) _)
    exact_mod_cast h2
  have hexp : (10 : ℚ) ^ d.exponent ≤ 10 ^ (-400 - (Nat.log2 d.digits + 1) : Int) :=
    zpow_le_zpow_right₀ (by norm_num) (by omega)
  have hten : (10 : ℚ) ^ (-400 : Int) < 2 ^ (-1075 : Int) := by
    rw [zpow_neg, zpow_neg, inv_lt_inv₀ (by positivity) (by positivity)]
    calc (2 : ℚ) ^ (1075 : Int) = (2 ^ 215) ^ 5 := by
          rw [← pow_mul]
          rfl
      _ < (10 ^ 65) ^ 5 := pow_lt_pow_left₀ (by norm_num) (by positivity) (by decide)
      _ = 10 ^ (325 : Int) := by
          rw [← pow_mul]
          rfl
      _ ≤ 10 ^ (400 : Int) := zpow_le_zpow_right₀ (by norm_num) (by norm_num)
  calc d.value
      ≤ d.digits * 10 ^ (-400 - (Nat.log2 d.digits + 1) : Int) :=
        mul_le_mul_of_nonneg_left hexp (by positivity)
    _ < 10 ^ (Nat.log2 d.digits + 1 : Int) * 10 ^ (-400 - (Nat.log2 d.digits + 1) : Int) :=
        mul_lt_mul_of_pos_right hlog (by positivity)
    _ = 10 ^ (-400 : Int) := by
        rw [← zpow_add₀ (by norm_num)]
        congr 1
        omega
    _ < 2 ^ (-1075 : Int) := hten

/-- Nor is a value in the interval of a number so small. -/
theorem le_exponent {m : Nat} {e : Int} {d : Decimal} (hc : Canonical m e) (hm : m ≠ 0)
    (hv : InRoundingInterval m e d.value) : -400 - (Nat.log2 d.digits : Int) ≤ d.exponent := by
  by_contra h
  have hle : (2 : ℚ) ^ (-1075 : Int) ≤ 2 ^ (-1 + e) :=
    zpow_le_zpow_right₀ (by norm_num) (by have := hc.le_exponent; omega)
  have hge := (le_lower hm).trans hv.lower
  exact absurd (hle.trans hge) (value_lt_of_exponent_lt (by omega)).not_ge

theorem toFloat_of_nonneg (negative : Bool) {d : Decimal} (hd : d.digits ≠ 0) (hle : d.exponent ≤ 400)
    (hnonneg : 0 ≤ d.exponent) :
    d.toFloat negative = Float.ofDyadic negative (d.digits * 10 ^ d.exponent.toNat) 0 := by
  rw [toFloat]
  simp only []
  rw [if_neg (by simpa using hd), if_neg (by omega), if_neg (by omega), if_pos hnonneg]

theorem toFloat_of_neg (negative : Bool) {d : Decimal} (hd : d.digits ≠ 0)
    (hge : -400 - (Nat.log2 d.digits : Int) ≤ d.exponent) (hneg : d.exponent < 0) :
    ∃ s : Nat, 2 ^ 69 * 10 ^ (-d.exponent).toNat ≤ 2 ^ s ∧ d.toFloat negative =
      Float.ofDyadic negative (stickyQuotient (d.digits * 2 ^ s) (10 ^ (-d.exponent).toNat))
        (-(s : Int) - 1) := by
  have hlog := Nat.lt_log2_self (n := 10 ^ (-d.exponent).toNat)
  refine ⟨Nat.log2 (10 ^ (-d.exponent).toNat) + 70, ?_, ?_⟩
  · rw [Nat.add_comm _ 70, Nat.pow_add 2 70, show 2 ^ 70 = 2 ^ 69 * 2 from rfl, Nat.mul_assoc,
      ← Nat.pow_succ']
    exact Nat.mul_le_mul_left _ hlog.le
  · rw [toFloat]
    simp only []
    rw [if_neg (by simpa using hd), if_neg (by omega), if_neg (by omega), if_neg (by omega),
      Nat.shiftLeft_eq]
    simp [stickyQuotient]

/-- A decimal in the interval of a number is rounded to the number. -/
theorem toFloat_eq {x : Float} {negative : Bool} {m : Nat} {e : Int} {d : Decimal}
    (h : x.decode = .finite negative m e) (hm : m ≠ 0) (hv : InRoundingInterval m e d.value) :
    d.toFloat negative = x := by
  have hc := canonical_of_ofBits h
  have hd := digits_ne_zero hm hv
  have hle := exponent_le hc hd hv
  have hge := le_exponent hc hm hv
  rcases lt_or_ge d.exponent 0 with hneg | hnonneg
  · obtain ⟨s, hwide, hfloat⟩ := toFloat_of_neg negative hd hge hneg
    rw [hfloat]
    rw [value_of_neg hneg] at hv
    exact Float.ofDyadic_eq h hm (inRoundingInterval_sticky (by positivity) hwide hd hc hv)
  · rw [toFloat_of_nonneg negative hd (by omega) hnonneg]
    rw [value_of_nonneg hnonneg] at hv
    exact Float.ofDyadic_eq h hm hv

theorem toFloat_zero {x : Float} {negative : Bool} {e : Int} {d : Decimal}
    (h : x.decode = .finite negative 0 e) (hd : d.digits = 0) : d.toFloat negative = x := by
  rw [toFloat]
  simp only []
  rw [if_pos (by simpa using hd), Float.ofDyadic_zero h]

end Decimal

end Gauge
