import Gauge.Proofs.Numeral.Binary64

/-!
Arithmetic of doubles. A product, a quotient and a whole number are the doubles nearest to their exact values,
an exact half going to the even significand.
-/

open Float.Model Float.Model.UnpackedFloat

namespace Gauge.Binary64

/-! Significands with two more bits. -/

/-- `w` lies between a significand and the next one: the bits behind the point say on which side of the middle,
or that it is there or in the middle exactly. -/
def Holds (em : ExtendedMantissa) (w : ℚ) : Prop :=
  match em.roundBit, em.stickyBit with
  | false, false => w = em.mantissa
  | false, true => em.mantissa < w ∧ 2 * w < 2 * em.mantissa + 1
  | true, false => 2 * w = 2 * em.mantissa + 1
  | true, true => 2 * em.mantissa + 1 < 2 * w ∧ w < em.mantissa + 1

theorem holds_shiftRightOne {em : ExtendedMantissa} {w : ℚ} (h : Holds em w) :
    Holds em.shiftRightOne (w / 2) := by
  obtain ⟨m, r, s⟩ := em
  simp only [ExtendedMantissa.shiftRightOne]
  obtain ⟨k, hm | hm⟩ : ∃ k, m = 2 * k ∨ m = 2 * k + 1 := ⟨m / 2, by omega⟩
  · rw [show m / 2 = k by omega, show m % 2 = 0 by omega]
    subst hm
    cases r <;> cases s <;> simp only [Holds, bne_self_eq_false, Bool.or_false, Bool.or_true] at h ⊢ <;>
      push_cast at h
    · linarith
    all_goals constructor <;> linarith
  · rw [show m / 2 = k by omega, show m % 2 = 1 by omega]
    subst hm
    cases r <;> cases s <;> simp [Holds] at h ⊢
    · linarith
    all_goals constructor <;> linarith

theorem holds_shiftRight {em : ExtendedMantissa} {w : ℚ} (h : Holds em w) (k : Nat) :
    Holds (em >>> k) (w / 2 ^ k) := by
  induction k with
  | zero =>
      rw [pow_zero, div_one]
      exact h
  | succ k ih =>
      have := holds_shiftRightOne ih
      rw [div_div, ← pow_succ] at this
      exact this

theorem nearestUnits_roundedMantissa {em : ExtendedMantissa} {w : ℚ} (h : Holds em w) :
    NearestUnits em.roundedMantissa 0 w := by
  obtain ⟨m, r, s⟩ := em
  cases r <;> cases s <;> simp only [Holds] at h <;>
    simp only [ExtendedMantissa.roundedMantissa, ExtendedMantissa.accuracy, Accuracy.roundToNearestEven]
  case true.false =>
    rcases Nat.mod_two_eq_zero_or_one m with hm | hm <;> rw [hm] <;>
      refine ⟨?_, ?_, fun h => by omega⟩ <;> push_cast <;> linarith
  all_goals
    refine ⟨?_, ?_, fun _ => ⟨?_, ?_⟩⟩ <;> push_cast <;> linarith

theorem NearestUnits.mul_zpow {u : Nat} {w : ℚ} (h : NearestUnits u 0 w) (q : Int) :
    NearestUnits u q (w * 2 ^ q) := by
  obtain ⟨lower, upper, strict⟩ := h
  have hq : (0 : ℚ) < 2 ^ q := by positivity
  rw [zpow_zero, mul_one] at lower upper strict
  rw [mul_one] at strict
  refine ⟨?_, ?_, fun hodd => ⟨?_, ?_⟩⟩ <;> rw [← mul_assoc]
  · exact mul_le_mul_of_nonneg_right lower hq.le
  · exact mul_le_mul_of_nonneg_right upper hq.le
  · exact mul_lt_mul_of_pos_right (strict hodd).1 hq
  · exact mul_lt_mul_of_pos_right (strict hodd).2 hq

/-! Rounding. -/

def sign (negative : Bool) : Sign := if negative then .negative else .positive

/-- The bits of `u · 2 ^ q`, or of an infinity if that is too large. -/
def encode (negative : Bool) (u : Nat) (q : Int) : UInt64 :=
  if 0x7ff * 2 ^ 52 ≤ place u q then signBit negative ||| 0x7ff0000000000000
  else signBit negative ||| UInt64.ofNat (place u q)

/-- Units as they come out of rounding, the power of two above them included. -/
structure Settled (u : Nat) (q : Int) : Prop where
  le : u ≤ 2 ^ 53
  least : -1074 ≤ q
  leading : 2 ^ 52 ≤ u ∨ q = -1074

/-- The significand and the exponent of units. -/
def settle (s : Sign) (u : Nat) (q : Int) : UnpackedFloat :=
  if h : u = 0 then .zero s
  else if u < 2 ^ 53 then .finite s u q (Nat.pos_of_ne_zero h)
  else .finite s (2 ^ 52) (q + 1) (by decide)

theorem toNat_packComponents (negative : Bool) (exponent : BitVec 11) (mantissa : BitVec 52) :
    (UInt64.ofBitVec (packComponents Format.binary64 (sign negative) exponent mantissa)).toNat =
      (if negative then 2 ^ 63 else 0) + exponent.toNat * 2 ^ 52 + mantissa.toNat := by
  have hm := mantissa.isLt
  have he := exponent.isLt
  change ((sign negative).toBitVec ++ exponent ++ mantissa : BitVec 64).toNat = _
  rw [BitVec.toNat_append, ← Nat.shiftLeft_add_eq_or_of_lt hm, BitVec.toNat_append,
    ← Nat.shiftLeft_add_eq_or_of_lt he]
  simp only [Nat.shiftLeft_eq]
  cases negative <;> simp [sign, Sign.toBitVec]
  omega

theorem toNat_encode (negative : Bool) {u : Nat} {q : Int} :
    (encode negative u q).toNat =
      (if negative then 2 ^ 63 else 0) + min (place u q) (0x7ff * 2 ^ 52) := by
  simp only [encode]
  split
  · rename_i h
    rw [min_eq_right h]
    cases negative <;> rfl
  · rename_i h
    rw [toNat_signBit_or negative (by omega), min_eq_left (by omega)]

theorem pack_finite (negative : Bool) {m : Nat} {e : Int} (hm : 0 < m) (small : m < 2 ^ 53)
    (least : -1074 ≤ e) (leading : 2 ^ 52 ≤ m ∨ e = -1074) :
    UInt64.ofBitVec (UnpackedFloat.pack Format.binary64 (.finite (sign negative) m e hm)) =
      encode negative m e := by
  have hlog : m.log2 + 1 = 53 ↔ 2 ^ 52 ≤ m := by
    rw [← Nat.le_log2 hm.ne']
    have := (Nat.log2_lt hm.ne').2 small
    omega
  have hbiased : (e + (2 ^ (11 - 1) - 1 : Nat) + (52 : Nat)).toNat = (e + 1075).toNat := by
    congr 1
    norm_num
    omega
  rw [← UInt64.toNat_inj, toNat_encode]
  simp only [UnpackedFloat.pack, Format.exponentBias, Format.mantissaBits, place, hbiased]
  by_cases hlarge : 2 ^ 11 ≤ (e + 1075).toNat + 1
  · rw [if_pos hlarge, packedInfinity, toNat_packComponents]
    change _ + 2047 * 2 ^ 52 + 0 = _
    omega
  · rw [if_neg hlarge]
    by_cases hnormal : 2 ^ 52 ≤ m
    · rw [if_pos (by omega), toNat_packComponents, BitVec.toNat_ofNat, BitVec.toNat_ofNat]
      omega
    · rw [if_neg (by omega), toNat_packComponents, BitVec.toNat_ofNat, BitVec.toNat_ofNat]
      omega

theorem pack_settle (negative : Bool) {u : Nat} {q : Int} (h : Settled u q) :
    UInt64.ofBitVec (UnpackedFloat.pack Format.binary64 (settle (sign negative) u q)) =
      encode negative u q := by
  obtain ⟨le, least, leading⟩ := h
  simp only [settle]
  split
  · rename_i hu
    obtain rfl : q = -1074 := by omega
    subst hu
    rw [← UInt64.toNat_inj, toNat_encode]
    simp only [UnpackedFloat.pack, packedZero, toNat_packComponents]
    rfl
  · split
    · exact pack_finite negative _ ‹_› least leading
    · rw [pack_finite negative _ (by decide) (by omega) (.inl le_rfl), ← UInt64.toNat_inj, toNat_encode,
        toNat_encode]
      simp only [place]
      omega

theorem Holds.bounds {em : ExtendedMantissa} {w : ℚ} (h : Holds em w) :
    (em.mantissa : ℚ) ≤ w ∧ w < em.mantissa + 1 := by
  obtain ⟨m, r, s⟩ := em
  cases r <;> cases s <;> simp only [Holds] at h <;> constructor <;> linarith

theorem mantissa_ofMantissaAndAccuracy (a : Nat) (acc : Accuracy) :
    (ExtendedMantissa.ofMantissaAndAccuracy a acc).mantissa = a := by
  cases acc with
  | exact => rfl
  | inexact o => cases o <;> rfl

theorem hasExponent_of_holds {a : Nat} {acc : Accuracy} {w : ℚ}
    (h : Holds (ExtendedMantissa.ofMantissaAndAccuracy a acc) w) (ha : a ≠ 0) (e : Int) :
    HasExponent (w * 2 ^ e) (Nat.log2 a + e) := by
  obtain ⟨le, lt⟩ := h.bounds
  rw [mantissa_ofMantissaAndAccuracy] at le lt
  have hp : (0 : ℚ) < 2 ^ e := by positivity
  have hlt : (a + 1 : ℚ) ≤ 2 ^ (Nat.log2 a + 1) := by exact_mod_cast Nat.lt_log2_self (n := a)
  refine ⟨(hasExponent_log2 ha e).le.trans (mul_le_mul_of_nonneg_right le hp.le), ?_⟩
  rw [add_right_comm, zpow_add₀ (by norm_num), ← Nat.cast_succ, zpow_natCast]
  exact mul_lt_mul_of_pos_right (lt.trans_le hlt) hp

theorem settled_of_nearestUnits {u : Nat} {q l : Int} {v : ℚ} (hl : HasExponent v l)
    (hq : max (l - 52) (-1074) = q) (h : NearestUnits u q v) : Settled u q := by
  have hp : (0 : ℚ) < 2 ^ q := by positivity
  have htwo (k : Nat) : (2 : ℚ) ^ (k + q) = 2 ^ k * 2 ^ q := by
    rw [zpow_add₀ (by norm_num), zpow_natCast]
  refine ⟨?_, by omega, ?_⟩
  · have hv : v < 2 ^ 53 * 2 ^ q := by
      rw [← htwo]
      exact hl.lt.trans_le (zpow_le_zpow_right₀ (by norm_num) (by omega))
    have : (2 * u - 1 : ℚ) < 2 * 2 ^ 53 := by
      refine lt_of_mul_lt_mul_right ?_ hp.le
      have := h.lower
      linarith
    have : 2 * u < 2 * 2 ^ 53 + 1 := by
      have : (2 * u : ℚ) < 2 * 2 ^ 53 + 1 := by linarith
      exact_mod_cast this
    omega
  · refine or_iff_not_imp_right.mpr fun hne => ?_
    have hv : 2 ^ 52 * 2 ^ q ≤ v := by
      rw [← htwo]
      exact (zpow_le_zpow_right₀ (by norm_num) (by omega)).trans hl.le
    have : (2 * 2 ^ 52 : ℚ) ≤ 2 * u + 1 := by
      refine le_of_mul_le_mul_right ?_ hp
      have := h.upper
      linarith
    have : 2 * 2 ^ 52 ≤ 2 * u + 1 := by exact_mod_cast this
    omega

theorem targetExponent_eq (m : Nat) (e : Int) :
    Format.binary64.targetExponent (totalExponent m e) = max (Nat.log2 m + e - 52) (-1074) := by
  simp only [Format.targetExponent, totalExponent, Format.mantissaBits, Format.minExponent]
  norm_num
  omega

/-- Units that have come out of rounding are moved once at most. -/
theorem shiftToTargetExponent_settled {u : Nat} {q : Int} (h : Settled u q) :
    shiftToTargetExponent Format.binary64 u q .exact =
      if u < 2 ^ 53 then (⟨u, false, false⟩, q) else (⟨2 ^ 52, false, false⟩, q + 1) := by
  obtain ⟨le, least, leading⟩ := h
  rw [shiftToTargetExponent, targetExponent_eq]
  split
  · rename_i hlt
    have hlog : Nat.log2 u ≤ 52 := by
      by_cases hu : u = 0
      · subst hu
        decide
      · have := (Nat.log2_lt hu).2 hlt
        omega
    have hshift : (max (Nat.log2 u + q - 52) (-1074) - q).toNat = 0 := by omega
    simp only [shiftToExponent, hshift]
    rw [Int.natCast_zero, add_zero]
    rfl
  · obtain rfl : u = 2 ^ 53 := by omega
    have hshift : (max (Nat.log2 (2 ^ 53) + q - 52) (-1074) - q).toNat = 1 := by
      rw [Nat.log2_two_pow]
      omega
    simp only [shiftToExponent, hshift]
    rfl

theorem roundWithAccuracy_of_settled (s : Sign) {a : Nat} {e q : Int} {acc : Accuracy}
    {em : ExtendedMantissa} (first : shiftToTargetExponent Format.binary64 a e acc = (em, q))
    (h : Settled em.roundedMantissa q) :
    roundWithAccuracy Format.binary64 s a e acc = settle s em.roundedMantissa q := by
  have second := shiftToTargetExponent_settled h
  rw [settle]
  split
  · rename_i hzero
    rw [if_pos (by omega), hzero] at second
    simp only [roundWithAccuracy, first, hzero, second]
    rfl
  · split
    · rename_i hzero hsmall
      rw [if_pos hsmall] at second
      simp only [roundWithAccuracy, first, second, dif_neg hzero]
    · rename_i hsmall
      rw [if_neg hsmall] at second
      simp only [roundWithAccuracy, first, second]
      rfl

/-- Rounding settles on the units nearest to the exact value. -/
theorem roundWithAccuracy_eq (s : Sign) {a : Nat} {e q : Int} {acc : Accuracy} {w : ℚ}
    (holds : Holds (ExtendedMantissa.ofMantissaAndAccuracy a acc) w) (ha : a ≠ 0)
    (hq : max (Nat.log2 a + e - 52) (-1074) = q) (he : e ≤ q) :
    ∃ u, NearestUnits u q (w * 2 ^ e) ∧ Settled u q ∧
      roundWithAccuracy Format.binary64 s a e acc = settle s u q := by
  have hshift : e + ((q - e).toNat : Int) = q := by omega
  have hnearest := (nearestUnits_roundedMantissa (holds_shiftRight holds (q - e).toNat)).mul_zpow q
  have hvalue : w / 2 ^ (q - e).toNat * 2 ^ q = w * 2 ^ e := by
    nth_rewrite 2 [← hshift]
    rw [zpow_add₀ (by norm_num), zpow_natCast]
    field_simp
  rw [hvalue] at hnearest
  have hsettled := settled_of_nearestUnits (hasExponent_of_holds holds ha e) hq hnearest
  refine ⟨_, hnearest, hsettled, roundWithAccuracy_of_settled s ?_ hsettled⟩
  rw [shiftToTargetExponent, targetExponent_eq, hq]
  simp only [shiftToExponent, hshift]

end Gauge.Binary64
