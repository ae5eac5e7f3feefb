import Gauge.Numeral.Shortest
import Mathlib

/-!
Doubles and the exact values they stand for. The bits of a number determine it and are determined by
its decoding; a value in the rounding interval of a number is rounded to its bits.
-/

open Float.Model Float.Model.UnpackedFloat

namespace Gauge.Binary64

/-! Bits. -/

theorem toNat_unpackMantissa (b : BitVec 64) :
    (@unpackMantissa Format.binary64 b).toNat = b.toNat % 2 ^ 52 := by
  simp [unpackMantissa]

theorem toNat_unpackExponent (b : BitVec 64) :
    (@unpackExponent Format.binary64 b).toNat = b.toNat / 2 ^ 52 % 2 ^ 11 := by
  simp [unpackExponent, Nat.shiftRight_eq_div_pow]

/-- The bit of the sign. -/
def signBit (negative : Bool) : UInt64 := if negative then 0x8000000000000000 else 0

/-- The bits of a finite number but for its sign. -/
def place (m : Nat) (e : Int) : Nat := (e + 1074).toNat * 2 ^ 52 + m

/-- Significands and exponents as they are decoded. -/
structure Canonical (m : Nat) (e : Int) : Prop where
  significand_lt : m < 2 ^ 53
  le_exponent : -1074 ≤ e
  exponent_le : e ≤ 971
  leading : 2 ^ 52 ≤ m ∨ e = -1074

theorem place_lt {m : Nat} {e : Int} (h : Canonical m e) : place m e < 0x7ff * 2 ^ 52 := by
  obtain ⟨_, _, _, _⟩ := h
  simp only [place]
  omega

theorem toNat_signBit_or (negative : Bool) {n : Nat} (h : n < 2 ^ 63) :
    (signBit negative ||| UInt64.ofNat n).toNat = (if negative then 2 ^ 63 else 0) + n := by
  have hn : (UInt64.ofNat n).toNat = n := UInt64.toNat_ofNat_of_lt' (Nat.lt_trans h (by decide))
  rw [UInt64.toNat_or, hn]
  cases negative with
  | false => simp [signBit]
  | true =>
      have := Nat.shiftLeft_add_eq_or_of_lt h 1
      rw [Nat.shiftLeft_eq, Nat.one_mul] at this
      exact this.symm

theorem sign_toNat (b : UInt64) : (b >>> 63 == 1) = decide (2 ^ 63 ≤ b.toNat) := by
  have := b.toNat_lt
  rw [Bool.eq_iff_iff, beq_iff_eq, decide_eq_true_eq, ← UInt64.toNat_inj, UInt64.toNat_shiftRight]
  simp [Nat.shiftRight_eq_div_pow]
  omega

theorem exponent_toNat (b : UInt64) :
    ((b >>> 52) &&& 0x7ff).toNat = b.toNat / 2 ^ 52 % 2 ^ 11 := by
  rw [UInt64.toNat_and, UInt64.toNat_shiftRight]
  exact (Nat.and_two_pow_sub_one_eq_mod _ 11).trans (by simp [Nat.shiftRight_eq_div_pow])

theorem fraction_toNat (b : UInt64) : (b &&& 0xfffffffffffff).toNat = b.toNat % 2 ^ 52 := by
  rw [UInt64.toNat_and]
  exact Nat.and_two_pow_sub_one_eq_mod _ 52

theorem canonical_of_ofBits {b : UInt64} {negative : Bool} {m : Nat} {e : Int}
    (h : ofBits b = .finite negative m e) : Canonical m e := by
  simp only [ofBits, sign_toNat, exponent_toNat, fraction_toNat, beq_iff_eq] at h
  split at h
  · split at h <;> simp at h
  · split at h
    · simp only [finite.injEq] at h
      constructor <;> omega
    · simp only [finite.injEq] at h
      constructor <;> omega

theorem bits_of_finite {b : UInt64} {negative : Bool} {m : Nat} {e : Int}
    (h : ofBits b = .finite negative m e) : b = signBit negative ||| UInt64.ofNat (place m e) := by
  have hp := place_lt (canonical_of_ofBits h)
  rw [← UInt64.toNat_inj, toNat_signBit_or _ (by omega)]
  have := b.toNat_lt
  simp only [ofBits, sign_toNat, exponent_toNat, fraction_toNat, beq_iff_eq] at h
  simp only [place] at *
  split at h
  · split at h <;> simp at h
  · split at h
    · simp only [finite.injEq] at h
      obtain ⟨rfl, rfl, rfl⟩ := h
      simp only [decide_eq_true_eq]
      split <;> omega
    · simp only [finite.injEq] at h
      obtain ⟨rfl, rfl, rfl⟩ := h
      simp only [decide_eq_true_eq]
      split <;> omega

theorem bits_of_infinite {b : UInt64} {negative : Bool} (h : ofBits b = .infinite negative) :
    b = if negative then 0xfff0000000000000 else 0x7ff0000000000000 := by
  have := b.toNat_lt
  simp only [ofBits, sign_toNat, exponent_toNat, fraction_toNat, beq_iff_eq] at h
  split at h
  · split at h
    · simp only [infinite.injEq] at h
      subst h
      rw [← UInt64.toNat_inj]
      simp only [decide_eq_true_eq]
      split
      · show b.toNat = 0xfff0000000000000
        omega
      · show b.toNat = 0x7ff0000000000000
        omega
    · simp at h
  · split at h <;> simp at h

/-! Rounding. -/

/-- The multiple of `2 ^ q` nearest to `m · 2 ^ e`, an exact half going to the even one. -/
def units (m : Nat) (e q : Int) : Nat :=
  if q ≤ e then m * 2 ^ (e - q).toNat
  else
    let shift := (q - e).toNat
    let low := m % 2 ^ shift
    let high := m / 2 ^ shift
    let half := 2 ^ (shift - 1)
    if low > half || (low == half && high % 2 == 1) then high + 1 else high

theorem roundBits_eq_units (negative : Bool) {m : Nat} {e q : Int} (hm : m ≠ 0)
    (hq : max (Nat.log2 m + e - 52) (-1074) = q) :
    roundBits negative m e =
      if 0x7ff * 2 ^ 52 ≤ place (units m e q) q then signBit negative ||| 0x7ff0000000000000
      else signBit negative ||| UInt64.ofNat (place (units m e q) q) := by
  subst hq
  simp only [roundBits]
  rw [if_neg (by simpa using hm)]
  rfl

theorem zpow_eq_of_le {e q : Int} (h : q ≤ e) : (2 : ℚ) ^ e = 2 ^ (e - q).toNat * 2 ^ q := by
  rw [← zpow_natCast, ← zpow_add₀ (by norm_num)]
  congr 1
  omega

/-- A dyadic value is a multiple of every less power of two. -/
theorem dyadic_eq_of_le (m : Nat) {e q : Int} (h : q ≤ e) :
    (m * 2 ^ e : ℚ) = (m * 2 ^ (e - q).toNat : Nat) * 2 ^ q := by
  rw [zpow_eq_of_le h]
  push_cast
  ring

/-- Values of which `u` is the nearest multiple of `2 ^ q`, an end that is half-way being among them
if `u` is even. -/
structure NearestUnits (u : Nat) (q : Int) (v : ℚ) : Prop where
  lower : (2 * u - 1) * 2 ^ q ≤ 2 * v
  upper : 2 * v ≤ (2 * u + 1) * 2 ^ q
  strict : u % 2 = 1 → (2 * u - 1) * 2 ^ q < 2 * v ∧ 2 * v < (2 * u + 1) * 2 ^ q

theorem NearestUnits.unique {u u' : Nat} {q : Int} {v : ℚ} (h : NearestUnits u q v)
    (h' : NearestUnits u' q v) : u = u' := by
  have hq : (0 : ℚ) < 2 ^ q := by positivity
  have le {u u' : Nat} (h : NearestUnits u q v) (h' : NearestUnits u' q v) : u ≤ u' := by
    have hle : (2 * u - 1 : ℚ) ≤ 2 * u' + 1 := le_of_mul_le_mul_right (h.lower.trans h'.upper) hq
    have hle' : u ≤ u' + 1 := by
      have : (u : ℚ) ≤ u' + 1 := by linarith
      exact_mod_cast this
    refine Nat.le_of_lt_succ (lt_of_le_of_ne hle' ?_)
    rintro rfl
    -- both are half a step away, and one of them is odd
    have hmiddle := h.lower
    push_cast at hmiddle
    rcases Nat.mod_two_eq_zero_or_one u' with heven | hodd
    · have := (h.strict (by omega)).1
      push_cast at this
      have := h'.upper
      linarith
    · have := (h'.strict hodd).2
      linarith
  exact Nat.le_antisymm (le h h') (le h' h)

theorem half_of_units (m : Nat) {half u : Nat} (hpos : 0 < half)
    (hu : (if m % (2 * half) > half ∨ (m % (2 * half) = half ∧ m / (2 * half) % 2 = 1) then
      m / (2 * half) + 1 else m / (2 * half)) = u) :
    (2 * u) * half ≤ m + half ∧ m ≤ (2 * u + 1) * half ∧
      (u % 2 = 1 → (2 * u) * half < m + half ∧ m < (2 * u + 1) * half) := by
  have hd := Nat.div_add_mod m (2 * half)
  have hr := Nat.mod_lt m (show 0 < 2 * half by omega)
  generalize m / (2 * half) = high at *
  generalize m % (2 * half) = rest at *
  rw [Nat.mul_assoc, Nat.mul_comm half] at hd
  simp only [Nat.add_mul, Nat.mul_assoc, Nat.one_mul]
  split at hu
  · subst hu
    rw [Nat.add_mul, Nat.one_mul]
    omega
  · subst hu
    omega

/-- The units of a value are nearest to it. -/
theorem nearestUnits_units (m : Nat) (e q : Int) : NearestUnits (units m e q) q (m * 2 ^ e) := by
  generalize hu : units m e q = u
  simp only [units] at hu
  split at hu
  · rename_i hqe
    have he := zpow_eq_of_le hqe
    have hpos : (0 : ℚ) < 2 ^ q := by positivity
    rw [he, ← hu]
    refine ⟨?_, ?_, fun _ => ⟨?_, ?_⟩⟩ <;> push_cast <;> linarith
  · rename_i hqe
    obtain ⟨s, hs⟩ : ∃ s, (q - e).toNat = s + 1 := ⟨(q - e).toNat - 1, by omega⟩
    have hq : (2 : ℚ) ^ q = 2 * 2 ^ s * 2 ^ e := by
      rw [← zpow_natCast, ← zpow_one_add₀ (by norm_num), ← zpow_add₀ (by norm_num)]
      congr 1
      omega
    have hpos : (0 : ℚ) < 2 * 2 ^ e := by positivity
    simp only [hs, Nat.add_sub_cancel, Bool.or_eq_true, Bool.and_eq_true, beq_iff_eq,
      decide_eq_true_eq, Nat.pow_succ, Nat.mul_comm _ 2] at hu
    obtain ⟨lower, upper, strict⟩ := half_of_units m (Nat.two_pow_pos s) hu
    have lower' : (2 * u * 2 ^ s : ℚ) ≤ m + 2 ^ s := by exact_mod_cast lower
    have upper' : (m : ℚ) ≤ (2 * u + 1) * 2 ^ s := by exact_mod_cast upper
    refine ⟨?_, ?_, fun hodd => ?_⟩ <;> rw [hq]
    · have := mul_le_mul_of_nonneg_right lower' hpos.le
      linarith
    · have := mul_le_mul_of_nonneg_right upper' hpos.le
      linarith
    · obtain ⟨h1, h2⟩ := strict hodd
      have h1' : (2 * u * 2 ^ s : ℚ) < m + 2 ^ s := by exact_mod_cast h1
      have h2' : (m : ℚ) < (2 * u + 1) * 2 ^ s := by exact_mod_cast h2
      constructor
      · have := mul_lt_mul_of_pos_right h1' hpos
        linarith
      · have := mul_lt_mul_of_pos_right h2' hpos
        linarith

theorem units_eq {m u : Nat} {e q : Int} (h : NearestUnits u q (m * 2 ^ e)) : units m e q = u :=
  (nearestUnits_units m e q).unique h

/-- Values that are rounded to `m · 2 ^ e`, the ends of their interval being among them if `m` is
even. -/
structure InRoundingInterval (m : Nat) (e : Int) (v : ℚ) : Prop where
  lower : (Decimal.roundingInterval m e).1 * 2 ^ (e - 2) ≤ v
  upper : v ≤ (Decimal.roundingInterval m e).2 * 2 ^ (e - 2)
  strict : m % 2 = 1 → (Decimal.roundingInterval m e).1 * 2 ^ (e - 2) < v ∧
    v < (Decimal.roundingInterval m e).2 * 2 ^ (e - 2)

/-- The exponent of a value: the value lies between two powers of two. -/
structure HasExponent (v : ℚ) (l : Int) : Prop where
  le : 2 ^ l ≤ v
  lt : v < 2 ^ (l + 1)

theorem hasExponent_log2 {n : Nat} (hn : n ≠ 0) (k : Int) :
    HasExponent (n * 2 ^ k) (Nat.log2 n + k) where
  le := by
    rw [zpow_add₀ (by norm_num), zpow_natCast]
    refine mul_le_mul_of_nonneg_right ?_ (by positivity)
    exact_mod_cast Nat.log2_self_le hn
  lt := by
    rw [add_right_comm, zpow_add₀ (by norm_num), ← Nat.cast_succ, zpow_natCast]
    refine mul_lt_mul_of_pos_right ?_ (by positivity)
    exact_mod_cast Nat.lt_log2_self

theorem HasExponent.le_of_zpow_le {v : ℚ} {l a : Int} (h : HasExponent v l) (ha : (2 : ℚ) ^ a ≤ v) :
    a ≤ l := by
  have := (zpow_lt_zpow_iff_right₀ (by norm_num : (1 : ℚ) < 2)).1 (ha.trans_lt h.lt)
  omega

theorem HasExponent.lt_of_lt_zpow {v : ℚ} {l b : Int} (h : HasExponent v l) (hb : v < (2 : ℚ) ^ b) :
    l < b :=
  (zpow_lt_zpow_iff_right₀ (by norm_num : (1 : ℚ) < 2)).1 (h.le.trans_lt hb)

theorem le_lower {m : Nat} {e : Int} (hm : m ≠ 0) :
    (2 ^ (-1 + e) : ℚ) ≤ (Decimal.roundingInterval m e).1 * 2 ^ (e - 2) := by
  rw [show -1 + e = 1 + (e - 2) by omega, zpow_add₀ (by norm_num), zpow_one]
  refine mul_le_mul_of_nonneg_right ?_ (by positivity)
  have : 2 ≤ (Decimal.roundingInterval m e).1 := by
    simp only [Decimal.roundingInterval]
    split <;> omega
  exact_mod_cast this

theorem InRoundingInterval.pos {m : Nat} {e : Int} {v : ℚ} (hm : m ≠ 0)
    (hv : InRoundingInterval m e v) : 0 < v :=
  lt_of_lt_of_le (by positivity) ((le_lower hm).trans hv.lower)

theorem le_log2 {m n : Nat} {e k : Int} (hm : m ≠ 0) (hn : n ≠ 0)
    (hv : InRoundingInterval m e (n * 2 ^ k)) : -1 + e ≤ Nat.log2 n + k :=
  (hasExponent_log2 hn k).le_of_zpow_le ((le_lower hm).trans hv.lower)

theorem upper_lt {m : Nat} {e : Int} (hc : Canonical m e) :
    ((Decimal.roundingInterval m e).2 * 2 ^ (e - 2) : ℚ) < 2 ^ (53 + e) := by
  rw [show 53 + e = (55 : Nat) + (e - 2) by omega, zpow_add₀ (by norm_num), zpow_natCast]
  refine mul_lt_mul_of_pos_right ?_ (by positivity)
  have := hc.significand_lt
  exact_mod_cast (show 4 * m + 2 < 2 ^ 55 by omega)

theorem log2_lt {m n : Nat} {e k : Int} (hc : Canonical m e) (hn : n ≠ 0)
    (hv : InRoundingInterval m e (n * 2 ^ k)) : Nat.log2 n + k < 53 + e :=
  (hasExponent_log2 hn k).lt_of_lt_zpow (lt_of_le_of_lt hv.upper (upper_lt hc))

theorem zpow_add_unit (i : Nat) (e : Int) : (2 : ℚ) ^ (i + (e - 2)) = 2 ^ i * 2 ^ (e - 2) := by
  rw [zpow_add₀ (by norm_num), zpow_natCast]

/-- A value below a power of two, which is rounded to it: the significand is the least of its
exponent. -/
theorem eq_of_below {m : Nat} {e : Int} {v : ℚ} (hv : InRoundingInterval m e v)
    (hc : Canonical m e) (hne : e ≠ -1074) (hbelow : v < 2 ^ (52 + e)) : m = 2 ^ 52 := by
  have hleading := hc.leading
  have hlow : ((Decimal.roundingInterval m e).1 : ℚ) < 2 ^ 54 := by
    refine lt_of_mul_lt_mul_right ?_ (show (0 : ℚ) ≤ 2 ^ (e - 2) by positivity)
    rw [← zpow_add_unit 54, show ((54 : Nat) : Int) + (e - 2) = 52 + e by omega]
    exact lt_of_le_of_lt hv.lower hbelow
  have hlow' : (Decimal.roundingInterval m e).1 < 2 ^ 54 := by exact_mod_cast hlow
  simp only [Decimal.roundingInterval] at hlow'
  split at hlow'
  · rename_i hleast
    simp only [Bool.and_eq_true, beq_iff_eq] at hleast
    exact hleast.1
  · omega

/-- Below a power of two the units are half as large, and there are twice as many. -/
theorem nearestUnits_of_below {v : ℚ} {e l : Int} (hl : HasExponent v l) (least : -1074 ≤ e)
    (hne : e ≠ -1074) (hv : InRoundingInterval (2 ^ 52) e v) (hbelow : v < 2 ^ (52 + e)) :
    ∃ u q, max (l - 52) (-1074) = q ∧ NearestUnits u q v ∧ place u q = place (2 ^ 52) e := by
  obtain ⟨lower, -, -⟩ := hv
  have hp : (0 : ℚ) < 2 ^ (e - 2) := by positivity
  have hint : Decimal.roundingInterval (2 ^ 52) e = (2 ^ 54 - 1, 2 ^ 54 + 2) := by
    simp only [Decimal.roundingInterval, beq_self_eq_true, Bool.true_and, decide_eq_true_eq,
      if_pos (show e > -1074 by omega)]
  rw [hint] at lower
  have hhalf : (2 : ℚ) ^ (e - 1) = 2 * 2 ^ (e - 2) := by
    rw [show e - 1 = (1 : Nat) + (e - 2) by omega, zpow_add_unit 1]
    norm_num
  have hlog2 := hl.lt_of_lt_zpow hbelow
  have hlog3 : 51 + e ≤ l := by
    apply hl.le_of_zpow_le
    rw [show 51 + e = (53 : Nat) + (e - 2) by omega, zpow_add_unit]
    refine le_trans (mul_le_mul_of_nonneg_right ?_ hp.le) lower
    norm_num
  refine ⟨2 ^ 53, e - 1, by omega, ⟨?_, ?_, fun h => absurd h (by decide)⟩, ?_⟩
  · rw [hhalf]
    norm_num at lower ⊢
    linarith
  · rw [hhalf]
    rw [show 52 + e = (54 : Nat) + (e - 2) by omega, zpow_add_unit] at hbelow
    norm_num at hbelow ⊢
    linarith
  · simp only [place]
    omega

theorem nearestUnits_of_not_below {m : Nat} {v : ℚ} {e l : Int} (hc : Canonical m e)
    (hl : HasExponent v l) (hv : InRoundingInterval m e v)
    (hlow : e ≠ -1074 → (2 ^ (52 + e) : ℚ) ≤ v) :
    max (l - 52) (-1074) = e ∧ NearestUnits m e v := by
  have hlog := hl.lt_of_lt_zpow (lt_of_le_of_lt hv.upper (upper_lt hc))
  have hlog2 : e ≠ -1074 → 52 + e ≤ l := fun hne => hl.le_of_zpow_le (hlow hne)
  have hp : (0 : ℚ) ≤ 2 ^ (e - 2) := by positivity
  obtain ⟨small, least, -, leading⟩ := hc
  obtain ⟨lower, upper, strict⟩ := hv
  have he : (2 : ℚ) ^ e = 4 * 2 ^ (e - 2) := by
    rw [show e = (2 : Nat) + (e - 2) by omega, zpow_add_unit 2]
    norm_num
  have hfirst : (4 * m - 2 : ℚ) ≤ (Decimal.roundingInterval m e).1 := by
    have : 4 * m ≤ (Decimal.roundingInterval m e).1 + 2 := by
      simp only [Decimal.roundingInterval]
      split <;> omega
    have : (4 * m : ℚ) ≤ (Decimal.roundingInterval m e).1 + 2 := by exact_mod_cast this
    linarith
  have hfirst' := mul_le_mul_of_nonneg_right hfirst hp
  have hlast : ((Decimal.roundingInterval m e).2 : ℚ) = 4 * m + 2 := by
    simp [Decimal.roundingInterval]
  rw [hlast] at upper strict
  refine ⟨by omega, ?_, ?_, fun hodd => ?_⟩
  · rw [he]
    linarith
  · rw [he]
    linarith
  · obtain ⟨h1, h2⟩ := strict hodd
    rw [he]
    constructor
    · linarith
    · linarith

/-- A value in the interval of a number is rounded to as many units as the number has, or, where it
lies below a power of two, to twice as many units of half the size. -/
theorem nearestUnits_of_inRoundingInterval {m : Nat} {v : ℚ} {e l : Int} (hc : Canonical m e)
    (hl : HasExponent v l) (hv : InRoundingInterval m e v) :
    ∃ u q, max (l - 52) (-1074) = q ∧ NearestUnits u q v ∧ place u q = place m e := by
  by_cases hbelow : v < 2 ^ (52 + e) ∧ e ≠ -1074
  · obtain ⟨hbelow, hne⟩ := hbelow
    obtain rfl := eq_of_below hv hc hne hbelow
    exact nearestUnits_of_below hl hc.le_exponent hne hv hbelow
  · obtain ⟨hq, hu⟩ := nearestUnits_of_not_below hc hl hv fun hne =>
      le_of_not_gt fun h => hbelow ⟨h, hne⟩
    exact ⟨m, e, hq, hu, rfl⟩

theorem roundBits_eq (negative : Bool) {m n : Nat} {e k : Int} (hc : Canonical m e) (hn : n ≠ 0)
    (hv : InRoundingInterval m e (n * 2 ^ k)) :
    roundBits negative n k = signBit negative ||| UInt64.ofNat (place m e) := by
  obtain ⟨u, q, hq, hu, hplace⟩ := nearestUnits_of_inRoundingInterval hc (hasExponent_log2 hn k) hv
  have hlt := place_lt hc
  rw [roundBits_eq_units negative hn hq, units_eq hu, hplace, if_neg (by omega)]

end Gauge.Binary64

namespace Float

open Gauge Gauge.Binary64

theorem eq_of_decode_nan {x : Float} (h : x.decode = .nan) :
    x = Float.ofBits 0x7ff8000000000000 := by
  suffices hb : x.toBits = 0x7ff8000000000000 by rw [← hb, ofBits_toBits]
  simp only [decode] at h
  simp only [Binary64.ofBits, sign_toNat, exponent_toNat,
    fraction_toNat, beq_iff_eq] at h
  split at h
  · rename_i hexp
    split at h
    · cases h
    · rename_i hfrac
      have he := toNat_unpackExponent x.toBits.toBitVec
      have hm := toNat_unpackMantissa x.toBits.toBitVec
      have := x.toModel.valid.eq_packedNaN (BitVec.eq_of_toNat_eq (he.trans hexp))
        (fun h0 => hfrac (hm.symm.trans (congrArg BitVec.toNat h0)))
      exact congrArg UInt64.ofBitVec this
  · split at h <;> cases h

theorem isFinite_of_decode {x : Float} {negative : Bool} {m : Nat} {e : Int}
    (h : x.decode = .finite negative m e) : x.isFinite = true := by
  simp only [decode] at h
  simp only [Binary64.ofBits, exponent_toNat, beq_iff_eq] at h
  have hexp : x.toBits.toNat / 2 ^ 52 % 2 ^ 11 ≠ 2047 := by
    intro h2
    rw [if_pos h2] at h
    split at h <;> cases h
  have hne : @unpackExponent Format.binary64 x.toBits.toBitVec ≠ -1#_ := fun h1 =>
    hexp ((toNat_unpackExponent _).symm.trans (congrArg BitVec.toNat h1))
  show (UnpackedFloat.unpack Format.binary64 x.toBits.toBitVec).isFinite = true
  simp only [UnpackedFloat.unpack]
  simp only [if_neg hne]
  split
  · split <;> rfl
  · rfl

theorem exists_decode_of_isFinite {x : Float} (h : x.isFinite = true) :
    ∃ negative m e, x.decode = .finite negative m e := by
  cases hx : x.decode with
  | nan =>
      rw [eq_of_decode_nan hx] at h
      cases h
  | infinite negative =>
      rw [← ofBits_toBits x, bits_of_infinite hx] at h
      cases negative <;> cases h
  | finite negative m e => exact ⟨negative, m, e, rfl⟩

/-- A number is what is rounded from any value of its interval. -/
theorem ofDyadic_eq {x : Float} {negative : Bool} {m n : Nat} {e k : Int}
    (h : x.decode = .finite negative m e) (hm : m ≠ 0)
    (hv : InRoundingInterval m e (n * 2 ^ k)) : Float.ofDyadic negative n k = x := by
  have hc := canonical_of_ofBits h
  have hn : n ≠ 0 := by
    rintro rfl
    simpa using hv.pos hm
  have hlow := le_log2 hm hn hv
  have hhigh := log2_lt hc hn hv
  have hleast := hc.le_exponent
  have hgreatest := hc.exponent_le
  simp only [Float.ofDyadic]
  rw [if_neg (by omega), min_eq_left (by omega), roundBits_eq negative hc hn hv,
    ← bits_of_finite h, ofBits_toBits]

theorem ofDyadic_zero {x : Float} {negative : Bool} {e : Int}
    (h : x.decode = .finite negative 0 e) : Float.ofDyadic negative 0 0 = x := by
  have hc := canonical_of_ofBits h
  obtain rfl : e = -1074 := by
    rcases hc.leading with hlead | he
    · omega
    · exact he
  have hb := bits_of_finite h
  rw [← ofBits_toBits x, hb]
  cases negative <;> rfl

theorem neg_infinity :
    -Float.ofBits 0x7ff0000000000000 = Float.ofBits 0xfff0000000000000 := rfl

end Float
