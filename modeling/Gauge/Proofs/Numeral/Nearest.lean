import Gauge.Proofs.Numeral.Arithmetic
import Gauge.Proofs.Numeral.Decimal

/-!
The double that a value is rounded to, told by what is near to the value and not by a way to find it: no double
is nearer, an even significand is taken where two are as near, and from half a step above the greatest number on
there are the infinities. There is one such double for each value, and a decimal is rounded to it.
-/

namespace Gauge

namespace Binary64

/-- Half a step above the greatest number. -/
def overflow : ℚ := (2 ^ 54 - 1) * 2 ^ (970 : Int)

/-- No double is nearer to `v` than `m · 2 ^ e` is, and `m` is even where another one is as near. -/
structure IsClosest (v : ℚ) (m : Nat) (e : Int) : Prop where
  nearest : ∀ (y : Float) (negative : Bool) (n : Nat) (k : Int), y.decode = .finite negative n k →
    |v - m * 2 ^ e| ≤ |v - n * 2 ^ k|
  even : ∀ (y : Float) (negative : Bool) (n : Nat) (k : Int), y.decode = .finite negative n k →
    |v - m * 2 ^ e| = |v - n * 2 ^ k| → (n * 2 ^ k : ℚ) ≠ m * 2 ^ e → m % 2 = 0

/-- The double is what `± v` is rounded to. -/
inductive RoundsTo (negative : Bool) (v : ℚ) (x : Float) : Prop where
  | finite {m : Nat} {e : Int} (decode : x.decode = .finite negative m e) (small : v < overflow)
      (closest : IsClosest v m e)
  | infinite (decode : x.decode = .infinite negative) (large : overflow ≤ v)

theorem two_mul_overflow : 2 * overflow = (2 ^ 54 - 1) * 2 ^ (971 : Int) := by
  rw [overflow, show (971 : Int) = 1 + 970 by rfl, zpow_add₀ (by norm_num) 1 970, zpow_one]
  ring

/-! Significands in their order. -/

theorem exists_decode (negative : Bool) {m : Nat} {e : Int} (h : Canonical m e) :
    ∃ x : Float, x.decode = .finite negative m e := by
  have hlt := place_lt h
  have settled : Settled m e := ⟨h.significand_lt.le, h.le_exponent, h.leading⟩
  refine ⟨Float.ofBits (encode negative m e), ?_⟩
  rw [Float.decode, toBits_ofBits_encode negative settled, encode, if_neg (by omega),
    ofBits_place negative h]

theorem lt_leading_of_exponent_lt {m : Nat} {e q : Int} (hm : Canonical m e) (h : e < q) :
    (m * 2 ^ e : ℚ) < (2 ^ 52 : Nat) * 2 ^ q := by
  have hsmall : (m : ℚ) < 2 ^ 53 := by exact_mod_cast hm.significand_lt
  calc (m * 2 ^ e : ℚ) < 2 ^ 53 * 2 ^ e := mul_lt_mul_of_pos_right hsmall (by positivity)
    _ = (2 ^ 52 : Nat) * 2 ^ (e + 1) := by
        rw [zpow_add_one₀ (by norm_num)]
        push_cast
        ring
    _ ≤ (2 ^ 52 : Nat) * 2 ^ q :=
        mul_le_mul_of_nonneg_left (zpow_le_zpow_right₀ (by norm_num) (by omega)) (by positivity)

section

variable {m n : Nat} {e k : Int} (hm : Canonical m e) (hn : Canonical n k)

include hm hn

/-- A greater exponent is that of a greater number. -/
theorem lt_of_exponent_lt (h : e < k) : (m * 2 ^ e : ℚ) < n * 2 ^ k := by
  have hlarge : 2 ^ 52 ≤ n := by
    have := hm.le_exponent
    exact hn.leading.resolve_right (by omega)
  refine (lt_leading_of_exponent_lt hm h).trans_le (mul_le_mul_of_nonneg_right ?_ (by positivity))
  exact_mod_cast hlarge

theorem canonical_inj (h : (m * 2 ^ e : ℚ) = n * 2 ^ k) : m = n ∧ e = k := by
  rcases lt_trichotomy e k with hlt | rfl | hgt
  · exact absurd h (lt_of_exponent_lt hm hn hlt).ne
  · have hp : (2 : ℚ) ^ e ≠ 0 := by positivity
    exact ⟨by exact_mod_cast mul_right_cancel₀ hp h, rfl⟩
  · exact absurd h (lt_of_exponent_lt hn hm hgt).ne'

/-- There is no number between a number and the next significand of its exponent. -/
theorem succ_le_of_lt (h : (m * 2 ^ e : ℚ) < n * 2 ^ k) : ((m + 1 : Nat) * 2 ^ e : ℚ) ≤ n * 2 ^ k := by
  rcases lt_or_ge k e with hlt | hge
  · exact absurd h (lt_of_exponent_lt hn hm hlt).le.not_gt
  · have hp : (0 : ℚ) < 2 ^ e := by positivity
    rw [dyadic_eq_of_le n hge] at h ⊢
    have hlt : m < n * 2 ^ (k - e).toNat := by exact_mod_cast lt_of_mul_lt_mul_right h hp.le
    exact mul_le_mul_of_nonneg_right (by exact_mod_cast hlt) hp.le

end

/-! One double for each value. -/

theorem abs_sub_lt_of_between {v a b c : ℚ} (h : |v - a| = |v - b|) (hac : a < c) (hcb : c < b) :
    |v - c| < |v - a| := by
  have hmiddle : v - a = b - v := by
    rcases abs_eq_abs.mp h with heq | heq
    · linarith
    · linarith
  rw [abs_of_pos (show 0 < v - a by linarith), abs_lt]
  constructor <;> linarith

/-- Of two significands that are closest neither is less: both were even, and the odd one between them nearer. -/
theorem IsClosest.not_lt {v : ℚ} {m n : Nat} {e k : Int} (h : IsClosest v m e) (h' : IsClosest v n k)
    (hm : Canonical m e) (hn : Canonical n k) : ¬ (m * 2 ^ e : ℚ) < n * 2 ^ k := by
  intro hlt
  obtain ⟨x, hx⟩ := exists_decode false hm
  obtain ⟨y, hy⟩ := exists_decode false hn
  have hequal := le_antisymm (h.nearest y _ _ _ hy) (h'.nearest x _ _ _ hx)
  have hmeven := h.even y _ _ _ hy hequal hlt.ne'
  have hneven := h'.even x _ _ _ hx hequal.symm hlt.ne
  have hnext : Canonical (m + 1) e := by
    obtain ⟨small, least, greatest, leading⟩ := hm
    exact ⟨by omega, least, greatest, by omega⟩
  have hne : ((m + 1 : Nat) * 2 ^ e : ℚ) ≠ n * 2 ^ k := by
    intro heq
    obtain ⟨rfl, -⟩ := canonical_inj hnext hn heq
    omega
  have hbefore : (m * 2 ^ e : ℚ) < (m + 1 : Nat) * 2 ^ e :=
    mul_lt_mul_of_pos_right (by exact_mod_cast Nat.lt_succ_self m) (by positivity)
  obtain ⟨z, hz⟩ := exists_decode false hnext
  exact absurd (h.nearest z _ _ _ hz)
    (abs_sub_lt_of_between hequal hbefore ((succ_le_of_lt hm hn hlt).lt_of_ne hne)).not_ge

theorem RoundsTo.unique {negative : Bool} {v : ℚ} {x y : Float} (hx : RoundsTo negative v x)
    (hy : RoundsTo negative v y) : x = y := by
  cases hx with
  | finite hx small closest =>
      cases hy with
      | finite hy _ closest' =>
          have hm := canonical_of_ofBits hx
          have hn := canonical_of_ofBits hy
          have hvalue := le_antisymm (not_lt.mp (closest'.not_lt closest hn hm))
            (not_lt.mp (closest.not_lt closest' hm hn))
          obtain ⟨rfl, rfl⟩ := canonical_inj hm hn hvalue
          exact eq_of_decode hx hy
      | infinite _ large => exact absurd small large.not_gt
  | infinite hx large =>
      cases hy with
      | finite _ small _ => exact absurd small large.not_gt
      | infinite hy _ => rw [← Float.ofBits_toBits x, ← Float.ofBits_toBits y, bits_of_infinite hx,
          bits_of_infinite hy]

/-! Units are closest. -/

namespace NearestUnits

variable {u : Nat} {q : Int} {v : ℚ} (h : NearestUnits u q v)

include h

theorem two_mul_abs_le : 2 * |v - u * 2 ^ q| ≤ 2 ^ q := by
  have hle : |v - u * 2 ^ q| ≤ 2 ^ q / 2 := by
    rw [abs_le]
    constructor
    · linarith [h.lower]
    · linarith [h.upper]
  linarith

theorem two_mul_abs_lt (odd : u % 2 = 1) : 2 * |v - u * 2 ^ q| < 2 ^ q := by
  have hlt : |v - u * 2 ^ q| < 2 ^ q / 2 := by
    rw [abs_lt]
    constructor
    · linarith [(h.strict odd).1]
    · linarith [(h.strict odd).2]
  linarith

/-- Other multiples of the unit are half a unit away at least. -/
theorem le_two_mul_abs {n : Nat} (hne : n ≠ u) : 2 ^ q ≤ 2 * |v - n * 2 ^ q| := by
  have hp : (0 : ℚ) < 2 ^ q := by positivity
  rcases lt_or_gt_of_ne hne with hlt | hgt
  · have hstep : (n + 1 : ℚ) * 2 ^ q ≤ u * 2 ^ q :=
      mul_le_mul_of_nonneg_right (by exact_mod_cast hlt) hp.le
    linarith [h.lower, le_abs_self (v - n * 2 ^ q)]
  · have hstep : (u + 1 : ℚ) * 2 ^ q ≤ n * 2 ^ q :=
      mul_le_mul_of_nonneg_right (by exact_mod_cast hgt) hp.le
    linarith [h.upper, neg_abs_le (v - n * 2 ^ q)]

theorem abs_le_abs (n : Nat) : |v - u * 2 ^ q| ≤ |v - n * 2 ^ q| := by
  by_cases hn : n = u
  · rw [hn]
  · linarith [h.two_mul_abs_le, h.le_two_mul_abs hn]

theorem even_of_abs_eq {n : Nat} (hne : n ≠ u) (heq : |v - u * 2 ^ q| = |v - n * 2 ^ q|) : u % 2 = 0 := by
  by_contra hodd
  have hlt := h.two_mul_abs_lt (by omega)
  rw [heq] at hlt
  exact absurd (h.le_two_mul_abs hne) hlt.not_ge

/-- Numbers are multiples of the unit, or they are less than all of its numbers with a leading bit, of which one is
nearer. -/
theorem multiple_or_farther {l : Int} (hl : HasExponent v l) (hq : max (l - 52) (-1074) = q) {n : Nat}
    {k : Int} (hn : Canonical n k) :
    (∃ i : Nat, (n * 2 ^ k : ℚ) = i * 2 ^ q) ∨ |v - u * 2 ^ q| < |v - n * 2 ^ k| := by
  rcases lt_or_ge k q with hlt | hge
  · refine .inr ?_
    have hbelow := lt_leading_of_exponent_lt hn hlt
    have hleading : ((2 ^ 52 : Nat) * 2 ^ q : ℚ) ≤ v := by
      have := hn.le_exponent
      rw [Nat.cast_pow, Nat.cast_ofNat, ← zpow_natCast, ← zpow_add₀ (by norm_num),
        show ((52 : Nat) : Int) + q = l by omega]
      exact hl.le
    calc |v - u * 2 ^ q| ≤ |v - (2 ^ 52 : Nat) * 2 ^ q| := h.abs_le_abs _
      _ = v - (2 ^ 52 : Nat) * 2 ^ q := abs_of_nonneg (by linarith)
      _ < v - n * 2 ^ k := by linarith
      _ ≤ |v - n * 2 ^ k| := le_abs_self _
  · exact .inl ⟨_, dyadic_eq_of_le n hge⟩

theorem isClosest {l : Int} (hl : HasExponent v l) (hq : max (l - 52) (-1074) = q) {m : Nat} {e : Int}
    (value : (m * 2 ^ e : ℚ) = u * 2 ^ q) (parity : m % 2 = u % 2) : IsClosest v m e := by
  constructor
  · intro y negative n k hy
    rw [value]
    rcases h.multiple_or_farther hl hq (canonical_of_ofBits hy) with ⟨i, hi⟩ | hlt
    · rw [hi]
      exact h.abs_le_abs i
    · exact hlt.le
  · intro y negative n k hy heq hne
    rw [value] at heq hne
    rw [parity]
    rcases h.multiple_or_farther hl hq (canonical_of_ofBits hy) with ⟨i, hi⟩ | hlt
    · rw [hi] at heq hne
      exact h.even_of_abs_eq (fun hiu => hne (by rw [hiu])) heq
    · exact absurd heq hlt.ne

end NearestUnits

theorem IsNearest.roundsTo {x : Float} {negative : Bool} {v : ℚ} (h : IsNearest x negative v) :
    RoundsTo negative v x := by
  obtain ⟨u, q, l, hl, hq, hu, hbits⟩ := h.spec
  have hplace := place_lt_iff hl hq hu
  rw [← two_mul_overflow] at hplace
  by_cases hlt : place u q < 0x7ff * 2 ^ 52
  · obtain ⟨m, e, hdecode, value, parity⟩ :=
      ofBits_encode negative (settled_of_nearestUnits hl hq hu) hlt
    rw [← hbits] at hdecode
    exact .finite hdecode (by linarith [hplace.mp hlt]) (hu.isClosest hl hq value parity)
  · refine .infinite ?_ (by linarith [not_lt.mp (mt hplace.mpr hlt)])
    rw [Float.decode, hbits, encode, if_pos (by omega)]
    cases negative <;> rfl

/-- What is at most half of the least number is rounded to zero. -/
theorem roundsTo_zero (negative : Bool) {v : ℚ} (nonneg : 0 ≤ v) (small : v ≤ 2 ^ (-1075 : Int)) :
    RoundsTo negative v (Float.ofBits (roundBits negative 0 0)) := by
  have hhalf : (2 : ℚ) ^ (-1074 : Int) = 2 * 2 ^ (-1075 : Int) := by
    rw [← zpow_one_add₀ (by norm_num)]
    rfl
  have hsmall : v < overflow := by
    refine small.trans_lt ((zpow_le_zpow_right₀ (by norm_num) (by norm_num) :
      (2 : ℚ) ^ (-1075 : Int) ≤ 2 ^ (970 : Int)).trans_lt ?_)
    rw [overflow]
    exact lt_mul_of_one_lt_left (by positivity) (by norm_num)
  refine .finite (m := 0) (e := -1074) (by cases negative <;> rfl) hsmall ⟨?_, fun _ _ _ _ _ _ _ => rfl⟩
  intro y _ n k hy
  rw [Nat.cast_zero, zero_mul, sub_zero, abs_of_nonneg nonneg]
  by_cases hn : n = 0
  · rw [hn, Nat.cast_zero, zero_mul, sub_zero]
    exact le_abs_self v
  · have hone : (1 : ℚ) ≤ n := by exact_mod_cast Nat.one_le_iff_ne_zero.mpr hn
    have hleast : (2 : ℚ) ^ (-1074 : Int) ≤ n * 2 ^ k :=
      (zpow_le_zpow_right₀ (by norm_num) (canonical_of_ofBits hy).le_exponent).trans
        (le_mul_of_one_le_left (by positivity) hone)
    linarith [neg_abs_le (v - n * 2 ^ k)]

/-! Values that are rounded alike. -/

/-- No multiple of `2 ^ -s` stands between the values. -/
structure Alike (s : Nat) (w v : ℚ) : Prop where
  le_iff : ∀ (c : Nat) {k : Int}, -(s : Int) ≤ k → ((c * 2 ^ k : ℚ) ≤ w ↔ (c * 2 ^ k : ℚ) ≤ v)
  ge_iff : ∀ (c : Nat) {k : Int}, -(s : Int) ≤ k → (w ≤ c * 2 ^ k ↔ v ≤ c * 2 ^ k)

namespace Alike

variable {s : Nat} {w v : ℚ} (h : Alike s w v)

include h

theorem zpow_le_iff {k : Int} (hk : -(s : Int) ≤ k) : (2 : ℚ) ^ k ≤ w ↔ (2 : ℚ) ^ k ≤ v := by
  simpa using h.le_iff 1 hk

theorem le_zpow_iff {k : Int} (hk : -(s : Int) ≤ k) : w ≤ (2 : ℚ) ^ k ↔ v ≤ (2 : ℚ) ^ k := by
  simpa using h.ge_iff 1 hk

theorem hasExponent {l : Int} (hl : HasExponent w l) (hs : -(s : Int) ≤ l) : HasExponent v l where
  le := (h.zpow_le_iff hs).mp hl.le
  lt := by
    rw [← not_le, ← h.zpow_le_iff (by omega), not_le]
    exact hl.lt

theorem nearestUnits {u : Nat} {q : Int} (hu : NearestUnits u q w) (nonneg : 0 ≤ v)
    (hs : -(s : Int) < q) : NearestUnits u q v := by
  -- the ends of the units' interval are multiples of half a unit
  have hhalf : (2 : ℚ) ^ q = 2 * 2 ^ (q - 1) := by
    rw [← zpow_one_add₀ (by norm_num)]
    congr 1
    omega
  have hle (c : Nat) : (c * 2 ^ q : ℚ) ≤ 2 * w ↔ (c * 2 ^ q : ℚ) ≤ 2 * v := by
    rw [hhalf, mul_left_comm, mul_le_mul_iff_right₀ two_pos, mul_le_mul_iff_right₀ two_pos]
    exact h.le_iff c (by omega)
  have hge (c : Nat) : 2 * w ≤ (c * 2 ^ q : ℚ) ↔ 2 * v ≤ (c * 2 ^ q : ℚ) := by
    rw [hhalf, mul_left_comm, mul_le_mul_iff_right₀ two_pos, mul_le_mul_iff_right₀ two_pos]
    exact h.ge_iff c (by omega)
  have hlast : (2 * u + 1 : ℚ) = (2 * u + 1 : Nat) := by push_cast; rfl
  obtain ⟨lower, upper, strict⟩ := hu
  cases u with
  | zero =>
      refine ⟨?_, ?_, fun h => absurd h (by decide)⟩
      · have : (0 : ℚ) < 2 ^ q := by positivity
        push_cast
        linarith
      · rw [hlast] at upper ⊢
        exact (hge _).mp upper
  | succ c =>
      have hfirst : (2 * (c + 1 : Nat) - 1 : ℚ) = (2 * c + 1 : Nat) := by
        push_cast
        ring
      rw [hfirst] at lower strict
      rw [hlast] at upper strict
      constructor
      · rw [hfirst, ← hle]
        exact lower
      · rw [hlast, ← hge]
        exact upper
      · rw [hfirst, hlast, ← not_le, ← not_le, ← hge, ← hle, not_le, not_le]
        exact strict

theorem isNearest {x : Float} {negative : Bool} (hx : IsNearest x negative w) (nonneg : 0 ≤ v)
    (hs : (2 : ℚ) ^ (54 - s : Int) ≤ w) : IsNearest x negative v := by
  obtain ⟨u, q, l, hl, hq, hu, hbits⟩ := hx.spec
  have hfine := hl.le_of_zpow_le hs
  exact ⟨u, q, l, h.hasExponent hl (by omega), hq, h.nearestUnits hu nonneg (by omega), hbits⟩

end Alike

end Binary64

/-! Decimals. -/

namespace Decimal

open Binary64

/-- The last bit that stands for the rest leaves a quotient between the same numbers. -/
theorem alike_sticky (digits : Nat) {unit : Nat} (s : Nat) (hu : 0 < unit) :
    Alike s (stickyQuotient (digits * 2 ^ s) unit * 2 ^ (-(s : Int) - 1)) (digits / unit) where
  le_iff c _ hk := dyadic_le_sticky_iff hu c hk
  ge_iff c _ hk := sticky_le_dyadic_iff hu c hk

theorem value_nonneg (d : Decimal) : 0 ≤ d.value := by
  rw [value]
  positivity

theorem overflow_le_value {d : Decimal} (hd : d.digits ≠ 0) (h : 400 < d.exponent) :
    overflow ≤ d.value := by
  have hone : (1 : ℚ) ≤ d.digits := by exact_mod_cast Nat.one_le_iff_ne_zero.mpr hd
  calc overflow ≤ 2 ^ (54 : Nat) * 2 ^ (970 : Int) :=
        mul_le_mul_of_nonneg_right (by norm_num) (by positivity)
    _ = 2 ^ (1024 : Int) := by
        rw [← zpow_natCast, ← zpow_add₀ (by norm_num)]
        rfl
    _ ≤ 10 ^ (309 : Int) := two_zpow_le_ten_zpow
    _ ≤ 10 ^ d.exponent := zpow_le_zpow_right₀ (by norm_num) (by omega)
    _ ≤ d.value := le_mul_of_one_le_left (by positivity) hone

theorem roundsTo_toFloat_of_neg (negative : Bool) {d : Decimal} (hd : d.digits ≠ 0)
    (hge : -400 - (Nat.log2 d.digits : Int) ≤ d.exponent) (hneg : d.exponent < 0) :
    RoundsTo negative d.value (d.toFloat negative) := by
  have hunit : 0 < 10 ^ (-d.exponent).toNat := by positivity
  obtain ⟨s, hwide, hfloat⟩ := toFloat_of_neg negative hd hge hneg
  have halike := alike_sticky d.digits s hunit
  have hlow := (halike.zpow_le_iff (show -(s : Int) ≤ 69 - s by omega)).mpr
    (zpow_le_quotient hunit hwide hd)
  rw [value_of_neg hneg, hfloat]
  generalize stickyQuotient (d.digits * 2 ^ s) (10 ^ (-d.exponent).toNat) = n at halike hlow
  have hn : n ≠ 0 := by
    rintro rfl
    rw [Nat.cast_zero, zero_mul] at hlow
    exact absurd hlow (show (0 : ℚ) < 2 ^ (69 - s : Int) by positivity).not_ge
  have hexponent := hasExponent_log2 hn (-(s : Int) - 1)
  have hfine := hexponent.le_of_zpow_le hlow
  by_cases hleast : -1100 ≤ Nat.log2 n + (-(s : Int) - 1)
  · refine (halike.isNearest (isNearest_ofDyadic negative hn hleast (by omega)) (by positivity) ?_).roundsTo
    exact (zpow_le_zpow_right₀ (by norm_num) (by omega)).trans hlow
  · -- what is so small is settled before it is rounded
    rw [Float.ofDyadic, if_pos (by omega)]
    refine roundsTo_zero negative (by positivity) ((halike.le_zpow_iff (by omega)).mp ?_)
    exact hexponent.lt.le.trans (zpow_le_zpow_right₀ (by norm_num) (by omega))

/-- A decimal is rounded to the nearest double. -/
theorem roundsTo_toFloat (negative : Bool) (d : Decimal) :
    RoundsTo negative d.value (d.toFloat negative) := by
  by_cases hd : d.digits = 0
  · have hvalue : d.value = 0 := by rw [value, hd, Nat.cast_zero, zero_mul]
    rw [hvalue, toFloat, if_pos (by simpa using hd)]
    exact roundsTo_zero negative le_rfl (by positivity)
  · by_cases hlarge : 400 < d.exponent
    · rw [toFloat]
      simp only []
      rw [if_neg (by simpa using hd), if_pos hlarge]
      exact .infinite (by cases negative <;> rfl) (overflow_le_value hd hlarge)
    · by_cases hsmall : d.exponent < -400 - (Nat.log2 d.digits : Int)
      · rw [toFloat]
        simp only []
        rw [if_neg (by simpa using hd), if_neg hlarge, if_pos hsmall]
        exact roundsTo_zero negative d.value_nonneg (value_lt_of_exponent_lt hsmall).le
      · rcases lt_or_ge d.exponent 0 with hneg | hnonneg
        · exact roundsTo_toFloat_of_neg negative hd (by omega) hneg
        · rw [toFloat_of_nonneg negative hd (by omega) hnonneg, value_of_nonneg hnonneg]
          exact (isNearest_ofDyadic negative (Nat.mul_ne_zero hd (by positivity)) (by omega)
            (by norm_num)).roundsTo

theorem toFloat_eq_iff {negative : Bool} {d : Decimal} {x : Float} :
    d.toFloat negative = x ↔ RoundsTo negative d.value x := by
  constructor
  · rintro rfl
    exact roundsTo_toFloat negative d
  · exact (roundsTo_toFloat negative d).unique

end Decimal

end Gauge
