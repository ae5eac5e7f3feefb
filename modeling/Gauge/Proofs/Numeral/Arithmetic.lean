import Gauge.Proofs.Numeral.Rounding

/-!
Products, quotients and whole numbers as doubles. The exact value decides: the result is the number nearest to
it, so that a value in the rounding interval of a number gives that number.
-/

open Float.Model Float.Model.UnpackedFloat

namespace Gauge.Binary64

/-! Numbers and their bits. -/

theorem ofBits_signBit_or (negative : Bool) {n : Nat} (h : n < 0x7ff * 2 ^ 52) :
    ofBits (signBit negative ||| UInt64.ofNat n) =
      if n / 2 ^ 52 = 0 then .finite negative (n % 2 ^ 52) (-1074)
      else .finite negative (n % 2 ^ 52 + 2 ^ 52) ((n / 2 ^ 52 : Nat) - 1075) := by
  have hb := toNat_signBit_or negative (show n < 2 ^ 63 by omega)
  generalize signBit negative ||| UInt64.ofNat n = b at hb
  have hsign : decide (2 ^ 63 ≤ b.toNat) = negative := by
    cases negative with
    | false => exact decide_eq_false (by rw [hb]; simp; omega)
    | true => exact decide_eq_true (by rw [hb]; simp)
  have hexponent : b.toNat / 2 ^ 52 % 2 ^ 11 = n / 2 ^ 52 := by
    rw [hb]
    split <;> omega
  have hfraction : b.toNat % 2 ^ 52 = n % 2 ^ 52 := by
    rw [hb]
    split <;> omega
  simp only [ofBits, sign_toNat, exponent_toNat, fraction_toNat, beq_iff_eq]
  rw [hsign, hexponent, hfraction, if_neg (by omega)]

theorem ofBits_place (negative : Bool) {m : Nat} {e : Int} (h : Canonical m e) :
    ofBits (signBit negative ||| UInt64.ofNat (place m e)) = .finite negative m e := by
  rw [ofBits_signBit_or negative (place_lt h)]
  obtain ⟨small, least, -, leading⟩ := h
  by_cases hzero : place m e / 2 ^ 52 = 0
  · rw [if_pos hzero, finite.injEq]
    simp only [place] at *
    refine ⟨trivial, ?_, ?_⟩ <;> omega
  · rw [if_neg hzero, finite.injEq]
    simp only [place] at *
    refine ⟨trivial, ?_, ?_⟩ <;> omega

theorem ofBits_encode (negative : Bool) {u : Nat} {q : Int} (h : Settled u q)
    (hlt : place u q < 0x7ff * 2 ^ 52) :
    ∃ m e, ofBits (encode negative u q) = .finite negative m e ∧ (m * 2 ^ e : ℚ) = u * 2 ^ q ∧
      m % 2 = u % 2 := by
  obtain ⟨le, least, leading⟩ := h
  rw [encode, if_neg (by omega)]
  by_cases hsmall : u < 2 ^ 53
  · refine ⟨u, q, ofBits_place negative ⟨hsmall, least, ?_, leading⟩, rfl, rfl⟩
    simp only [place] at hlt
    omega
  · obtain rfl : u = 2 ^ 53 := by omega
    refine ⟨2 ^ 52, q + 1, ?_, ?_, rfl⟩
    · have hplace : place (2 ^ 53) q = place (2 ^ 52) (q + 1) := by
        simp only [place]
        omega
      rw [hplace]
      refine ofBits_place negative ⟨by decide, by omega, ?_, .inl le_rfl⟩
      simp only [place] at hlt
      omega
    · rw [zpow_add_one₀ (by norm_num)]
      push_cast
      ring

theorem zpow_1024 : (2 : ℚ) ^ (1024 : Int) = 2 ^ 53 * 2 ^ (971 : Int) := by
  rw [← zpow_natCast, ← zpow_add₀ (by norm_num)]
  rfl

theorem lt_of_place_lt {u : Nat} {q l : Int} {v : ℚ} (hl : HasExponent v l)
    (hq : max (l - 52) (-1074) = q) (hu : NearestUnits u q v) (hlt : place u q < 0x7ff * 2 ^ 52) :
    2 * v < (2 ^ 54 - 1) * 2 ^ (971 : Int) := by
  obtain ⟨le, least, leading⟩ := settled_of_nearestUnits hl hq hu
  have hp : (0 : ℚ) < 2 ^ (971 : Int) := by positivity
  simp only [place] at hlt
  by_cases hq971 : q = 971
  · subst hq971
    -- the last significand is odd, so that the end of its interval is not in it
    obtain hlast | hlast : u = 2 ^ 53 - 1 ∨ u + 2 ≤ 2 ^ 53 := by omega
    · have := (hu.strict (by omega)).2
      rw [hlast] at this
      norm_num at this ⊢
      exact this
    · have hlast' : (u + 2 : ℚ) ≤ 2 ^ 53 := by exact_mod_cast hlast
      refine hu.upper.trans_lt (mul_lt_mul_of_pos_right ?_ hp)
      linarith
  · have hv := hl.lt.trans_le
      (zpow_le_zpow_right₀ (by norm_num : (1 : ℚ) ≤ 2) (show l + 1 ≤ 1023 by omega))
    have hhalf : (2 : ℚ) ^ (1024 : Int) = 2 * 2 ^ (1023 : Int) := by
      rw [← zpow_one_add₀ (by norm_num)]
      rfl
    rw [zpow_1024] at hhalf
    generalize (2 : ℚ) ^ (971 : Int) = p at hp hhalf ⊢
    generalize (2 : ℚ) ^ (1023 : Int) = r at hv hhalf
    linarith

theorem place_lt_of_lt {u : Nat} {q l : Int} {v : ℚ} (hl : HasExponent v l)
    (hq : max (l - 52) (-1074) = q) (hu : NearestUnits u q v)
    (small : 2 * v < (2 ^ 54 - 1) * 2 ^ (971 : Int)) : place u q < 0x7ff * 2 ^ 52 := by
  obtain ⟨le, least, leading⟩ := settled_of_nearestUnits hl hq hu
  have hp : (0 : ℚ) < 2 ^ (971 : Int) := by positivity
  have hl1024 : l < 1024 := by
    refine hl.lt_of_lt_zpow ?_
    rw [zpow_1024]
    generalize (2 : ℚ) ^ (971 : Int) = p at hp small ⊢
    linarith
  simp only [place]
  by_cases hq971 : q = 971
  · subst hq971
    have : (2 * u - 1 : ℚ) < 2 ^ 54 - 1 := lt_of_mul_lt_mul_right (hu.lower.trans_lt small) hp.le
    have : (2 * u : ℚ) < 2 ^ 54 := by linarith
    have : 2 * u < 2 ^ 54 := by exact_mod_cast this
    omega
  · omega

/-- Units are too many from half a step above the greatest number on. -/
theorem place_lt_iff {u : Nat} {q l : Int} {v : ℚ} (hl : HasExponent v l)
    (hq : max (l - 52) (-1074) = q) (hu : NearestUnits u q v) :
    place u q < 0x7ff * 2 ^ 52 ↔ 2 * v < (2 ^ 54 - 1) * 2 ^ (971 : Int) :=
  ⟨lt_of_place_lt hl hq hu, place_lt_of_lt hl hq hu⟩

/-! Nearest numbers. -/

/-- The number is the one nearest to `± v`, an infinity if that is too large. -/
structure IsNearest (x : Float) (negative : Bool) (v : ℚ) : Prop where
  spec : ∃ u q l, HasExponent v l ∧ max (l - 52) (-1074) = q ∧ NearestUnits u q v ∧
    x.toBits = encode negative u q

theorem IsNearest.decode_eq {x : Float} {negative : Bool} {v : ℚ} {m : Nat} {e : Int}
    (h : IsNearest x negative v) (hc : Canonical m e) (hv : InRoundingInterval m e v) :
    x.decode = .finite negative m e := by
  obtain ⟨u, q, l, hl, rfl, hu, hbits⟩ := h.spec
  obtain ⟨u', q', rfl, hu', hplace⟩ := nearestUnits_of_inRoundingInterval hc hl hv
  obtain rfl := hu.unique hu'
  have hlt := place_lt hc
  simp only [Float.decode]
  rw [hbits, encode, hplace, if_neg (by omega), ofBits_place negative hc]

/-- A number nearest to a value that is not too large is finite. Its relative error is `2 ^ -53` at most, but for
the least numbers. -/
theorem IsNearest.exists_decode {x : Float} {negative : Bool} {v : ℚ} (h : IsNearest x negative v)
    (small : 2 * v < (2 ^ 54 - 1) * 2 ^ (971 : Int)) :
    ∃ m e, x.decode = .finite negative m e ∧ (2 ^ (-1022 : Int) ≤ v →
      (2 ^ 53 - 1) * v ≤ 2 ^ 53 * (m * 2 ^ e) ∧ 2 ^ 53 * (m * 2 ^ e) ≤ (2 ^ 53 + 1) * v) := by
  obtain ⟨u, q, l, hl, hq, hu, hbits⟩ := h.spec
  have settled := settled_of_nearestUnits hl hq hu
  have hlt := (place_lt_iff hl hq hu).mpr small
  obtain ⟨m, e, hdecode, hvalue, -⟩ := ofBits_encode negative settled hlt
  refine ⟨m, e, ?_, fun normal => ?_⟩
  · rw [← hdecode, ← hbits]
    rfl
  · have hl' : -1022 ≤ l := hl.le_of_zpow_le normal
    have hunit : (2 : ℚ) ^ 52 * 2 ^ q ≤ v := by
      rw [← hq, max_eq_left (by omega), ← zpow_natCast, ← zpow_add₀ (by norm_num)]
      simpa using hl.le
    have lower := hu.lower
    have upper := hu.upper
    rw [hvalue]
    constructor <;> linarith

theorem inRoundingInterval_self {m : Nat} (hm : m ≠ 0) (e : Int) : InRoundingInterval m e (m * 2 ^ e) := by
  have hp : (0 : ℚ) < 2 ^ (e - 2) := by positivity
  have he : (m * 2 ^ e : ℚ) = (4 * m : Nat) * 2 ^ (e - 2) := by
    rw [zpow_sub₀ (by norm_num)]
    push_cast
    ring
  have hlow : (Decimal.roundingInterval m e).1 < 4 * m := by
    simp only [Decimal.roundingInterval]
    split <;> omega
  have hhigh : 4 * m < (Decimal.roundingInterval m e).2 := by
    simp only [Decimal.roundingInterval]
    omega
  have hlow' := mul_lt_mul_of_pos_right (Nat.cast_lt (α := ℚ).2 hlow) hp
  have hhigh' := mul_lt_mul_of_pos_right (Nat.cast_lt (α := ℚ).2 hhigh) hp
  rw [← he] at hlow' hhigh'
  exact ⟨hlow'.le, hhigh'.le, fun _ => ⟨hlow', hhigh'⟩⟩

/-- The significand and the exponent of a number of at most 53 bits. -/
theorem exists_canonical {n k : Nat} (hn : n ≠ 0) (hbits : n ≤ 2 ^ 53) (hk : k ≤ 900) :
    ∃ m e, Canonical m e ∧ m ≠ 0 ∧ (m * 2 ^ e : ℚ) = n * 2 ^ k := by
  have hlog : Nat.log2 n ≤ 53 := by
    have := (Nat.log2_lt hn).2 (show n < 2 ^ 54 by omega)
    omega
  by_cases hlast : n = 2 ^ 53
  · refine ⟨2 ^ 52, k + 1, ⟨by decide, by omega, by omega, .inl le_rfl⟩, by decide, ?_⟩
    rw [zpow_add_one₀ (by norm_num), zpow_natCast, hlast]
    push_cast
    ring
  · have hlog : Nat.log2 n < 53 := (Nat.log2_lt hn).2 (by omega)
    obtain ⟨s, hs⟩ : ∃ s, Nat.log2 n + s = 52 := ⟨52 - Nat.log2 n, by omega⟩
    have hlow : 2 ^ 52 ≤ n * 2 ^ s := by
      rw [← hs, Nat.pow_add]
      exact Nat.mul_le_mul_right _ (Nat.log2_self_le hn)
    have hhigh : n * 2 ^ s < 2 ^ 53 := by
      rw [show 53 = Nat.log2 n + 1 + s by omega, Nat.pow_add]
      exact Nat.mul_lt_mul_of_pos_right Nat.lt_log2_self (by positivity)
    refine ⟨n * 2 ^ s, k - s, ⟨hhigh, by omega, by omega, .inl hlow⟩, by omega, ?_⟩
    rw [zpow_sub₀ (by norm_num), zpow_natCast, zpow_natCast]
    push_cast
    field_simp

/-- A value of at most 53 bits is a number itself. -/
theorem IsNearest.exact {x : Float} {negative : Bool} {n k : Nat} (h : IsNearest x negative (n * 2 ^ k))
    (hn : n ≠ 0) (hbits : n ≤ 2 ^ 53) (hk : k ≤ 900) :
    ∃ m e, x.decode = .finite negative m e ∧ m ≠ 0 ∧ (m * 2 ^ e : ℚ) = n * 2 ^ k := by
  obtain ⟨m, e, hc, hm, hvalue⟩ := exists_canonical hn hbits hk
  refine ⟨m, e, h.decode_eq hc ?_, hm, hvalue⟩
  rw [← hvalue]
  exact inRoundingInterval_self hm e

theorem isNearest_of_round {x : Float} {negative : Bool} {a : Nat} {e : Int} {acc : Accuracy} {w : ℚ}
    (hbits : x.toBits = UInt64.ofBitVec (UnpackedFloat.pack Format.binary64
      (roundWithAccuracy Format.binary64 (sign negative) a e acc)))
    (holds : Holds (ExtendedMantissa.ofMantissaAndAccuracy a acc) w) (ha : a ≠ 0)
    (he : e ≤ max (Nat.log2 a + e - 52) (-1074)) : IsNearest x negative (w * 2 ^ e) := by
  obtain ⟨u, hu, settled, hround⟩ := roundWithAccuracy_eq (sign negative) holds ha rfl he
  rw [hround, pack_settle negative settled] at hbits
  exact ⟨u, _, _, hasExponent_of_holds holds ha e, rfl, hu, hbits⟩

/-! Bits of models. -/

theorem unpackSign_eq (b : UInt64) :
    Sign.ofBitVec (@unpackSign Format.binary64 b.toBitVec) = sign (decide (2 ^ 63 ≤ b.toNat)) := by
  have hbit : (@unpackSign Format.binary64 b.toBitVec).toNat = b.toNat / 2 ^ 63 := by
    have := b.toNat_lt
    simp [unpackSign, Nat.shiftRight_eq_div_pow]
    omega
  simp only [Sign.ofBitVec, sign, decide_eq_true_eq]
  have := b.toNat_lt
  by_cases hlt : 2 ^ 63 ≤ b.toNat
  · rw [if_pos hlt, if_neg]
    intro h
    rw [h] at hbit
    change 0 = _ at hbit
    omega
  · rw [if_neg hlt, if_pos]
    apply BitVec.eq_of_toNat_eq
    rw [hbit]
    change _ = 0
    omega

theorem unpack_of_finite {b : UInt64} {negative : Bool} {m : Nat} {e : Int}
    (h : ofBits b = .finite negative m e) (hm : m ≠ 0) :
    UnpackedFloat.unpack Format.binary64 b.toBitVec =
      .finite (sign negative) m e (Nat.pos_of_ne_zero hm) := by
  have hmantissa := toNat_unpackMantissa b.toBitVec
  have hexponent := toNat_unpackExponent b.toBitVec
  simp only [ofBits, exponent_toNat, fraction_toNat, sign_toNat, beq_iff_eq] at h
  rw [UInt64.toNat_toBitVec] at hmantissa hexponent
  rw [← hexponent, ← hmantissa] at h
  simp only [UnpackedFloat.unpack, unpackSign_eq]
  split at h
  · split at h <;> cases h
  · rename_i hfinite
    rw [if_neg fun h0 => hfinite (congrArg BitVec.toNat h0)]
    split at h
    · rename_i hzero
      rw [finite.injEq] at h
      obtain ⟨rfl, rfl, rfl⟩ := h
      rw [if_pos (BitVec.eq_of_toNat_eq hzero), dif_neg fun h0 => hm (congrArg BitVec.toNat h0)]
      simp only [hzero]
      rfl
    · rename_i hnormal
      rw [finite.injEq] at h
      obtain ⟨rfl, rfl, rfl⟩ := h
      rw [if_neg fun h0 => hnormal (congrArg BitVec.toNat h0)]
      have hleading : (1#1 ++ @unpackMantissa Format.binary64 b.toBitVec).toNat =
          (@unpackMantissa Format.binary64 b.toBitVec).toNat + 2 ^ 52 := by
        rw [BitVec.toNat_append, ← Nat.shiftLeft_add_eq_or_of_lt (BitVec.isLt _)]
        exact Nat.add_comm _ _
      simp only [hleading]
      rfl

theorem unpack_of_decode {x : Float} {negative : Bool} {m : Nat} {e : Int}
    (h : x.decode = .finite negative m e) (hm : m ≠ 0) :
    x.toModel.unpack = .finite (sign negative) m e (Nat.pos_of_ne_zero hm) :=
  unpack_of_finite h hm

theorem toBits_ofBits_of_finite {b : UInt64} {negative : Bool} {m : Nat} {e : Int}
    (h : ofBits b = .finite negative m e) (hm : m ≠ 0) : (Float.ofBits b).toBits = b := by
  obtain ⟨small, least, greatest, leading⟩ := canonical_of_ofBits h
  have hlt := place_lt (canonical_of_ofBits h)
  change UInt64.ofBitVec (UnpackedFloat.pack Format.binary64
    (UnpackedFloat.unpack Format.binary64 b.toBitVec)) = b
  rw [unpack_of_finite h hm, pack_finite negative _ small least leading, encode, if_neg (by omega),
    ← bits_of_finite h]

theorem toBits_ofBits_encode (negative : Bool) {u : Nat} {q : Int} (h : Settled u q) :
    (Float.ofBits (encode negative u q)).toBits = encode negative u q := by
  by_cases hu : u = 0
  · obtain rfl : q = -1074 := by
      have := h.leading
      omega
    subst hu
    cases negative <;> rfl
  · by_cases hlt : place u q < 0x7ff * 2 ^ 52
    · obtain ⟨m, e, hm, hvalue, -⟩ := ofBits_encode negative h hlt
      refine toBits_ofBits_of_finite hm ?_
      rintro rfl
      have hq : (2 : ℚ) ^ q ≠ 0 := by positivity
      simp [hu, hq] at hvalue
    · rw [encode, if_pos (by omega)]
      cases negative <;> rfl

/-! Operations. -/

theorem isNearest_ofDyadic (negative : Bool) {n : Nat} {k : Int} (hn : n ≠ 0)
    (least : -1100 ≤ Nat.log2 n + k) (greatest : k ≤ 5000) :
    IsNearest (Float.ofDyadic negative n k) negative (n * 2 ^ k) := by
  have hl := hasExponent_log2 hn k
  have hu := nearestUnits_units n k (max (Nat.log2 n + k - 52) (-1074))
  refine ⟨_, _, _, hl, rfl, hu, ?_⟩
  rw [Float.ofDyadic, if_neg (by omega), min_eq_left greatest, roundBits_eq_units negative hn rfl]
  exact toBits_ofBits_encode negative (settled_of_nearestUnits hl rfl hu)

theorem isNearest_mul {x y : Float} {nx ny : Bool} {m n : Nat} {e k : Int}
    (hx : x.decode = .finite nx m e) (hy : y.decode = .finite ny n k) (hm : m ≠ 0) (hn : n ≠ 0) :
    IsNearest (x * y) (nx != ny) (m * 2 ^ e * (n * 2 ^ k)) := by
  have hbits : (x * y).toBits = UInt64.ofBitVec (UnpackedFloat.pack Format.binary64
      (UnpackedFloat.mul Format.binary64 x.toModel.unpack y.toModel.unpack)) := rfl
  rw [unpack_of_decode hx hm, unpack_of_decode hy hn] at hbits
  have hsign : sign nx * sign ny = sign (nx != ny) := by
    cases nx <;> cases ny <;> rfl
  simp only [UnpackedFloat.mul, hsign] at hbits
  have hvalue : (m * 2 ^ e * (n * 2 ^ k) : ℚ) = (m * n : Nat) * 2 ^ (e + k) := by
    rw [zpow_add₀ (by norm_num)]
    push_cast
    ring
  rw [hvalue]
  refine isNearest_of_round hbits rfl (Nat.mul_ne_zero hm hn) ?_
  -- only the least numbers have few bits, and a product with one of them is far below the least exponent
  obtain ⟨-, leastx, greatestx, leadingx⟩ := canonical_of_ofBits hx
  obtain ⟨-, leasty, greatesty, leadingy⟩ := canonical_of_ofBits hy
  have hlog (hbig : 2 ^ 52 ≤ m * n) : 52 ≤ Nat.log2 (m * n) :=
    (Nat.le_log2 (Nat.mul_ne_zero hm hn)).2 hbig
  rcases leadingx with hm52 | rfl
  · have := hlog (hm52.trans (Nat.le_mul_of_pos_right m (Nat.pos_of_ne_zero hn)))
    omega
  · rcases leadingy with hn52 | rfl
    · have := hlog (hn52.trans (Nat.le_mul_of_pos_left n (Nat.pos_of_ne_zero hm)))
      omega
    · omega

theorem isNearest_toFloat {n : UInt64} (hn : n.toNat ≠ 0) : IsNearest n.toFloat false n.toNat := by
  have hbits : n.toFloat.toBits = UInt64.ofBitVec (UnpackedFloat.pack Format.binary64
      (UnpackedFloat.normalize Format.binary64 n.toNat 0 (sign false))) := rfl
  generalize n.toNat = n at hn hbits ⊢
  rw [UnpackedFloat.normalize, Int.compare_eq_gt.mpr (by omega)] at hbits
  simp only [Int.toNat_natCast, UnpackedFloat.round, decreaseExponent, targetExponent_eq,
    Nat.shiftLeft_eq] at hbits
  generalize hs : (0 - max ((Nat.log2 n : Int) + 0 - 52) (-1074)).toNat = s at hbits
  have hvalue : (n : ℚ) = (n * 2 ^ s : Nat) * 2 ^ (0 - s : Int) := by
    rw [zero_sub, zpow_neg, zpow_natCast]
    push_cast
    field_simp
  have hne : n * 2 ^ s ≠ 0 := Nat.mul_ne_zero hn (by positivity)
  rw [hvalue]
  refine isNearest_of_round hbits rfl hne ?_
  have hlog : Nat.log2 n + s ≤ Nat.log2 (n * 2 ^ s) := by
    rw [Nat.le_log2 hne, Nat.pow_add]
    exact Nat.mul_le_mul_right _ (Nat.log2_self_le hn)
  omega

/-- What a fraction adds to a whole number is on the side of the middle that its numerator, doubled, is on. -/
theorem holds_accuracyOfFraction (a : Nat) {r n : Nat} (hlt : r < n) :
    Holds (ExtendedMantissa.ofMantissaAndAccuracy a (accuracyOfFraction r n)) (a + r / n) := by
  have hn : (0 : ℚ) < n := by exact_mod_cast Nat.zero_lt_of_lt hlt
  have hrest : (r / n : ℚ) < 1 := by
    rw [div_lt_one hn]
    exact_mod_cast hlt
  rw [accuracyOfFraction]
  split
  · rename_i hzero
    simp [Holds, ExtendedMantissa.ofMantissaAndAccuracy, hzero]
  · rename_i hpos
    have hpos' : (0 : ℚ) < r / n := by
      have : (0 : ℚ) < r := by exact_mod_cast Nat.pos_of_ne_zero hpos
      positivity
    rcases lt_trichotomy (2 * r) n with h | h | h
    · have : (2 * (r / n) : ℚ) < 1 := by
        rw [mul_div_assoc', div_lt_one hn]
        exact_mod_cast h
      rw [Nat.compare_eq_lt.mpr h]
      simp only [Holds, ExtendedMantissa.ofMantissaAndAccuracy]
      constructor <;> linarith
    · have : (2 * (r / n) : ℚ) = 1 := by
        rw [mul_div_assoc', div_eq_one_iff_eq hn.ne']
        exact_mod_cast h
      rw [Nat.compare_eq_eq.mpr h]
      simp only [Holds, ExtendedMantissa.ofMantissaAndAccuracy]
      linarith
    · have : (1 : ℚ) < 2 * (r / n) := by
        rw [mul_div_assoc', one_lt_div hn]
        exact_mod_cast h
      rw [Nat.compare_eq_gt.mpr h]
      simp only [Holds, ExtendedMantissa.ofMantissaAndAccuracy]
      constructor <;> linarith

theorem holds_quotient (m : Nat) {n : Nat} (hn : n ≠ 0) :
    Holds (ExtendedMantissa.ofMantissaAndAccuracy (m / n) (accuracyOfFraction (m % n) n)) (m / n) := by
  have hn' : (n : ℚ) ≠ 0 := by exact_mod_cast hn
  have hdiv : (m : ℚ) = n * (m / n : Nat) + (m % n : Nat) := by
    exact_mod_cast (Nat.div_add_mod m n).symm
  have hquotient : (m / n : ℚ) = (m / n : Nat) + (m % n : Nat) / n := by
    rw [hdiv]
    field_simp
  rw [hquotient]
  exact holds_accuracyOfFraction (m / n) (Nat.mod_lt m (Nat.pos_of_ne_zero hn))

/-- A quotient that is not among the least numbers. -/
theorem isNearest_div {x y : Float} {nx ny : Bool} {m n : Nat} {e k : Int}
    (hx : x.decode = .finite nx m e) (hy : y.decode = .finite ny n k) (hm : m ≠ 0) (hn : n ≠ 0)
    (normal : n * 2 ^ k ≤ (m * 2 ^ e * 2 ^ 1020 : ℚ)) :
    IsNearest (x / y) (nx != ny) (m * 2 ^ e / (n * 2 ^ k)) := by
  have hbits : (x / y).toBits = UInt64.ofBitVec (UnpackedFloat.pack Format.binary64
      (UnpackedFloat.div Format.binary64 x.toModel.unpack y.toModel.unpack)) := rfl
  rw [unpack_of_decode hx hm, unpack_of_decode hy hn] at hbits
  have hsign : sign nx / sign ny = sign (nx != ny) := by
    cases nx <;> cases ny <;> rfl
  have htarget : Format.binary64.targetExponent (totalExponent m e - totalExponent n k) =
      max ((Nat.log2 m + e) - (Nat.log2 n + k) - 53) (-1074) := by
    simp only [Format.targetExponent, totalExponent, Format.mantissaBits, Format.minExponent]
    norm_num
    omega
  have hbound : Nat.log2 n + k < Nat.log2 m + e + 1 + (1020 : Nat) := by
    apply (hasExponent_log2 hn k).lt_of_lt_zpow
    rw [zpow_add₀ (by norm_num), zpow_natCast]
    exact normal.trans_lt (mul_lt_mul_of_pos_right (hasExponent_log2 hm e).lt (by positivity))
  simp only [UnpackedFloat.div, divCore, hsign, htarget, Nat.shiftLeft_eq] at hbits
  generalize ht : min (e - k) (max ((Nat.log2 m + e) - (Nat.log2 n + k) - 53) (-1074)) = t at hbits
  generalize hs : (e - k - t).toNat = s at hbits
  -- the shift leaves the quotient as many bits as a significand has, at least
  have hlarge : 2 ^ 52 ≤ m * 2 ^ s / n := by
    rw [Nat.le_div_iff_mul_le (Nat.pos_of_ne_zero hn)]
    calc 2 ^ 52 * n ≤ 2 ^ 52 * 2 ^ (Nat.log2 n + 1) := Nat.mul_le_mul_left _ Nat.lt_log2_self.le
      _ = 2 ^ (53 + Nat.log2 n) := by rw [← Nat.pow_add]; congr 1; omega
      _ ≤ 2 ^ (Nat.log2 m + s) := Nat.pow_le_pow_right (by decide) (by omega)
      _ ≤ m * 2 ^ s := by rw [Nat.pow_add]; exact Nat.mul_le_mul_right _ (Nat.log2_self_le hm)
  have hvalue : (m * 2 ^ e / (n * 2 ^ k) : ℚ) = (m * 2 ^ s : Nat) / n * 2 ^ t := by
    rw [show e = k + (s : Int) + t by omega, zpow_add₀ (by norm_num), zpow_add₀ (by norm_num),
      zpow_natCast]
    push_cast
    field_simp
  rw [hvalue]
  have hne : m * 2 ^ s / n ≠ 0 := by omega
  refine isNearest_of_round hbits (holds_quotient _ hn) hne ?_
  have := (Nat.le_log2 hne).2 hlarge
  omega

/-! Signs and kinds. -/

theorem decode_neg {x : Float} {negative : Bool} {m : Nat} {e : Int}
    (h : x.decode = .finite negative m e) (hm : m ≠ 0) : (-x).decode = .finite (!negative) m e := by
  have hc := canonical_of_ofBits h
  have hbits : (-x).toBits = UInt64.ofBitVec (UnpackedFloat.pack Format.binary64
      (UnpackedFloat.neg x.toModel.unpack)) := rfl
  have hsign : -sign negative = sign !negative := by
    cases negative <;> rfl
  have hlt := place_lt hc
  rw [unpack_of_decode h hm, UnpackedFloat.neg, hsign, pack_finite _ _ hc.significand_lt hc.le_exponent hc.leading,
    encode, if_neg (by omega)] at hbits
  simp only [Float.decode]
  rw [hbits, ofBits_place _ hc]

theorem isInf_eq_false {x : Float} {negative : Bool} {m : Nat} {e : Int}
    (h : x.decode = .finite negative m e) : x.isInf = false := by
  have hfinite : x.toModel.unpack.isFinite = true := Float.isFinite_of_decode h
  change x.toModel.unpack.isInf = false
  cases hx : x.toModel.unpack with
  | infinity s =>
      rw [hx] at hfinite
      cases hfinite
  | notANumber | zero | finite => rfl

theorem isNaN_eq_false {x : Float} {negative : Bool} {m : Nat} {e : Int}
    (h : x.decode = .finite negative m e) : x.isNaN = false := by
  have hfinite : x.toModel.unpack.isFinite = true := Float.isFinite_of_decode h
  change x.toModel.unpack.isNaN = false
  cases hx : x.toModel.unpack with
  | notANumber =>
      rw [hx] at hfinite
      cases hfinite
  | infinity | zero | finite => rfl

theorem isNegative_of_decode {x : Float} {negative : Bool} {m : Nat} {e : Int}
    (h : x.decode = .finite negative m e) : x.isNegative = negative := by
  simp only [Float.decode, ofBits] at h
  split at h
  · split at h <;> cases h
  · split at h <;> exact ((finite.injEq ..).mp h).1

theorem eq_of_decode {x y : Float} {negative : Bool} {m : Nat} {e : Int}
    (hx : x.decode = .finite negative m e) (hy : y.decode = .finite negative m e) : x = y := by
  rw [← Float.ofBits_toBits x, ← Float.ofBits_toBits y, bits_of_finite hx, bits_of_finite hy]

end Gauge.Binary64
