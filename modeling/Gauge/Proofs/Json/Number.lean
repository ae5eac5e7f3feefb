import Gauge.Proofs.Json.Scaling
import Gauge.Proofs.Json.Text
import Gauge.Proofs.Numeral.Literal

/-!
Numbers in JSON. What is written for a number states a decimal exactly; what is read is the double that is made of
this decimal, which is not always the number.
-/

namespace Gauge.Json.Reader

open Literal

/-! Digits. -/

theorem ofDigits_cons (acc : Nat) (c : Char) (digits : List Char) :
    ofDigits acc (c :: digits) = ofDigits (acc * 10 + (c.toNat - 48)) digits := by
  simp only [ofDigits, List.foldl_cons]
  rfl

theorem le_ofDigits (acc : Nat) (digits : List Char) : acc ≤ ofDigits acc digits := by
  induction digits generalizing acc with
  | nil => exact le_rfl
  | cons c digits ih =>
      have hle : acc ≤ acc * 10 + (c.toNat - 48) := by omega
      exact hle.trans (ih _)

/-- No digits are dropped from a number that fits in 64 bits. -/
theorem accumulate_eq {acc : Nat} {digits : List Char} (h : ofDigits acc digits ≤ maxNatural) (used : Nat) :
    accumulate acc used digits = (ofDigits acc digits, used + digits.length) := by
  induction digits generalizing acc used with
  | nil => rfl
  | cons c digits ih =>
      rw [ofDigits_cons] at h ⊢
      simp only [accumulate, if_pos ((le_ofDigits _ digits).trans h), ih h, List.length_cons]
      rw [Nat.add_assoc, Nat.add_comm 1]

theorem exponentDigits_eq {acc : Nat} {digits : List Char} (h : ofDigits acc digits ≤ maxExponent) :
    exponentDigits acc digits = (ofDigits acc digits, digits.length, true) := by
  induction digits generalizing acc with
  | nil => rfl
  | cons c digits ih =>
      rw [ofDigits_cons] at h ⊢
      simp only [exponentDigits, if_pos ((le_ofDigits _ digits).trans h), ih h, List.length_cons]

/-! Texts. -/

/-- What may follow a number. -/
def Ends (rest : List Char) : Prop :=
  ∀ c ∈ rest.head?, c.isDigit = false ∧ c ≠ '.' ∧ c ≠ 'e' ∧ c ≠ 'E'

theorem Ends.stops {rest : List Char} (h : Ends rest) : ∀ c ∈ rest.head?, c.isDigit = false :=
  fun c hc => (h c hc).1

/-- A decimal with a sign, as a double. -/
def signed (negative : Bool) (d : Decimal) : Float := if negative then -scaled d else scaled d

/-- Decimals that are made into a double. -/
structure IsScalable (d : Decimal) : Prop where
  exponent_le : d.exponent ≤ maxPower
  isInf_eq : 0 ≤ d.exponent → (scaled d).isInf = false

theorem takes_assemble {negative : Bool} {n : Nat} {k : Int} (h : IsScalable ⟨n, k⟩) (rest : List Char) :
    Takes (assemble negative n k) [] (signed negative ⟨n, k⟩) rest := by
  rw [assemble_eq negative (d := ⟨n, k⟩) h.exponent_le h.isInf_eq]
  exact takes_pure _ rest

theorem takes_exponentSign (isNegative : Bool) (rest : List Char) :
    Takes exponentSign [if isNegative then '-' else '+'] isNegative rest := by
  unfold exponentSign
  refine (takes_peek _).bind_first ?_
  cases isNegative with
  | false => exact (takes_advance '+' rest).bind_last (takes_pure false rest)
  | true => exact (takes_advance '-' rest).bind_last (takes_pure true rest)

theorem takes_exponentPart {negative : Bool} {n : Nat} {start k : Int} (hk : k.natAbs ≤ maxExponent)
    (h : IsScalable ⟨n, start + k⟩) {rest : List Char} (hends : Ends rest) :
    Takes (exponentPart negative n start) (exponentText true k) (signed negative ⟨n, start + k⟩) rest := by
  have hne : Nat.toDigits 10 k.natAbs ≠ [] := Nat.toDigits_ne_nil
  have hdigits : ∀ c ∈ Nat.toDigits 10 k.natAbs, c.isDigit = true := fun c hc => isDigit_of_mem_repr hc
  have hvalue : exponentDigits 0 (Nat.toDigits 10 k.natAbs) =
      (k.natAbs, (Nat.toDigits 10 k.natAbs).length, true) := by
    rw [exponentDigits_eq] <;> rw [ofDigits_toDigits]
    exact hk
  have htext : exponentText true k =
      ['e'] ++ ([if decide (k < 0) then '-' else '+'] ++ Nat.toDigits 10 k.natAbs) := by
    simp only [exponentText, decide_eq_true_eq]
    split <;> rfl
  have hexponent : (if decide (k < 0) then start - (k.natAbs : Int) else start + k.natAbs) = start + k := by
    simp only [decide_eq_true_eq]
    split <;> omega
  rw [htext]
  generalize Nat.toDigits 10 k.natAbs = digits at hne hdigits hvalue
  obtain ⟨c, more, rfl⟩ := List.exists_cons_of_ne_nil hne
  have hc : (!c.isDigit) = false := by simp [hdigits c]
  unfold exponentPart
  refine (takes_advance 'e' _).bind ?_
  refine (takes_exponentSign _ _).bind ?_
  refine (takes_peek _).bind_first ?_
  simp only [List.cons_append, List.head?_cons, hc, Bool.false_eq_true, if_false]
  refine takes_get fun place => ?_
  refine (takes_takeWhile hdigits hends.stops).bind_last ?_
  simp only [hvalue, if_true, hexponent]
  exact takes_assemble h rest

/-- An exponent, or none. -/
inductive IsExponent : List Char → Int → Prop where
  | absent : IsExponent [] 0
  | present (k : Int) (h : k.natAbs ≤ maxExponent) : IsExponent (exponentText true k) k

theorem takes_fractionPart {negative : Bool} {n : Nat} {fraction tail : List Char} {k : Int}
    (hdigits : ∀ c ∈ fraction, c.isDigit = true) (hne : fraction ≠ [])
    (hbits : ofDigits n fraction ≤ maxNatural) (htail : IsExponent tail k)
    (h : IsScalable ⟨ofDigits n fraction, k - fraction.length⟩) {rest : List Char} (hends : Ends rest) :
    Takes (fractionPart negative n 0) ('.' :: (fraction ++ tail))
      (signed negative ⟨ofDigits n fraction, k - fraction.length⟩) rest := by
  have hsome : fraction.isEmpty = false := by simpa using hne
  have hexponent : (0 : Int) - (0 + fraction.length : Nat) + k = k - fraction.length := by omega
  unfold fractionPart
  cases htail with
  | absent =>
      rw [List.append_nil]
      refine (takes_advance '.' _).bind ?_
      refine (takes_takeWhile hdigits hends.stops).bind_last ?_
      simp only [hsome, Bool.false_eq_true, if_false, accumulate_eq hbits]
      rw [← hexponent, Int.add_zero] at h ⊢
      refine (takes_peek rest).bind_first ?_
      split
      · rename_i heq
        exact absurd rfl (hends _ heq).2.2.1
      · rename_i heq
        exact absurd rfl (hends _ heq).2.2.2
      · exact takes_assemble h rest
  | present k hk =>
      refine (takes_advance '.' _).bind ?_
      refine (takes_takeWhile hdigits (by simp [exponentText])).bind ?_
      simp only [hsome, Bool.false_eq_true, if_false, accumulate_eq hbits]
      rw [← hexponent] at h ⊢
      refine (takes_peek _).bind_first ?_
      exact takes_exponentPart hk h hends

/-- The digits before a point or an exponent: a zero, or digits that do not begin with one. -/
structure IsWhole (whole : List Char) : Prop where
  digits : ∀ c ∈ whole, c.isDigit = true
  ne_nil : whole ≠ []
  leading : whole.head? = some '0' → whole = ['0']

/-- Numbers as they are written, with the decimals they state. -/
inductive IsNumber : List Char → Decimal → Prop where
  | fraction {whole fraction tail : List Char} {k : Int} (hw : IsWhole whole)
      (hf : ∀ c ∈ fraction, c.isDigit = true) (hne : fraction ≠ []) (ht : IsExponent tail k) :
      IsNumber (whole ++ '.' :: (fraction ++ tail)) ⟨ofDigits 0 (whole ++ fraction), k - fraction.length⟩
  | exponent {whole : List Char} {k : Int} (hw : IsWhole whole) (hk : k.natAbs ≤ maxExponent) :
      IsNumber (whole ++ exponentText true k) ⟨ofDigits 0 whole, k⟩

theorem IsExponent.exponent?_eq {tail : List Char} {k : Int} (h : IsExponent tail k) :
    exponent? tail = some k := by
  cases h with
  | absent => rfl
  | present k hk => exact exponent?_exponentText true k

theorem IsExponent.stops {tail : List Char} {k : Int} (h : IsExponent tail k) : Stops tail := by
  cases h <;> simp [Stops, exponentText]

theorem IsNumber.decimal?_eq {text : List Char} {d : Decimal} (h : IsNumber text d) :
    decimal? text = some d := by
  cases h with
  | fraction hw hf hne ht =>
      rw [decimal?_with_point hw.digits hw.ne_nil hf ht.stops, ht.exponent?_eq]
      rfl
  | exponent hw hk =>
      rw [decimal?_without_point hw.digits hw.ne_nil (IsExponent.present _ hk).stops (by simp [exponentText]),
        exponent?_exponentText]
      rfl

theorem ofDigits_append (acc : Nat) (s t : List Char) : ofDigits acc (s ++ t) = ofDigits (ofDigits acc s) t :=
  List.foldl_append

theorem IsWhole.takes {c : Char} {more : List Char} (h : IsWhole (c :: more)) {rest : List Char}
    (stops : Stops rest) : Takes (wholePart c) (c :: more) (c :: more) rest := by
  unfold wholePart
  by_cases hc : c = '0'
  · subst hc
    rw [h.leading rfl]
    exact (takes_advance '0' rest).bind_last (takes_pure _ rest)
  · rw [if_neg (by simpa using hc)]
    exact takes_takeWhile h.digits stops

theorem IsWhole.takes_number {negative : Bool} {c : Char} {more text rest : List Char} {a : Number}
    (h : IsWhole (c :: more)) (stops : Stops (text ++ rest))
    (hafter : Takes (afterWhole negative c (c :: more)) text a rest) :
    Takes (number negative) (c :: more ++ text) a rest := by
  have hc : (!c.isDigit) = false := by simp [h.digits c]
  unfold number
  refine (takes_peek _).bind_first ?_
  simp only [List.cons_append, List.head?_cons, hc, Bool.false_eq_true, if_false]
  exact (h.takes stops).bind hafter

theorem takes_number {negative : Bool} {text : List Char} {d : Decimal} (h : IsNumber text d)
    (hbits : d.digits ≤ maxNatural) (hd : IsScalable d) {rest : List Char} (hends : Ends rest) :
    Takes (number negative) text (.real (signed negative d)) rest := by
  cases h with
  | @fraction whole fraction tail k hw hf hne ht =>
      simp only [ofDigits_append] at hbits hd ⊢
      have hfits := (le_ofDigits (ofDigits 0 whole) fraction).trans hbits
      obtain ⟨c, more, rfl⟩ := List.exists_cons_of_ne_nil hw.ne_nil
      refine hw.takes_number (by simp [Stops]) ?_
      unfold afterWhole
      simp only [accumulate_eq hfits, Nat.zero_add, Nat.sub_self]
      refine (takes_peek _).bind_first ?_
      exact (takes_fractionPart hf hne hbits ht hd hends).bind_last (takes_pure _ rest)
  | @exponent whole k hw hk =>
      obtain ⟨c, more, rfl⟩ := List.exists_cons_of_ne_nil hw.ne_nil
      refine hw.takes_number (by simp [Stops, exponentText]) ?_
      unfold afterWhole
      simp only [accumulate_eq hbits, Nat.zero_add, Nat.sub_self]
      refine (takes_peek _).bind_first ?_
      have hpart := @takes_exponentPart negative (ofDigits 0 (c :: more)) 0 k hk (by rwa [Int.zero_add]) rest
        hends
      rw [Int.zero_add] at hpart
      exact hpart.bind_last (takes_pure _ rest)

/-! What is written. -/

theorem head?_toDigits {n : Nat} (hn : n ≠ 0) : (Nat.toDigits 10 n).head? ≠ some '0' := by
  induction n using Nat.strongRecOn with
  | ind n ih =>
      by_cases hlt : n < 10
      · have hdigit : ∀ n < 10, n ≠ 0 → [n.digitChar].head? ≠ some '0' := by decide
        rw [Nat.toDigits_of_lt_base hlt]
        exact hdigit n hlt hn
      · have hne : Nat.toDigits 10 (n / 10) ≠ [] := Nat.toDigits_ne_nil
        rw [Nat.toDigits_of_base_le (by decide) (by omega), List.head?_append_of_ne_nil _ hne]
        exact ih (n / 10) (by omega) (by omega)

/-- Digits that begin with other than a zero. -/
theorem isWhole_of_head? {whole : List Char} (digits : ∀ c ∈ whole, c.isDigit = true) (ne_nil : whole ≠ [])
    (h : whole.head? ≠ some '0') : IsWhole whole :=
  ⟨digits, ne_nil, fun h0 => absurd h0 h⟩

theorem IsNumber.of_fraction {whole fraction : List Char} (hw : IsWhole whole)
    (hf : ∀ c ∈ fraction, c.isDigit = true) (hne : fraction ≠ []) :
    IsNumber (whole ++ '.' :: fraction) ⟨ofDigits 0 (whole ++ fraction), 0 - fraction.length⟩ := by
  have := IsNumber.fraction hw hf hne .absent
  rwa [List.append_nil] at this

theorem ofDigits_replicate_zero (acc k : Nat) : ofDigits acc (List.replicate k '0') = acc * 10 ^ k := by
  rw [ofDigits_eq, Nat.ofDigitChars_replicate_zero, Nat.mul_comm]

theorem isNumber_positional {n : Nat} (hn : n ≠ 0) (hbits : n ≤ maxNatural) {point : Int} (hpoint : point ≤ 16) :
    ∃ d, IsNumber (NumeralStyle.positional true (toString n) point).toList d ∧ d.digits ≤ maxNatural := by
  have hne : Nat.toDigits 10 n ≠ [] := Nat.toDigits_ne_nil
  have hdigits : ∀ c ∈ Nat.toDigits 10 n, c.isDigit = true := fun c hc => isDigit_of_mem_repr hc
  have hlength : n < 10 ^ (Nat.toDigits 10 n).length :=
    (Nat.length_toDigits_le_iff (by decide) Nat.length_toDigits_pos).1 le_rfl
  have hvalue := ofDigits_toDigits n
  have hhead := head?_toDigits hn
  rw [NumeralStyle.toList_positional]
  generalize Nat.toDigits 10 n = digits at hne hdigits hlength hvalue hhead
  simp only []
  split
  · refine ⟨_, .of_fraction ⟨by simp, by simp, fun _ => rfl⟩ ?_ (by simp [hne]), ?_⟩
    · simpa [or_imp, forall_and] using hdigits
    · simp only [ofDigits_append, ofDigits_replicate_zero, show ofDigits 0 ['0'] = 0 from rfl, Nat.zero_mul, hvalue]
      exact hbits
  · split
    · rename_i hpos hlong
      obtain ⟨k, hk⟩ : ∃ k, (point - digits.length).toNat = k := ⟨_, rfl⟩
      rw [hk]
      refine ⟨_, .of_fraction (isWhole_of_head? ?_ (by simp [hne]) ?_) (by simp) (by simp), ?_⟩
      · simpa [or_imp, forall_and] using hdigits
      · rwa [List.head?_append_of_ne_nil _ hne]
      · simp only [ofDigits_append, ofDigits_replicate_zero, hvalue]
        change n * 10 ^ k * 10 + 0 ≤ maxNatural
        have hsixteen : n * 10 ^ k < 10 ^ 16 := by
          calc n * 10 ^ k < 10 ^ digits.length * 10 ^ k := Nat.mul_lt_mul_of_pos_right hlength (by positivity)
            _ = 10 ^ (digits.length + k) := (Nat.pow_add _ _ _).symm
            _ ≤ 10 ^ 16 := Nat.pow_le_pow_right (by decide) (by omega)
        simp only [maxNatural]
        omega
    · rename_i hpos hshort
      refine ⟨_, .of_fraction (isWhole_of_head? (fun c hc => hdigits c (List.mem_of_mem_take hc)) ?_ ?_)
        (fun c hc => hdigits c (List.mem_of_mem_drop hc)) ?_, ?_⟩
      · exact List.ne_nil_of_length_pos (by rw [List.length_take]; omega)
      · rw [List.head?_take, if_neg (by omega)]
        exact hhead
      · exact List.ne_nil_of_length_pos (by rw [List.length_drop]; omega)
      · simp only [List.take_append_drop, hvalue]
        exact hbits

theorem isNumber_scientific {n : Nat} (hn : n ≠ 0) (hbits : n ≤ maxNatural) {point : Int}
    (hpoint : (point - 1).natAbs ≤ maxExponent) :
    ∃ d, IsNumber (NumeralStyle.scientific true (toString n) point).toList d ∧ d.digits ≤ maxNatural := by
  have hne : Nat.toDigits 10 n ≠ [] := Nat.toDigits_ne_nil
  have hdigits : ∀ c ∈ Nat.toDigits 10 n, c.isDigit = true := fun c hc => isDigit_of_mem_repr hc
  have hvalue := ofDigits_toDigits n
  have hhead := head?_toDigits hn
  rw [NumeralStyle.toList_scientific]
  generalize Nat.toDigits 10 n = digits at hne hdigits hvalue hhead
  obtain ⟨c, more, rfl⟩ := List.exists_cons_of_ne_nil hne
  have hwhole : IsWhole [c] := isWhole_of_head? (by simp [hdigits c]) (by simp) hhead
  simp only [List.take_succ_cons, List.take_zero, List.drop_succ_cons, List.drop_zero]
  split
  · rename_i hmore
    subst hmore
    exact ⟨_, .exponent hwhole hpoint, hvalue.le.trans hbits⟩
  · rename_i hmore
    have := IsNumber.fraction hwhole (fun x hx => hdigits x (List.mem_cons_of_mem c hx)) hmore
      (.present _ hpoint)
    exact ⟨_, by simpa using this, hvalue.le.trans hbits⟩

open Binary64

theorem toList_magnitude_zero (e : Int) : (numberStyle.magnitude 0 e).toList = ['0', '.', '0'] := by
  change (numberStyle.magnitude 0 0).toList = _
  rfl

theorem isWhole_zero : IsWhole ['0'] := ⟨by simp, by simp, fun _ => rfl⟩

/-- The exponent of a shortest decimal is far from what a reader cannot take. -/
theorem natAbs_point_le {m : Nat} {e : Int} (hc : Canonical m e) (hm : m ≠ 0) :
    (NumeralStyle.point m (Decimal.shortest .even m e) - 1).natAbs ≤ maxExponent := by
  have hinside := Decimal.inRoundingInterval_shortest .even hc hm
  have hlt := Decimal.digits_shortest_lt .even hc hm
  have hne := Decimal.digits_ne_zero hm hinside
  have hge := Decimal.le_exponent hc hm hinside
  have hle := Decimal.exponent_le hc hne hinside
  generalize Decimal.shortest .even m e = d at hlt hne hge hle
  have hlog := (Nat.log2_lt hne).2 hlt
  have hlength : (toString d.digits).length ≤ 20 := by
    rw [NumeralStyle.length_toString, Nat.length_toDigits_le_iff (by decide) (by decide)]
    exact hlt.trans (by decide)
  simp only [NumeralStyle.point, maxExponent]
  rw [if_neg (by simpa using hm)]
  omega

/-- Whatever finite number is written, the text is a number of at most 64 bits with an exponent. -/
theorem isNumber_magnitude {m : Nat} {e : Int} (hc : Canonical m e) :
    ∃ d, IsNumber (numberStyle.magnitude m e).toList d ∧ d.digits ≤ maxNatural := by
  by_cases hm : m = 0
  · subst hm
    rw [toList_magnitude_zero]
    exact ⟨_, .of_fraction isWhole_zero (by simp) (by simp), by decide⟩
  · have hinside := Decimal.inRoundingInterval_shortest .even hc hm
    have hlt := Decimal.digits_shortest_lt .even hc hm
    have hpoint := natAbs_point_le hc hm
    have hn := Decimal.digits_ne_zero hm hinside
    simp only [NumeralStyle.magnitude]
    change ∃ d, IsNumber (numberStyle.layOut (toString (Decimal.shortest .even m e).digits)
      (NumeralStyle.point m (Decimal.shortest .even m e))).toList d ∧ _
    generalize Decimal.shortest .even m e = d at hlt hpoint hn
    rw [NumeralStyle.layOut]
    split
    · rename_i hpositional
      simp only [numberStyle, Option.all_some, Bool.and_eq_true, decide_eq_true_eq] at hpositional
      exact isNumber_positional hn (Nat.le_sub_one_of_lt hlt) hpositional.2
    · exact isNumber_scientific hn (Nat.le_sub_one_of_lt hlt) hpoint

/-- The decimal that is written for a magnitude. -/
def writtenMagnitude (m : Nat) (e : Int) : Decimal := (decimal? (numberStyle.magnitude m e).toList).getD ⟨0, 0⟩

theorem writtenMagnitude_zero (e : Int) : writtenMagnitude 0 e = ⟨0, -1⟩ := by
  rw [writtenMagnitude, toList_magnitude_zero]
  rfl

theorem isNumber_writtenMagnitude {m : Nat} {e : Int} (hc : Canonical m e) :
    IsNumber (numberStyle.magnitude m e).toList (writtenMagnitude m e) ∧ (writtenMagnitude m e).digits ≤ maxNatural := by
  obtain ⟨d, hd, hbits⟩ := isNumber_magnitude hc
  have hmagnitude : writtenMagnitude m e = d := by rw [writtenMagnitude, hd.decimal?_eq, Option.getD_some]
  rw [hmagnitude]
  exact ⟨hd, hbits⟩

/-- What is written would read back, if it were read exactly. -/
theorem inRoundingInterval_writtenMagnitude {m : Nat} {e : Int} (hc : Canonical m e) (hm : m ≠ 0) :
    InRoundingInterval m e (writtenMagnitude m e).value := by
  obtain ⟨d, hd, hvalue⟩ := NumeralStyle.decimal?_magnitude numberStyle m e
  rw [writtenMagnitude, hd, Option.getD_some, hvalue]
  exact Decimal.inRoundingInterval_shortest _ hc hm

theorem isInf_scaled_greatest :
    ∀ m ∈ [2 ^ 53 - 1, 2 ^ 53 - 2, 2 ^ 53 - 3], (scaled (writtenMagnitude m 971)).isInf = false := by
  decide +kernel

theorem isScalable_writtenMagnitude {m : Nat} {e : Int} (hc : Canonical m e) : IsScalable (writtenMagnitude m e) := by
  by_cases hm : m = 0
  · subst hm
    rw [writtenMagnitude_zero]
    exact ⟨by decide, fun h => absurd h (by decide)⟩
  · have hinside := inRoundingInterval_writtenMagnitude hc hm
    obtain ⟨-, hbits⟩ := isNumber_writtenMagnitude hc
    refine ⟨Decimal.exponent_le hc (Decimal.digits_ne_zero hm hinside) hinside, fun hpos => ?_⟩
    by_cases hgreatest : e < 971 ∨ m ≤ 2 ^ 53 - 4
    · exact isInf_scaled hc hm hinside (Nat.lt_of_le_pred (by decide) hbits) hpos hgreatest
    · have hsmall := hc.significand_lt
      have := hc.exponent_le
      obtain rfl : e = 971 := by omega
      refine isInf_scaled_greatest m ?_
      simp only [List.mem_cons, List.not_mem_nil, or_false]
      omega

/-! Numbers of a type. -/

theorem isSpace_of_isDigit {c : Char} (h : c.isDigit = true) : isSpace c = false := by
  rw [isSpace, ← Bool.not_eq_true]
  simp only [Bool.or_eq_true, beq_iff_eq]
  rintro (((rfl | rfl) | rfl) | rfl) <;> exact absurd h (by decide)

theorem takes_numeric {α : Type} {expected : String} {accept : Number → Except Complaint α} {negative : Bool}
    {c : Char} {more rest : List Char} {a : Number} {v : α} (hc : c.isDigit = true)
    (h : Takes (number negative) (c :: more) a rest) (haccept : accept a = .ok v) :
    Takes (numeric expected accept) ((if negative then ['-'] else []) ++ c :: more) v rest := by
  unfold numeric
  refine Takes.placed ?_
  cases negative with
  | false =>
      have hminus : (c == '-') = false := by
        rw [beq_eq_false_iff_ne]
        rintro rfl
        exact absurd hc (by decide)
      refine (takes_nextOfValue (isSpace_of_isDigit hc) _).bind_first ?_
      simp only [hminus, hc, Bool.false_or, if_true, Bool.false_eq_true, if_false]
      refine h.bind_last ?_
      simp only [haccept]
      exact takes_pure v rest
  | true =>
      refine (takes_nextOfValue (by decide) _).bind_first ?_
      refine (takes_advance '-' _).bind ?_
      refine h.bind_last ?_
      simp only [haccept]
      exact takes_pure v rest

/-- The decimal that the text of a number states, but for its sign. -/
def written (x : Float) : Decimal := (decimal? (sign (Json.number x).toList).2).getD ⟨0, 0⟩

/-- The double that is made of the text of a number. -/
def reread (x : Float) : Float := signed x.isNegative (written x)

section

variable {x : Float} {negative : Bool} {m : Nat} {e : Int}

theorem written_eq (h : x.decode = .finite negative m e) : written x = writtenMagnitude m e := by
  rw [written, Json.number, NumeralStyle.sign_write numberStyle h, writtenMagnitude]

theorem reread_of_decode (h : x.decode = .finite negative m e) :
    reread x = signed negative (writtenMagnitude m e) := by
  rw [reread, written_eq h, isNegative_of_decode h]

theorem takes_float (h : x.decode = .finite negative m e) {rest : List Char} (hends : Ends rest) :
    Takes float (Json.number x).toList (reread x) rest := by
  have hc := canonical_of_ofBits h
  obtain ⟨hnumber, hbits⟩ := isNumber_writtenMagnitude hc
  obtain ⟨c, more, hhead, hdigit⟩ := (NumeralStyle.isMagnitude_magnitude numberStyle m e).head
  have htaken := @takes_number negative _ _ hnumber hbits (isScalable_writtenMagnitude hc) rest hends
  rw [Json.number, NumeralStyle.toList_write numberStyle h, reread_of_decode h]
  rw [hhead] at htaken ⊢
  exact takes_numeric hdigit htaken rfl

/-- What is written exactly is read exactly. -/
theorem reread_eq (h : x.decode = .finite negative m e) (hexact : (written x).IsExact) : reread x = x := by
  have hc := canonical_of_ofBits h
  rw [written_eq h] at hexact
  rw [reread_of_decode h]
  by_cases hm : m = 0
  · subst hm
    rw [writtenMagnitude_zero, ← Float.ofDyadic_zero h]
    cases negative <;> rfl
  · obtain ⟨-, hbits⟩ := isNumber_writtenMagnitude hc
    have hscaled := scaled_exact hc hm (inRoundingInterval_writtenMagnitude hc hm)
      (Nat.lt_of_le_pred (by decide) hbits) hexact
    cases negative with
    | false => exact eq_of_decode hscaled h
    | true => exact eq_of_decode (decode_neg hscaled hm) h

end

/-! Whole numbers with a sign. -/

/-- A whole number stays one: it has no fraction and no exponent. -/
def wholeNumber (negative : Bool) (n : Nat) : Number :=
  if !negative then .natural n
  else if n == 0 || n > 2 ^ 63 then .real (-n.toUInt64.toFloat)
  else .negative n

theorem isWhole_toDigits (n : Nat) : IsWhole (Nat.toDigits 10 n) := by
  refine ⟨fun c hc => isDigit_of_mem_repr hc, Nat.toDigits_ne_nil, fun hhead => ?_⟩
  by_cases hn : n = 0
  · rw [hn]
    rfl
  · exact absurd hhead (head?_toDigits hn)

theorem takes_wholeNumber {negative : Bool} {n : Nat} (hn : n ≤ maxNatural) {rest : List Char} (hends : Ends rest) :
    Takes (number negative) (Nat.toDigits 10 n) (wholeNumber negative n) rest := by
  have hwhole := isWhole_toDigits n
  have hvalue := ofDigits_toDigits n
  generalize Nat.toDigits 10 n = digits at hwhole hvalue
  subst hvalue
  obtain ⟨c, more, rfl⟩ := List.exists_cons_of_ne_nil hwhole.ne_nil
  have hnone : Takes (afterWhole negative c (c :: more)) [] (wholeNumber negative (ofDigits 0 (c :: more))) rest := by
    have hfollowing : (rest.head?.map Char.isDigit).getD false = false := by
      cases hrest : rest.head? with
      | none => rfl
      | some d => exact hends.stops d hrest
    unfold afterWhole
    simp only [accumulate_eq hn, Nat.zero_add, Nat.sub_self]
    refine (takes_peek rest).bind_first ?_
    split
    · rename_i heq
      exact absurd rfl (hends _ heq).2.1
    · rename_i heq
      exact absurd rfl (hends _ heq).2.2.1
    · rename_i heq
      exact absurd rfl (hends _ heq).2.2.2
    · rw [hfollowing, Bool.and_false, if_neg (by decide), if_neg (by omega)]
      simp only [wholeNumber]
      split
      · exact takes_pure _ rest
      · split <;> exact takes_pure _ rest
  have := hwhole.takes_number (show Stops ([] ++ rest) from hends.stops) hnone
  rwa [List.append_nil] at this

theorem takes_int64 (t : Int64) {rest : List Char} (hends : Ends rest) :
    Takes int64 (Json.int t.toInt).toList t rest := by
  have hlow := t.le_toInt
  have hhigh := t.toInt_lt
  have ht := Int64.ofInt_toInt t
  generalize t.toInt = n at hlow hhigh ht
  subst ht
  obtain ⟨c, more, hdigits⟩ := List.exists_cons_of_ne_nil (Nat.toDigits_ne_nil (b := 10) (n := n.natAbs))
  have hc : c.isDigit = true := isDigit_of_mem_repr (hdigits ▸ List.mem_cons_self : c ∈ Nat.toDigits 10 n.natAbs)
  have htaken :=
    @takes_wholeNumber (decide (n < 0)) n.natAbs (by simp only [maxNatural]; omega) rest hends
  have htext : (Json.int n).toList =
      (if decide (n < 0) then ['-'] else []) ++ Nat.toDigits 10 n.natAbs := by
    cases n with
    | ofNat n => simp [Json.int, toString, Int.repr]
    | negSucc n => simp [Json.int, toString, Int.repr]
  rw [htext]
  rw [hdigits] at htaken ⊢
  refine takes_numeric hc htaken ?_
  by_cases hneg : n < 0
  · have hnumber : wholeNumber (decide (n < 0)) n.natAbs = .negative n.natAbs := by
      rw [wholeNumber, decide_eq_true hneg, if_neg (by decide), if_neg]
      simp only [Bool.or_eq_true, beq_iff_eq, decide_eq_true_eq]
      omega
    rw [hnumber]
    simp only
    rw [show -(n.natAbs : Int) = n by omega]
  · have hnumber : wholeNumber (decide (n < 0)) n.natAbs = .natural n.natAbs := by
      rw [wholeNumber, decide_eq_false hneg]
      rfl
    rw [hnumber]
    simp only
    rw [if_pos (by omega), ← Int64.ofInt_eq_ofNat, show (n.natAbs : Int) = n by omega]

end Gauge.Json.Reader
