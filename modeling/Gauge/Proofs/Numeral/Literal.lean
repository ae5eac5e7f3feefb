import Gauge.Numeral.Layout
import Gauge.Numeral.Literal
import Gauge.Proofs.Numeral.Shortest
import Gauge.Proofs.Text.Blank

/-!
Numbers as text. However the digits of a decimal are laid out, the text is read as the value of the
decimal; the shortest decimal of a number is rounded to the number, so that numbers read back.
-/

namespace Gauge

namespace Literal

theorem ofDigits_eq (acc : Nat) (digits : List Char) :
    ofDigits acc digits = Nat.ofDigitChars 10 digits acc := by
  simp only [ofDigits, Nat.ofDigitChars_eq_foldl, digitValue, Nat.mul_comm]

/-- Where digits end. -/
def Stops (s : List Char) : Prop := ∀ c ∈ s.head?, c.isDigit = false

theorem takeWhile_digits {digits rest : List Char} (h : ∀ c ∈ digits, c.isDigit = true)
    (hr : Stops rest) :
    (digits ++ rest).takeWhile Char.isDigit = digits ∧
      (digits ++ rest).dropWhile Char.isDigit = rest := by
  have hnil : rest.takeWhile Char.isDigit = [] ∧ rest.dropWhile Char.isDigit = rest := by
    cases rest with
    | nil => simp
    | cons c rest =>
        have := hr c rfl
        simp [this]
  rw [List.takeWhile_append_of_pos h, List.dropWhile_append_of_pos h, hnil.1, hnil.2]
  simp

theorem decimal?_without_point {whole tail : List Char} (hw : ∀ c ∈ whole, c.isDigit = true)
    (hne : whole ≠ []) (ht : Stops tail) (hp : tail.head? ≠ some '.') :
    decimal? (whole ++ tail) = (exponent? tail).map fun e => ⟨ofDigits 0 whole, e⟩ := by
  obtain ⟨h1, h2⟩ := takeWhile_digits hw ht
  simp only [decimal?]
  simp only [h1, h2]
  split
  · simp at hp
  · rw [if_neg (by simp [hne])]
    simp [ofDigits]

theorem decimal?_with_point {whole fraction tail : List Char}
    (hw : ∀ c ∈ whole, c.isDigit = true) (hne : whole ≠ [])
    (hf : ∀ c ∈ fraction, c.isDigit = true) (ht : Stops tail) :
    decimal? (whole ++ '.' :: (fraction ++ tail)) = (exponent? tail).map fun e =>
      ⟨ofDigits 0 (whole ++ fraction), e - fraction.length⟩ := by
  obtain ⟨h1, h2⟩ := @takeWhile_digits whole ('.' :: (fraction ++ tail)) hw (by simp [Stops])
  obtain ⟨h3, h4⟩ := takeWhile_digits hf ht
  simp only [decimal?]
  simp only [h1, h2, h3, h4]
  rw [if_neg (by simp [hne]), ofDigits_eq, ofDigits_eq, ofDigits_eq, Nat.ofDigitChars_append]

theorem isDigit_of_mem_repr {n : Nat} {c : Char} (h : c ∈ Nat.toDigits 10 n) : c.isDigit = true :=
  Nat.isDigit_of_mem_toDigits (by decide) (by decide) h

theorem ofDigits_toDigits (n : Nat) : ofDigits 0 (Nat.toDigits 10 n) = n := by
  rw [ofDigits_eq, Nat.ofDigitChars_ten_toDigits]

/-- An exponent as it is written. -/
def exponentText (plus : Bool) (k : Int) : List Char :=
  'e' :: ((if k < 0 then ['-'] else if plus then ['+'] else []) ++ Nat.toDigits 10 k.natAbs)

theorem exponent?_exponentText (plus : Bool) (k : Int) :
    exponent? (exponentText plus k) = some k := by
  have hne : Nat.toDigits 10 k.natAbs ≠ [] := Nat.toDigits_ne_nil
  have hall : (Nat.toDigits 10 k.natAbs).all Char.isDigit = true :=
    List.all_eq_true.2 fun c hc => isDigit_of_mem_repr hc
  have hsign : sign ((if k < 0 then ['-'] else if plus then ['+'] else []) ++
      Nat.toDigits 10 k.natAbs) = (decide (k < 0), Nat.toDigits 10 k.natAbs) := by
    split
    · simp [sign, *]
    · split
      · simp [sign, *]
      · obtain ⟨c, rest, hd⟩ := List.exists_cons_of_ne_nil hne
        have hc := isDigit_of_mem_repr (hd ▸ List.mem_cons_self : c ∈ Nat.toDigits 10 k.natAbs)
        rw [hd]
        simp only [sign]
        split
        · simp_all
        · simp_all
        · simp_all
  simp only [exponentText, exponent?]
  simp only [hsign, ofDigits_toDigits]
  rw [if_pos (by decide), if_neg (by simp [hne, hall])]
  simp only [decide_eq_true_eq]
  split
  · rw [Option.some.injEq]
    omega
  · rw [Option.some.injEq]
    omega

end Literal

namespace NumeralStyle

open Literal

theorem length_toString (n : Nat) : (toString n).length = (Nat.toDigits 10 n).length := by
  rw [Nat.toString_eq_repr, ← Nat.toList_repr, String.length_toList]

theorem toList_positional (pointKept : Bool) (n : Nat) (point : Int) :
    (positional pointKept (toString n) point).toList =
      let digits := Nat.toDigits 10 n
      if point ≤ 0 then ['0'] ++ '.' :: (List.replicate (-point).toNat '0' ++ digits)
      else if digits.length ≤ point then
        digits ++ List.replicate (point - digits.length).toNat '0' ++ (if pointKept then ['.', '0'] else [])
      else digits.take point.toNat ++ '.' :: digits.drop point.toNat := by
  simp only [positional]
  simp only [length_toString]
  split
  · simp
  · split
    · cases pointKept <;> simp
    · simp

theorem toList_scientific (plus : Bool) (n : Nat) (point : Int) :
    (scientific plus (toString n) point).toList =
      let digits := Nat.toDigits 10 n
      digits.take 1 ++ (if digits.drop 1 = [] then [] else '.' :: digits.drop 1) ++
        exponentText plus (point - 1) := by
  simp only [scientific, exponentText]
  simp only [List.isEmpty_iff, Nat.toString_eq_repr, Nat.toList_repr, String.toList_append,
    String.toList_ofList]
  split <;> split <;> simp <;> split <;> simp

/-- The point before all digits. -/
theorem decimal?_point_before {digits : List Char} (hdigits : ∀ c ∈ digits, c.isDigit = true)
    (zeros : Nat) :
    ∃ d, decimal? (['0'] ++ '.' :: (List.replicate zeros '0' ++ digits)) = some d ∧
      d.value = ofDigits 0 digits * 10 ^ (-(zeros : Int) - digits.length) := by
  have h := @decimal?_with_point ['0'] (List.replicate zeros '0' ++ digits) []
    (by simp) (by simp) (by simpa [or_imp, forall_and] using hdigits) (by simp [Stops])
  rw [List.append_nil] at h
  refine ⟨_, h, ?_⟩
  have hval : ofDigits 0 (['0'] ++ (List.replicate zeros '0' ++ digits)) = ofDigits 0 digits := by
    rw [ofDigits_eq, ofDigits_eq, Nat.ofDigitChars_append, Nat.ofDigitChars_append,
      Nat.ofDigitChars_replicate_zero]
    rfl
  simp only [Decimal.value, hval, List.length_append, List.length_replicate]
  congr 2
  omega

/-- The point behind all digits, or none. -/
theorem decimal?_point_behind (pointKept : Bool) {digits : List Char} (hne : digits ≠ [])
    (hdigits : ∀ c ∈ digits, c.isDigit = true) (zeros : Nat) :
    ∃ d, decimal? (digits ++ List.replicate zeros '0' ++ (if pointKept then ['.', '0'] else [])) =
        some d ∧ d.value = ofDigits 0 digits * 10 ^ (zeros : Int) := by
  have hwhole : ∀ c ∈ digits ++ List.replicate zeros '0', c.isDigit = true := by
    simpa [or_imp, forall_and] using hdigits
  have hval : ofDigits 0 (digits ++ List.replicate zeros '0') = 10 ^ zeros * ofDigits 0 digits := by
    rw [ofDigits_eq, ofDigits_eq, Nat.ofDigitChars_append, Nat.ofDigitChars_replicate_zero]
  rw [zpow_natCast]
  cases pointKept with
  | false =>
      have h := @decimal?_without_point (digits ++ List.replicate zeros '0') [] hwhole
        (by simp [hne]) (by simp [Stops]) (by simp)
      refine ⟨_, h, ?_⟩
      simp only [Decimal.value, hval]
      push_cast
      ring
  | true =>
      have h := @decimal?_with_point (digits ++ List.replicate zeros '0') ['0'] [] hwhole
        (by simp [hne]) (by simp) (by simp [Stops])
      refine ⟨_, h, ?_⟩
      rw [ofDigits_eq] at hval
      rw [ofDigits_eq, Nat.ofDigitChars_append, hval]
      simp only [Decimal.value, Nat.ofDigitChars_cons, Nat.ofDigitChars_nil]
      norm_num
      ring

/-- The point between two digits. -/
theorem decimal?_point_between {digits : List Char} (hdigits : ∀ c ∈ digits, c.isDigit = true)
    {k : Nat} (hk : 0 < k) (hlength : k < digits.length) :
    ∃ d, decimal? (digits.take k ++ '.' :: digits.drop k) = some d ∧
      d.value = ofDigits 0 digits * 10 ^ ((k : Int) - digits.length) := by
  have h := @decimal?_with_point (digits.take k) (digits.drop k) []
    (fun c hc => hdigits c (List.mem_of_mem_take hc))
    (List.ne_nil_of_length_pos (by rw [List.length_take]; omega))
    (fun c hc => hdigits c (List.mem_of_mem_drop hc)) (by simp [Stops])
  rw [List.append_nil, List.take_append_drop] at h
  refine ⟨_, h, ?_⟩
  simp only [Decimal.value, List.length_drop]
  congr 2
  omega

/-- Digits with a point in a place of its own are read as the digits, times the power of ten that the
place stands for. -/
theorem decimal?_positional (pointKept : Bool) (n : Nat) (point : Int) :
    ∃ d, decimal? (positional pointKept (toString n) point).toList = some d ∧
      d.value = n * 10 ^ (point - (toString n).length) := by
  have hne : Nat.toDigits 10 n ≠ [] := Nat.toDigits_ne_nil
  have hdigits : ∀ c ∈ Nat.toDigits 10 n, c.isDigit = true := fun c hc => isDigit_of_mem_repr hc
  have hnumber := ofDigits_toDigits n
  rw [toList_positional, length_toString]
  generalize Nat.toDigits 10 n = digits at hne hdigits hnumber
  subst hnumber
  simp only []
  split
  · rename_i hpoint
    obtain ⟨d, hd, hval⟩ := decimal?_point_before hdigits (-point).toNat
    refine ⟨d, hd, hval.trans ?_⟩
    congr 2
    omega
  · split
    · rename_i hpoint hlong
      obtain ⟨d, hd, hval⟩ :=
        decimal?_point_behind pointKept hne hdigits (point - digits.length).toNat
      refine ⟨d, hd, hval.trans ?_⟩
      congr 2
      omega
    · rename_i hpoint hshort
      obtain ⟨d, hd, hval⟩ :=
        decimal?_point_between hdigits (show 0 < point.toNat by omega) (by omega)
      refine ⟨d, hd, hval.trans ?_⟩
      congr 2
      omega

theorem decimal?_scientific (plus : Bool) (n : Nat) (point : Int) :
    ∃ d, decimal? (scientific plus (toString n) point).toList = some d ∧
      d.value = n * 10 ^ (point - (toString n).length) := by
  have hne : Nat.toDigits 10 n ≠ [] := Nat.toDigits_ne_nil
  have hdigits : ∀ c ∈ Nat.toDigits 10 n, c.isDigit = true := fun c hc => isDigit_of_mem_repr hc
  have hnumber := ofDigits_toDigits n
  have hexp := exponent?_exponentText plus (point - 1)
  have hstops : Stops (exponentText plus (point - 1)) := by simp [Stops, exponentText]
  have hpoint : (exponentText plus (point - 1)).head? ≠ some '.' := by simp [exponentText]
  rw [toList_scientific, length_toString]
  generalize Nat.toDigits 10 n = digits at hne hdigits hnumber
  generalize exponentText plus (point - 1) = tail at hexp hstops hpoint
  obtain ⟨c, rest, rfl⟩ := List.exists_cons_of_ne_nil hne
  simp only [List.take_succ_cons, List.take_zero, List.drop_succ_cons, List.drop_zero]
  split
  · rename_i hrest
    subst hrest
    have h := decimal?_without_point hdigits hne hstops hpoint
    rw [hexp] at h
    refine ⟨_, by simpa using h, ?_⟩
    simp only [Decimal.value, hnumber, List.length_singleton]
    rfl
  · have h := decimal?_with_point (fun x hx => hdigits x (by simp_all)) (List.cons_ne_nil c [])
      (fun x hx => hdigits x (List.mem_cons_of_mem c hx)) hstops
    rw [hexp, List.singleton_append, List.singleton_append] at h
    refine ⟨_, by simpa using h, ?_⟩
    simp only [Decimal.value, hnumber, List.length_cons]
    congr 2
    omega

/-- Digits with a point in a place, in one of the two ways. -/
def layOut (style : NumeralStyle) (digits : String) (point : Int) : String :=
  if style.lowest.all (· < point) && style.highest.all (point ≤ ·) then
    positional style.pointKept digits point
  else scientific style.exponentPlus digits point

/-- Where the point of the shortest decimal of a number is. -/
def point (m : Nat) (d : Decimal) : Int :=
  if m == 0 then 1 else (toString d.digits).length + d.exponent

/-- The text of the magnitude of a finite number. -/
def magnitude (style : NumeralStyle) (m : Nat) (e : Int) : String :=
  let d := Decimal.shortest style.tie m e
  style.layOut (toString d.digits) (point m d)

theorem write_finite (style : NumeralStyle) {x : Float} {negative : Bool} {m : Nat} {e : Int}
    (h : x.decode = .finite negative m e) :
    style.write x = (if negative then "-" else "") ++ style.magnitude m e := by
  simp only [write]
  rw [h]
  rfl

theorem write_nan (style : NumeralStyle) {x : Float} (h : x.decode = .nan) : style.write x = style.nan := by
  simp only [write]
  rw [h]

theorem write_infinite (style : NumeralStyle) {x : Float} {negative : Bool} (h : x.decode = .infinite negative) :
    style.write x = if negative then style.negativeInfinity else style.infinity := by
  simp only [write]
  rw [h]

theorem layOut_cases (style : NumeralStyle) (digits : String) (point : Int) :
    style.layOut digits point = positional style.pointKept digits point ∨
      style.layOut digits point = scientific style.exponentPlus digits point := by
  simp only [layOut]
  split
  · exact .inl rfl
  · exact .inr rfl

/-- The point is where the digits have their value. -/
theorem value_at_point (style : NumeralStyle) (m : Nat) (e : Int) :
    let d := Decimal.shortest style.tie m e
    (d.digits * 10 ^ (point m d - (toString d.digits).length) : ℚ) = d.value := by
  have hzero : m = 0 → (Decimal.shortest style.tie m e).digits = 0 ∧
      (Decimal.shortest style.tie m e).exponent = 0 := by
    rintro rfl
    exact ⟨rfl, rfl⟩
  generalize Decimal.shortest style.tie m e = d at hzero
  simp only [Decimal.value, point]
  split
  · rename_i hm
    obtain ⟨hd, he⟩ := hzero (by simpa using hm)
    rw [hd, he]
    simp
  · congr 2
    omega

theorem decimal?_magnitude (style : NumeralStyle) (m : Nat) (e : Int) :
    ∃ d, decimal? (style.magnitude m e).toList = some d ∧
      d.value = (Decimal.shortest style.tie m e).value := by
  rw [← value_at_point]
  simp only [magnitude]
  generalize Decimal.shortest style.tie m e = d
  rcases layOut_cases style (toString d.digits) (point m d) with h | h
  · rw [h]
    exact decimal?_positional _ _ _
  · rw [h]
    exact decimal?_scientific _ _ _

/-- Characters of the text of a finite number. -/
def IsNumeral (c : Char) : Prop := c.isDigit = true ∨ c ∈ ['.', 'e', '-', '+']

/-- The text of a magnitude begins with a digit. -/
structure IsMagnitude (s : List Char) : Prop where
  head : ∃ c rest, s = c :: rest ∧ c.isDigit = true
  all : ∀ c ∈ s, IsNumeral c

theorem isMagnitude_append {digits rest : List Char} (hd : ∀ c ∈ digits, c.isDigit = true)
    (hne : digits ≠ []) (hr : ∀ c ∈ rest, IsNumeral c) : IsMagnitude (digits ++ rest) := by
  obtain ⟨c, more, rfl⟩ := List.exists_cons_of_ne_nil hne
  refine ⟨⟨c, more ++ rest, rfl, hd c (by simp)⟩, fun x hx => ?_⟩
  rcases List.mem_append.1 hx with h | h
  · exact .inl (hd x h)
  · exact hr x h

theorem isMagnitude_positional (pointKept : Bool) (n : Nat) (point : Int) :
    IsMagnitude (positional pointKept (toString n) point).toList := by
  have hne : Nat.toDigits 10 n ≠ [] := Nat.toDigits_ne_nil
  have hdigits : ∀ c ∈ Nat.toDigits 10 n, c.isDigit = true := fun c hc => isDigit_of_mem_repr hc
  rw [toList_positional]
  generalize Nat.toDigits 10 n = digits at hne hdigits
  simp only []
  split
  · refine isMagnitude_append (by simp) (by simp) fun c hc => ?_
    simp only [List.mem_cons, List.mem_append, List.mem_replicate] at hc
    rcases hc with rfl | ⟨-, rfl⟩ | hc
    · exact .inr (by simp)
    · exact .inl rfl
    · exact .inl (hdigits c hc)
  · split
    · refine isMagnitude_append (by simpa [or_imp, forall_and] using hdigits) (by simp [hne]) ?_
      cases pointKept <;> simp [IsNumeral]
    · refine isMagnitude_append (fun c hc => hdigits c (List.mem_of_mem_take hc))
        (by simp [hne]; omega) fun c hc => ?_
      rcases List.mem_cons.1 hc with rfl | hc
      · exact .inr (by simp)
      · exact .inl (hdigits c (List.mem_of_mem_drop hc))

theorem isMagnitude_scientific (plus : Bool) (n : Nat) (point : Int) :
    IsMagnitude (scientific plus (toString n) point).toList := by
  have hne : Nat.toDigits 10 n ≠ [] := Nat.toDigits_ne_nil
  have hdigits : ∀ c ∈ Nat.toDigits 10 n, c.isDigit = true := fun c hc => isDigit_of_mem_repr hc
  rw [toList_scientific]
  generalize Nat.toDigits 10 n = digits at hne hdigits
  simp only [List.append_assoc]
  refine isMagnitude_append (fun c hc => hdigits c (List.mem_of_mem_take hc)) (by simp [hne])
    fun c hc => ?_
  rcases List.mem_append.1 hc with hc | hc
  · split at hc
    · cases hc
    · rcases List.mem_cons.1 hc with rfl | hc
      · exact .inr (by simp)
      · exact .inl (hdigits c (List.mem_of_mem_drop hc))
  · rcases List.mem_cons.1 hc with rfl | hc
    · exact .inr (by simp)
    · rcases List.mem_append.1 hc with hc | hc
      · refine .inr ?_
        split at hc
        · simp_all
        · split at hc <;> simp_all
      · exact .inl (isDigit_of_mem_repr hc)

theorem isMagnitude_magnitude (style : NumeralStyle) (m : Nat) (e : Int) :
    IsMagnitude (style.magnitude m e).toList := by
  simp only [magnitude]
  generalize Decimal.shortest style.tie m e = d
  rcases layOut_cases style (toString d.digits) (point m d) with h | h
  · rw [h]
    exact isMagnitude_positional _ _ _
  · rw [h]
    exact isMagnitude_scientific _ _ _

theorem IsMagnitude.sign_eq {s : List Char} (h : IsMagnitude s) : sign s = (false, s) := by
  obtain ⟨c, rest, rfl, hc⟩ := h.head
  simp only [sign]
  split <;> simp_all

theorem toList_write (style : NumeralStyle) {x : Float} {negative : Bool} {m : Nat} {e : Int}
    (h : x.decode = .finite negative m e) :
    (style.write x).toList = (if negative then ['-'] else []) ++ (style.magnitude m e).toList := by
  rw [write_finite style h]
  cases negative <;> simp

theorem sign_write (style : NumeralStyle) {x : Float} {negative : Bool} {m : Nat} {e : Int}
    (h : x.decode = .finite negative m e) :
    sign (style.write x).toList = (negative, (style.magnitude m e).toList) := by
  rw [toList_write style h]
  cases negative with
  | false => exact (isMagnitude_magnitude style m e).sign_eq
  | true => rfl

theorem isBlank_of_isNumeral {c : Char} (h : IsNumeral c) : Text.isBlank c = false := by
  rcases h with h | h
  · exact Text.isBlank_of_isDigit h
  · simp only [List.mem_cons, List.not_mem_nil, or_false] at h
    rcases h with rfl | rfl | rfl | rfl <;> decide

theorem isBlank_of_mem_write (style : NumeralStyle) {x : Float} {negative : Bool} {m : Nat} {e : Int}
    (h : x.decode = .finite negative m e) {c : Char} (hc : c ∈ (style.write x).toList) :
    Text.isBlank c = false := by
  rw [toList_write style h, List.mem_append] at hc
  rcases hc with hc | hc
  · obtain ⟨-, rfl⟩ : negative = true ∧ c = '-' := by cases negative <;> simp_all
    rfl
  · exact isBlank_of_isNumeral ((isMagnitude_magnitude style m e).all c hc)

/-- A finite number reads back, in whatever style it is written. -/
theorem read_write (style : NumeralStyle) {x : Float} {negative : Bool} {m : Nat} {e : Int}
    (h : x.decode = .finite negative m e) : Literal.read (style.write x) = .ok x := by
  obtain ⟨d, hd, hvalue⟩ := decimal?_magnitude style m e
  have hx : d.toFloat negative = x := by
    by_cases hm : m = 0
    · subst hm
      refine Decimal.toFloat_zero h ?_
      have h0 : (Decimal.shortest style.tie 0 e).value = 0 := by simp [Decimal.shortest, Decimal.value]
      rw [h0] at hvalue
      have hpow : (10 : ℚ) ^ d.exponent ≠ 0 := by positivity
      simpa [Decimal.value, hpow] using hvalue
    · refine Decimal.toFloat_eq h hm ?_
      rw [hvalue]
      exact Decimal.inRoundingInterval_shortest _ (Binary64.canonical_of_ofBits h) hm
  have hne : (style.write x).isEmpty = false := by
    obtain ⟨c, rest, hhead, -⟩ := (isMagnitude_magnitude style m e).head
    rw [← Bool.not_eq_true, String.isEmpty_iff, ← String.toList_inj, toList_write style h, hhead]
    simp
  simp only [Literal.read]
  rw [hne, sign_write style h]
  simp only [hd, hx]
  rfl

/-- As a plain decimal every number reads back, the words for what is not finite included. -/
theorem read_write_plain (x : Float) : Literal.read (plain.write x) = .ok x := by
  cases h : x.decode with
  | nan =>
      rw [write_nan plain h, Float.eq_of_decode_nan h]
      rfl
  | infinite negative =>
      rw [write_infinite plain h, ← Float.ofBits_toBits x, Binary64.bits_of_infinite h]
      cases negative <;> rfl
  | finite negative m e => exact read_write plain h

/-- There is no white space in a plain decimal. -/
theorem isBlank_of_mem_plain (x : Float) : ∀ c ∈ (plain.write x).toList, Text.isBlank c = false := by
  cases h : x.decode with
  | nan =>
      rw [write_nan plain h]
      simp [plain, Text.isBlank]
  | infinite negative =>
      rw [write_infinite plain h]
      cases negative <;> simp [plain, Text.isBlank]
  | finite negative m e => exact fun c hc => isBlank_of_mem_write plain h hc

theorem write_plain_inj {x y : Float} : plain.write x = plain.write y ↔ x = y := by
  constructor
  · intro h
    have hread := read_write_plain x
    rw [h, read_write_plain y] at hread
    exact (Except.ok.inj hread).symm
  · rintro rfl
    rfl

end NumeralStyle

end Gauge
