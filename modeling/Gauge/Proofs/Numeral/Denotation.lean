import Gauge.Proofs.Numeral.Nearest
import Gauge.Proofs.Numeral.Spelling

/-!
What texts for numbers stand for. Digits have an exact value, for which the nearest double is taken; the words
for infinity and for no number are written in any case of letters. Reading takes these texts and no others, each
as what it stands for.
-/

namespace Gauge.Literal

open Binary64

namespace Spelling

/-- The exact value, but for the sign. -/
def exact (n : Spelling) : ℚ :=
  let fraction := n.fraction.getD []
  (Nat.ofDigitChars 10 n.whole 0 + Nat.ofDigitChars 10 fraction 0 / 10 ^ fraction.length) *
    10 ^ (n.power.map Power.value).getD 0

theorem value_decimal (n : Spelling) : n.decimal.value = n.exact := by
  simp only [decimal, Decimal.value, exact, ofDigits_eq, Nat.ofDigitChars_append]
  rw [Nat.ofDigitChars_eq_ofDigitChars_zero, zpow_sub₀ (by norm_num), zpow_natCast]
  push_cast
  field_simp

end Spelling

/-- The texts for numbers, each with the double that it stands for. -/
inductive Denotes : String → Float → Prop where
  | digits (n : Spelling) {x : Float} (nearest : RoundsTo n.isNegative n.exact x) : Denotes n.text x
  | infinity (sign : Option Sign) {word : List Char} {x : Float}
      (letters : word.map Char.toLower = "inf".toList ∨ word.map Char.toLower = "infinity".toList)
      (infinite : x.decode = .infinite (sign == some .minus)) :
      Denotes (String.ofList (signText sign ++ word)) x
  | nan (sign : Option Sign) {word : List Char} {x : Float}
      (letters : word.map Char.toLower = "nan".toList) (nan : x.decode = .nan) :
      Denotes (String.ofList (signText sign ++ word)) x

/-! The parts of a text that is read. -/

theorem exists_sign (s : List Char) :
    ∃ written : Option Sign, s = signText written ++ (sign s).2 ∧
      (sign s).1 = (written == some .minus) := by
  unfold sign
  split
  · exact ⟨some .minus, rfl, rfl⟩
  · exact ⟨some .plus, rfl, rfl⟩
  · exact ⟨none, rfl, rfl⟩

theorem exists_power {s : List Char} {k : Int} (h : exponent? s = some k) :
    ∃ p : Option Power, s = (p.map Power.text).getD [] ∧ (p.map Power.value).getD 0 = k := by
  cases s with
  | nil => exact ⟨none, rfl, Option.some.inj h⟩
  | cons mark rest =>
      obtain ⟨written, hrest, hnegative⟩ := exists_sign rest
      simp only [exponent?] at h
      generalize sign rest = parts at h hrest hnegative
      obtain ⟨negative, digits⟩ := parts
      split at h
      · rename_i hmark
        split at h
        · cases h
        · rename_i hdigits
          simp only [Bool.or_eq_true, Bool.not_eq_true', not_or, List.isEmpty_iff,
            Bool.not_eq_false] at hdigits
          refine ⟨some ⟨mark, written, digits, by simpa using hmark, hdigits.1,
            List.all_eq_true.mp hdigits.2⟩, ?_, ?_⟩
          · simp [Power.text, ← hrest]
          · simp only at hnegative
            subst hnegative
            simpa [Power.value] using h
      · cases h

/-- A point with the digits behind it, if there is one. -/
def fractionText : Option (List Char) → List Char
  | some digits => '.' :: digits
  | none => []

/-- Where a text without a sign is cut when it is read. -/
theorem exists_cut (s : List Char) : ∃ (whole : List Char) (fraction : Option (List Char)) (tail : List Char),
    s = whole ++ (fractionText fraction ++ tail) ∧
      (∀ c ∈ whole ++ fraction.getD [], c.isDigit = true) ∧
      decimal? s = if whole ++ fraction.getD [] = [] then none
        else (exponent? tail).map fun e =>
          ⟨ofDigits 0 (whole ++ fraction.getD []), e - (fraction.getD []).length⟩ := by
  have hs := List.takeWhile_append_dropWhile (p := Char.isDigit) (l := s)
  have hwhole : ∀ c ∈ s.takeWhile Char.isDigit, c.isDigit = true := List.all_eq_true.mp List.all_takeWhile
  by_cases hpoint : ∃ more, s.dropWhile Char.isDigit = '.' :: more
  · obtain ⟨more, hrest⟩ := hpoint
    have hmore := List.takeWhile_append_dropWhile (p := Char.isDigit) (l := more)
    have hfraction : ∀ c ∈ more.takeWhile Char.isDigit, c.isDigit = true :=
      List.all_eq_true.mp List.all_takeWhile
    refine ⟨s.takeWhile Char.isDigit, some (more.takeWhile Char.isDigit), more.dropWhile Char.isDigit,
      ?_, ?_, ?_⟩
    · rw [fractionText, List.cons_append, hmore, ← hrest, hs]
    · simpa only [Option.getD_some, List.forall_mem_append] using ⟨hwhole, hfraction⟩
    · simp only [decimal?, hrest]
      simp [ofDigits, List.foldl_append]
  · refine ⟨s.takeWhile Char.isDigit, none, s.dropWhile Char.isDigit, ?_, ?_, ?_⟩
    · rw [fractionText, List.nil_append, hs]
    · simpa using hwhole
    · simp only [decimal?]
      split
      · rename_i more hrest
        exact absurd ⟨more, hrest⟩ hpoint
      · simp [ofDigits]

theorem exists_spelling {s : List Char} {d : Decimal} (h : decimal? s = some d) (written : Option Sign) :
    ∃ n : Spelling, n.sign = written ∧ n.magnitude = s ∧ n.decimal = d := by
  obtain ⟨whole, fraction, tail, rfl, hdigits, hread⟩ := exists_cut s
  rw [hread] at h
  split at h
  · cases h
  · rename_i hne
    obtain ⟨k, hk, rfl⟩ := Option.map_eq_some_iff.mp h
    obtain ⟨p, rfl, rfl⟩ := exists_power hk
    exact ⟨⟨written, whole, fraction, p, hne, hdigits⟩, rfl, by cases fraction <;> rfl, rfl⟩

/-! Words. -/

theorem toLower_of_isDigit {c : Char} (h : c.isDigit = true) : c.toLower = c := by
  simp only [Char.isDigit, Bool.and_eq_true, decide_eq_true_eq] at h
  rw [Char.toLower, dif_neg]
  rintro ⟨hlow, -⟩
  exact absurd (UInt32.le_trans hlow h.2) (by decide)

/-- A word begins as no number in digits does. -/
theorem word_head {word rest : List Char} {small : Char} (letters : word.map Char.toLower = small :: rest)
    (h : small = 'i' ∨ small = 'n') :
    ∃ c more, word = c :: more ∧ c.isDigit = false ∧ c ≠ '-' ∧ c ≠ '+' ∧ c ≠ '.' := by
  obtain ⟨c, more, rfl, hc, -⟩ := List.map_eq_cons_iff.mp letters
  refine ⟨c, more, rfl, ?_, ?_⟩
  · by_contra hdigit
    rw [Bool.not_eq_false] at hdigit
    rw [toLower_of_isDigit hdigit] at hc
    rcases h with rfl | rfl <;> subst hc <;> cases hdigit
  · refine ⟨?_, ?_, ?_⟩ <;> rintro rfl <;> rcases h with rfl | rfl <;> revert hc <;> decide

theorem sign_word {word : List Char} {c : Char} {rest : List Char}
    (letters : word.map Char.toLower = c :: rest) (h : c = 'i' ∨ c = 'n') (written : Option Sign) :
    sign (signText written ++ word) = (written == some .minus, word) := by
  obtain ⟨c, more, rfl, -, hminus, hplus, -⟩ := word_head letters h
  exact sign_signText written fun x hx => by
    obtain rfl : c = x := Option.some.inj hx
    exact ⟨hminus, hplus⟩

theorem decimal?_word {word : List Char} {c : Char} {rest : List Char}
    (letters : word.map Char.toLower = c :: rest) (h : c = 'i' ∨ c = 'n') : decimal? word = none := by
  obtain ⟨c, more, rfl, hdigit, -, -, hpoint⟩ := word_head letters h
  cases hd : decimal? (c :: more) with
  | none => rfl
  | some d =>
      obtain ⟨n, -, hmagnitude, -⟩ := exists_spelling hd none
      obtain ⟨c', more', hcons, hc'⟩ := n.magnitude_eq_cons
      rw [hmagnitude] at hcons
      obtain ⟨rfl, -⟩ := List.cons.inj hcons
      rcases hc' with hc' | hc'
      · rw [hdigit] at hc'
        cases hc'
      · exact absurd hc' hpoint

theorem decode_infinite_iff {x : Float} {negative : Bool} : x.decode = .infinite negative ↔
    Float.ofBits (if negative then 0xfff0000000000000 else 0x7ff0000000000000) = x := by
  constructor
  · intro h
    rw [← bits_of_infinite h, Float.ofBits_toBits]
  · rintro rfl
    cases negative <;> rfl

theorem decode_nan_iff {x : Float} (negative : Bool) : x.decode = .nan ↔
    Float.ofBits (if negative then 0xfff8000000000000 else 0x7ff8000000000000) = x := by
  constructor
  · intro h
    rw [Float.eq_of_decode_nan h]
    cases negative <;> rfl
  · rintro rfl
    cases negative <;> rfl

theorem word?_eq_some_iff {negative : Bool} {s : List Char} {x : Float} :
    word? negative s = some x ↔
      (s.map Char.toLower = "inf".toList ∨ s.map Char.toLower = "infinity".toList) ∧
          x.decode = .infinite negative ∨
        s.map Char.toLower = "nan".toList ∧ x.decode = .nan := by
  have hword (w : String) : s.map Char.toLower = w.toList ↔ String.ofList (s.map Char.toLower) = w := by
    rw [← String.toList_inj, String.toList_ofList]
  rw [hword, hword, hword, decode_infinite_iff, decode_nan_iff negative, word?]
  split
  · rename_i h
    simp [h]
  · rename_i h
    simp [h]
  · rename_i h
    simp [h]
  · rename_i hinf hinfinity hnan
    constructor
    · intro h
      cases h
    · rintro (⟨h | h, -⟩ | ⟨h, -⟩)
      · exact (hinf h).elim
      · exact (hinfinity h).elim
      · exact (hnan h).elim

/-! Texts. -/

theorem denotes_of_read {s : String} {x : Float} (h : read s = .ok x) : Denotes s x := by
  obtain ⟨written, hs, hnegative⟩ := exists_sign s.toList
  have htext : s = String.ofList (signText written ++ (sign s.toList).2) := by
    rw [← hs, String.ofList_toList]
  simp only [read] at h
  rw [hnegative] at h
  split at h
  · cases h
  · split at h
    · rename_i d hd
      obtain ⟨n, rfl, hmagnitude, rfl⟩ := exists_spelling hd written
      rw [htext, ← hmagnitude]
      refine .digits n ?_
      rw [← n.value_decimal]
      exact Decimal.toFloat_eq_iff.mp (Except.ok.inj h)
    · split at h
      · rename_i y hy
        obtain rfl := Except.ok.inj h
        rw [htext]
        rcases word?_eq_some_iff.mp hy with ⟨letters, infinite⟩ | ⟨letters, nan⟩
        · exact .infinity written letters infinite
        · exact .nan written letters nan
      · cases h

theorem read_word {word : List Char} {c : Char} {rest : List Char}
    (letters : word.map Char.toLower = c :: rest) (h : c = 'i' ∨ c = 'n') {written : Option Sign} {x : Float}
    (hword : word? (written == some .minus) word = some x) :
    read (String.ofList (signText written ++ word)) = .ok x := by
  have hne : (String.ofList (signText written ++ word)).isEmpty = false := by
    obtain ⟨a, more, rfl, -⟩ := word_head letters h
    rw [← Bool.not_eq_true, String.isEmpty_iff, ← String.toList_inj]
    simp
  simp only [read, hne, String.toList_ofList, sign_word letters h]
  simp only [decimal?_word letters h, hword]
  rfl

theorem read_of_denotes {s : String} {x : Float} (h : Denotes s x) : read s = .ok x := by
  cases h with
  | digits n nearest =>
      rw [n.read_text, Spelling.value, Decimal.toFloat_eq_iff.mpr]
      rw [n.value_decimal]
      exact nearest
  | infinity written letters infinite =>
      have hword := word?_eq_some_iff.mpr (.inl ⟨letters, infinite⟩)
      rcases letters with letters | letters
      · exact read_word letters (.inl rfl) hword
      · exact read_word letters (.inl rfl) hword
  | nan written letters nan =>
      exact read_word letters (.inr rfl) (word?_eq_some_iff.mpr (.inr ⟨letters, nan⟩))

theorem read_eq_ok_iff {s : String} {x : Float} : read s = .ok x ↔ Denotes s x :=
  ⟨denotes_of_read, read_of_denotes⟩

end Gauge.Literal
