import Gauge.Proofs.Numeral.Literal
import Gauge.Proofs.Yaml.Style

/-!
Numbers and the words that need no quotes: they are written as they are, and mean what they are.
-/

namespace Gauge.Yaml.Writer

open Cursor NumeralStyle

theorem hasIndicator_of_noMark {t : List Char} (h : ∀ c ∈ t, c ≠ ':' ∧ c ≠ '#') (b : Char) :
    hasIndicator (some b) t = false := by
  induction t generalizing b with
  | nil => rfl
  | cons c t ih =>
      obtain ⟨hcolon, hhash⟩ := h c List.mem_cons_self
      simp [hasIndicator, isIndicator, hcolon, hhash, ih fun x hx => h x (List.mem_cons_of_mem c hx)]

/-- What a finite number looks like. -/
inductive IsSigned : List Char → Prop where
  | positive {s : List Char} (h : IsMagnitude s) : IsSigned s
  | negative {s : List Char} (h : IsMagnitude s) : IsSigned ('-' :: s)

theorem IsSigned.isNumeral {s : List Char} (h : IsSigned s) {c : Char} (hc : c ∈ s) :
    IsNumeral c := by
  cases h with
  | positive h => exact h.all c hc
  | negative h =>
      rcases List.mem_cons.1 hc with rfl | hc
      · exact .inr (by simp)
      · exact h.all c hc

theorem digit_induction {p : Char → Prop} (hd : ∀ n < 10, p (Char.ofNat (48 + n))) {c : Char}
    (h : c.isDigit = true) : p c := by
  simp only [Char.isDigit, Bool.and_eq_true, decide_eq_true_eq, ge_iff_le] at h
  have hlow : 48 ≤ c.toNat := UInt32.le_iff_toNat_le.1 h.1
  have hhigh : c.toNat ≤ 57 := UInt32.le_iff_toNat_le.1 h.2
  have := hd (c.toNat - 48) (by omega)
  rwa [show 48 + (c.toNat - 48) = c.toNat by omega, Char.ofNat_toNat] at this

/-- What holds of the digits and the marks in numbers holds of all characters of a number. -/
theorem numeral_induction {p : Char → Prop} (hd : ∀ n < 10, p (Char.ofNat (48 + n)))
    (hm : p '.' ∧ p 'e' ∧ p '-' ∧ p '+') {c : Char} (h : IsNumeral c) : p c := by
  obtain ⟨hpoint, he, hminus, hplus⟩ := hm
  rcases h with h | h
  · exact digit_induction hd h
  · simp only [List.mem_cons, List.not_mem_nil, or_false] at h
    rcases h with rfl | rfl | rfl | rfl
    · exact hpoint
    · exact he
    · exact hminus
    · exact hplus

/-- A digit begins a number, be it behind a sign. -/
theorem IsSigned.exists_digit {s : List Char} (h : IsSigned s) :
    ∃ d rest, d.isDigit = true ∧ (s = d :: rest ∨ s = '-' :: d :: rest) := by
  cases h with
  | positive h =>
      obtain ⟨d, rest, rfl, hd⟩ := h.head
      exact ⟨d, rest, hd, .inl rfl⟩
  | negative h =>
      obtain ⟨d, rest, rfl, hd⟩ := h.head
      exact ⟨d, rest, hd, .inr rfl⟩

theorem isBare_of_isSigned {s : List Char} (h : IsSigned s) : IsBare s := by
  have hchars (c : Char) (hc : c ∈ s) :
      isPrintable c = true ∧ c ≠ ' ' ∧ isBreak c = false ∧ c ≠ ':' ∧ c ≠ '#' :=
    @numeral_induction
      (fun c => isPrintable c = true ∧ c ≠ ' ' ∧ isBreak c = false ∧ c ≠ ':' ∧ c ≠ '#')
      (by decide) (by decide) c (h.isNumeral hc)
  have hdigit {d : Char} (hd : d.isDigit = true) : isLeadingIndicator d = false ∧ d ≠ '?' ∧
      d ≠ ':' ∧ d ≠ '-' ∧ d ≠ '.' ∧ isEnd (some d) = false :=
    @digit_induction (fun d => isLeadingIndicator d = false ∧ d ≠ '?' ∧ d ≠ ':' ∧ d ≠ '-' ∧
      d ≠ '.' ∧ isEnd (some d) = false) (by decide) d hd
  have hspace : ' ' ∉ s := fun hs => (hchars ' ' hs).2.1 rfl
  obtain ⟨d, rest, hd, hs⟩ := h.exists_digit
  obtain ⟨hlead, hquestion, hcolon, hminus, hpoint, hend⟩ := hdigit hd
  have hmarks (c : Char) (hc : c ∈ rest) : c ≠ ':' ∧ c ≠ '#' := by
    have := hchars c (by rcases hs with rfl | rfl <;> simp [hc])
    exact this.2.2.2
  refine ⟨⟨?_, fun hh => hspace (List.mem_of_head? hh), fun hl => hspace (List.mem_of_getLast? hl),
    fun c hc => ⟨(hchars c hc).2.2.1, ne_tab_of_isPrintable (hchars c hc).1⟩, ?_⟩,
    fun c hc => (hchars c hc).1, ?_⟩
  · rcases hs with rfl | rfl <;> simp
  · rcases hs with rfl | rfl
    · simp [hasIndicator, isIndicator, hlead, hquestion, hcolon, hminus,
        hasIndicator_of_noMark hmarks]
    · simp [hasIndicator, isIndicator, isLeadingIndicator, hcolon, hend,
        hasIndicator_of_noMark hmarks]
      exact fun _ => by decide
  · rcases hs with rfl | rfl <;> simp [beginsDocument, hminus, hpoint]

theorem isSigned_number {x : Float} {negative : Bool} {m : Nat} {e : Int}
    (h : x.decode = .finite negative m e) : IsSigned (number x).toList := by
  have hmagnitude := isMagnitude_magnitude numberStyle m e
  rw [number, write_finite numberStyle h]
  cases negative with
  | false => simpa using IsSigned.positive hmagnitude
  | true => simpa using IsSigned.negative hmagnitude

/-- A number is written as it is. -/
theorem isBare_number (x : Float) : IsBare (number x).toList := by
  have hword {s : String} (hne : s.toList ≠ []) (h : isPlainAllowed s.toList = true) :
      IsBare s.toList := isBare_of_isPlainAllowed hne h
  cases h : x.decode with
  | nan =>
      have : number x = ".nan" := write_nan numberStyle h
      rw [this]
      exact hword (by decide) (by decide)
  | infinite negative =>
      have : number x = if negative then "-.inf" else ".inf" := write_infinite numberStyle h
      rw [this]
      cases negative <;> exact hword (by decide) (by decide)
  | finite negative m e => exact isBare_of_isSigned (isSigned_number h)

/-- A text without a plus sign is one of the words or a literal. -/
theorem real?_eq {s : String} (h : s.toList.head? ≠ some '+') :
    Plain.real? s =
      if [".inf", ".Inf", ".INF"].contains s then some Plain.infinity
      else if ["-.inf", "-.Inf", "-.INF"].contains s then some (-Plain.infinity)
      else if [".nan", ".NaN", ".NAN"].contains s then some Plain.nan
      else
        match Literal.read s with
        | .ok x => if x.isFinite then some x else none
        | .error _ => none := by
  have hplus : s.startsWith "+" = false := by
    rw [String.startsWith_string_eq_false_iff]
    intro hprefix
    obtain ⟨rest, hs⟩ := hprefix
    rw [← hs] at h
    exact h rfl
  unfold Plain.real?
  rw [hplus]
  split
  · rename_i hs
    rw [hs] at h
    exact absurd rfl h
  · dsimp only
    rw [String.ofList_toList]
    rfl

/-- No finite number is written as a word that begins with a point, or with one behind a minus sign. -/
theorem not_contains_number {x : Float} {negative : Bool} {m : Nat} {e : Int}
    (h : x.decode = .finite negative m e) {words : List String}
    (hwords : ∀ w ∈ words, w.toList.head? = some '.' ∨ w.toList.take 2 = ['-', '.']) :
    words.contains (number x) = false := by
  rw [List.contains_eq_mem, decide_eq_false_iff_not]
  intro hmem
  have hword := hwords _ hmem
  obtain ⟨d, rest, hd, hs⟩ := (isSigned_number h).exists_digit
  have hdigit : d ≠ '.' ∧ d ≠ '-' := digit_induction (p := fun d => d ≠ '.' ∧ d ≠ '-') (by decide) hd
  rcases hs with hs | hs <;> rw [hs] at hword
  · simp [hdigit.1, hdigit.2] at hword
  · simp [hdigit.1] at hword

/-- A number means itself. -/
theorem real?_number (x : Float) : Plain.real? (number x) = some x := by
  cases h : x.decode with
  | nan =>
      have : number x = ".nan" := write_nan numberStyle h
      rw [this, Float.eq_of_decode_nan h, real?_eq (by decide)]
      rfl
  | infinite negative =>
      have hbits := Binary64.bits_of_infinite h
      have : number x = if negative then "-.inf" else ".inf" := write_infinite numberStyle h
      rw [this, ← Float.ofBits_toBits x, hbits]
      cases negative with
      | false =>
          rw [if_neg (by decide), real?_eq (by decide)]
          rfl
      | true =>
          rw [if_pos rfl, real?_eq (by decide)]
          exact congrArg some Float.neg_infinity
  | finite negative m e =>
      have hread : Literal.read (number x) = .ok x := read_write numberStyle h
      obtain ⟨d, rest, hd, hs⟩ := (isSigned_number h).exists_digit
      have hplus : d ≠ '+' := digit_induction (p := fun d => d ≠ '+') (by decide) hd
      rw [real?_eq (by rcases hs with hs | hs <;> simp [hs, hplus]), hread,
        not_contains_number h (by decide), not_contains_number h (by decide),
        not_contains_number h (by decide)]
      simp [Float.isFinite_of_decode h]

end Gauge.Yaml.Writer
