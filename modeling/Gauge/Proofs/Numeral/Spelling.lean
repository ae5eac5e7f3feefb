import Gauge.Proofs.Numeral.Literal

/-!
The ways to write a finite number: a sign, digits with a point before, among or behind them, and a power of
ten, of which only some digits are needed. Each of them is read as the number nearest to what it stands for.
-/

namespace Gauge

namespace Literal

/-- A sign that is written. -/
inductive Sign where
  | minus
  | plus
deriving DecidableEq, Repr

def Sign.text : Sign → Char
  | .minus => '-'
  | .plus => '+'

def signText (s : Option Sign) : List Char := s.toList.map Sign.text

/-- A power of ten behind its mark. -/
structure Power where
  mark : Char
  sign : Option Sign
  digits : List Char
  isMark : mark = 'e' ∨ mark = 'E'
  nonempty : digits ≠ []
  isDigit : ∀ c ∈ digits, c.isDigit = true

namespace Power

def text (p : Power) : List Char := p.mark :: (signText p.sign ++ p.digits)

def value (p : Power) : Int :=
  if p.sign = some .minus then -(ofDigits 0 p.digits : Int) else ofDigits 0 p.digits

end Power

/-- A finite number as it is written. -/
structure Spelling where
  sign : Option Sign
  whole : List Char
  /-- The digits behind the point, if there is a point. -/
  fraction : Option (List Char)
  power : Option Power
  nonempty : whole ++ fraction.getD [] ≠ []
  isDigit : ∀ c ∈ whole ++ fraction.getD [], c.isDigit = true

namespace Spelling

def isNegative (n : Spelling) : Bool := n.sign == some .minus

/-- What is behind the whole part. -/
def tail (n : Spelling) : List Char :=
  (match n.fraction with
    | some digits => '.' :: digits
    | none => []) ++ (n.power.map Power.text).getD []

/-- What is behind the sign. -/
def magnitude (n : Spelling) : List Char := n.whole ++ n.tail

def text (n : Spelling) : String := String.ofList (signText n.sign ++ n.magnitude)

def decimal (n : Spelling) : Decimal :=
  let fraction := n.fraction.getD []
  ⟨ofDigits 0 (n.whole ++ fraction), (n.power.map Power.value).getD 0 - fraction.length⟩

def value (n : Spelling) : Float := n.decimal.toFloat n.isNegative

end Spelling

/-! Reading the parts. -/

/-- What does not begin with a sign. -/
def Unsigned (s : List Char) : Prop := ∀ c ∈ s.head?, c ≠ '-' ∧ c ≠ '+'

theorem sign_signText (s : Option Sign) {rest : List Char} (h : Unsigned rest) :
    sign (signText s ++ rest) = (s == some .minus, rest) := by
  cases s with
  | some s => cases s <;> rfl
  | none =>
      cases rest with
      | nil => rfl
      | cons c rest =>
          obtain ⟨hminus, hplus⟩ := h c rfl
          simp only [signText, Option.toList_none, List.map_nil, List.nil_append, sign]
          split
          · rename_i hc
            exact absurd (List.cons.inj hc).1 hminus
          · rename_i hc
            exact absurd (List.cons.inj hc).1 hplus
          · rfl

theorem unsigned_digits {digits rest : List Char} (ne : digits ≠ [])
    (h : ∀ c ∈ digits, c.isDigit = true) : Unsigned (digits ++ rest) := by
  obtain ⟨d, more, rfl⟩ := List.exists_cons_of_ne_nil ne
  intro c hc
  obtain rfl : d = c := by simpa using hc
  have := h d List.mem_cons_self
  constructor <;> rintro rfl <;> simp at this

theorem Power.mark_not_digit (p : Power) : p.mark.isDigit = false := by
  rcases p.isMark with h | h <;> rw [h] <;> rfl

theorem exponent?_text (p : Power) : exponent? p.text = some p.value := by
  have hmark : (p.mark == 'e' || p.mark == 'E') = true := by
    rcases p.isMark with h | h <;> rw [h] <;> rfl
  have hsign := sign_signText p.sign (List.append_nil p.digits ▸ unsigned_digits p.nonempty p.isDigit)
  have hdigits : (p.digits.isEmpty || !p.digits.all Char.isDigit) = false := by
    have hall : p.digits.all Char.isDigit = true := List.all_eq_true.mpr p.isDigit
    simp [hall, p.nonempty]
  simp only [Power.text, exponent?]
  rw [if_pos hmark, hsign]
  simp only [hdigits, Bool.false_eq_true, if_false, Power.value, beq_iff_eq]

theorem exponent?_power (p : Option Power) :
    exponent? ((p.map Power.text).getD []) = some ((p.map Power.value).getD 0) := by
  cases p with
  | none => rfl
  | some p => exact exponent?_text p

theorem stops_power (p : Option Power) : Stops ((p.map Power.text).getD []) := by
  cases p with
  | none => simp [Stops]
  | some p =>
      intro c hc
      obtain rfl : p.mark = c := by simpa [Power.text] using hc
      exact p.mark_not_digit

theorem head_power_ne_point (p : Option Power) : ((p.map Power.text).getD []).head? ≠ some '.' := by
  cases p with
  | none => simp
  | some p =>
      intro h
      obtain hmark : p.mark = '.' := by simpa [Power.text] using h
      rcases p.isMark with h' | h' <;> rw [hmark] at h' <;> cases h'

namespace Spelling

theorem isDigit_whole (n : Spelling) : ∀ c ∈ n.whole, c.isDigit = true := fun c hc =>
  n.isDigit c (List.mem_append_left _ hc)

theorem stops_tail (n : Spelling) : Stops n.tail := by
  cases hf : n.fraction with
  | none => simpa [tail, hf] using stops_power n.power
  | some digits => simp [tail, hf, Stops]

theorem unsigned_magnitude (n : Spelling) : Unsigned n.magnitude := by
  by_cases hw : n.whole = []
  · have ne := n.nonempty
    cases hf : n.fraction with
    | none => simp [hw, hf] at ne
    | some digits => simp [magnitude, tail, hw, hf, Unsigned]
  · exact unsigned_digits hw n.isDigit_whole

theorem decimal?_magnitude (n : Spelling) : decimal? n.magnitude = some n.decimal := by
  obtain ⟨hwhole, htail⟩ := takeWhile_digits n.isDigit_whole n.stops_tail
  have hpower := exponent?_power n.power
  have ne := n.nonempty
  cases hf : n.fraction with
  | none =>
      have hw : n.whole ≠ [] := by simpa [hf] using ne
      have hmagnitude : n.magnitude = n.whole ++ (n.power.map Power.text).getD [] := by
        simp [magnitude, tail, hf]
      rw [hmagnitude, decimal?_without_point n.isDigit_whole hw (stops_power _) (head_power_ne_point _),
        hpower]
      simp [decimal, hf]
  | some digits =>
      have hdigits : ∀ c ∈ digits, c.isDigit = true := fun c hc =>
        n.isDigit c (List.mem_append_right _ (by simpa [hf] using hc))
      obtain ⟨hfraction, hrest⟩ := takeWhile_digits hdigits (stops_power n.power)
      have hsome : (n.whole.isEmpty && digits.isEmpty) = false := by
        cases hw : n.whole <;> simp_all
      have ht : n.tail = '.' :: (digits ++ (n.power.map Power.text).getD []) := by simp [tail, hf]
      simp only [decimal?, magnitude, hwhole, htail]
      simp only [ht, hfraction, hrest, hsome, hpower, Bool.false_eq_true, if_false, Option.map_some]
      simp [decimal, hf, ofDigits_eq, Nat.ofDigitChars_append]

theorem toList_text (n : Spelling) : n.text.toList = signText n.sign ++ n.magnitude := by
  simp [text]

theorem sign_text (n : Spelling) : Literal.sign n.text.toList = (n.isNegative, n.magnitude) := by
  rw [toList_text, sign_signText n.sign n.unsigned_magnitude, isNegative]

theorem toList_text_eq_dash_iff (n : Spelling) (rest : List Char) :
    n.text.toList = '-' :: rest ↔ n.isNegative = true ∧ n.magnitude = rest := by
  constructor
  · intro h
    have hsign := n.sign_text
    rw [h] at hsign
    exact ⟨(congrArg Prod.fst hsign).symm, (congrArg Prod.snd hsign).symm⟩
  · rintro ⟨hnegative, rfl⟩
    have hminus : n.sign = some .minus := by simpa [isNegative] using hnegative
    simp [toList_text, hminus, signText, Sign.text]

theorem magnitude_eq_cons (n : Spelling) :
    ∃ c rest, n.magnitude = c :: rest ∧ (c.isDigit = true ∨ c = '.') := by
  cases hw : n.whole with
  | cons c rest =>
      exact ⟨c, rest ++ n.tail, by simp [magnitude, hw],
        .inl (n.isDigit_whole c (by simp [hw]))⟩
  | nil =>
      have ne := n.nonempty
      cases hf : n.fraction with
      | none => simp [hw, hf] at ne
      | some digits =>
          exact ⟨'.', digits ++ (n.power.map Power.text).getD [], by simp [magnitude, tail, hw, hf],
            .inr rfl⟩

/-- What is written as a finite number is read as the number nearest to it. -/
theorem read_text (n : Spelling) : read n.text = .ok n.value := by
  have hne : n.text.isEmpty = false := by
    obtain ⟨c, rest, hmagnitude, -⟩ := n.magnitude_eq_cons
    rw [← Bool.not_eq_true, String.isEmpty_iff, ← String.toList_inj, toList_text, hmagnitude]
    simp
  simp only [read, hne, n.sign_text, n.decimal?_magnitude]
  rfl

end Spelling

end Literal

end Gauge
