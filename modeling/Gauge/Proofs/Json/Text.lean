import Gauge.Json.Reader
import Mathlib

/-!
Reading JSON that has been written. A reader takes a text if it reads all of it, wherever the text stands and
with whatever follows; what it takes piece by piece it takes in one. A string is taken with all of its escapes.
-/

namespace Gauge.Json.Reader

variable {α β : Type}

/-- `r` reads `text` as `a` and stops before `rest`. -/
def Takes (r : Reader α) (text : List Char) (a : α) (rest : List Char) : Prop :=
  ∀ place, ∃ place', r ⟨text ++ rest, place⟩ = .ok a ⟨rest, place'⟩

theorem takes_pure (a : α) (rest : List Char) : Takes (pure a) [] a rest := fun place => ⟨place, rfl⟩

theorem Takes.bind {r : Reader α} {f : α → Reader β} {s t rest : List Char} {a : α} {b : β}
    (h : Takes r s a (t ++ rest)) (h' : Takes (f a) t b rest) : Takes (r >>= f) (s ++ t) b rest := by
  intro place
  obtain ⟨middle, hr⟩ := h place
  obtain ⟨last, hf⟩ := h' middle
  refine ⟨last, ?_⟩
  rw [List.append_assoc]
  change EStateM.bind r f _ = _
  rw [EStateM.bind, hr]
  exact hf

/-- A first step that only looks at the text. -/
theorem Takes.bind_first {r : Reader α} {f : α → Reader β} {text rest : List Char} {a : α} {b : β}
    (h : Takes r [] a (text ++ rest)) (h' : Takes (f a) text b rest) : Takes (r >>= f) text b rest :=
  h.bind h'

/-- A last step that only looks at what follows. -/
theorem Takes.bind_last {r : Reader α} {f : α → Reader β} {text rest : List Char} {a : α} {b : β}
    (h : Takes r text a rest) (h' : Takes (f a) [] b rest) : Takes (r >>= f) text b rest := by
  have := h.bind (t := []) h'
  rwa [List.append_nil] at this

theorem takes_get {f : Cursor → Reader β} {text rest : List Char} {b : β}
    (h : ∀ place, Takes (f ⟨text ++ rest, place⟩) text b rest) : Takes (get >>= f) text b rest :=
  fun place => h place place

theorem takes_peek (rest : List Char) : Takes peek [] rest.head? rest := fun place => ⟨place, rfl⟩

theorem takes_advance (c : Char) (rest : List Char) : Takes advance [c] () rest := fun _ => ⟨_, rfl⟩

theorem takes_takeWhile {p : Char → Bool} {text rest : List Char} (h : ∀ c ∈ text, p c = true)
    (stops : ∀ c ∈ rest.head?, p c = false) : Takes (takeWhile p) text text rest := by
  intro place
  have hrest : rest.takeWhile p = [] ∧ rest.dropWhile p = rest := by
    cases rest with
    | nil => simp
    | cons c rest => simp [stops c rfl]
  have htake : (text ++ rest).takeWhile p = text := by
    rw [List.takeWhile_append_of_pos h, hrest.1, List.append_nil]
  have hdrop : (text ++ rest).dropWhile p = rest := by
    rw [List.dropWhile_append_of_pos h, hrest.2]
  refine ⟨text.foldl Cursor.past place, ?_⟩
  change EStateM.Result.ok ((text ++ rest).takeWhile p) (Cursor.skip ⟨text ++ rest, place⟩
    ((text ++ rest).takeWhile p) ((text ++ rest).dropWhile p)) = _
  rw [htake, hdrop]
  rfl

theorem Takes.placed {r : Reader α} {text rest : List Char} {a : α} (h : Takes r text a rest) :
    Takes (placed r) text a rest := by
  intro place
  obtain ⟨last, hr⟩ := h place
  refine ⟨last, ?_⟩
  rw [Reader.placed, hr]

theorem takes_next {rest : List Char} (h : ∀ c ∈ rest.head?, isSpace c = false) :
    Takes next [] rest.head? rest := by
  have hnone : Takes (takeWhile isSpace) [] [] rest := takes_takeWhile (by simp) h
  unfold next
  exact hnone.bind_last (takes_peek rest)

theorem takes_next_cons {c : Char} (h : isSpace c = false) (rest : List Char) :
    Takes next [] (some c) (c :: rest) :=
  takes_next (by simpa using h)

theorem takes_nextOfValue {c : Char} (h : isSpace c = false) (rest : List Char) :
    Takes nextOfValue [] c (c :: rest) := by
  unfold nextOfValue
  exact (takes_next_cons h rest).bind_last (takes_pure c _)

/-! Strings. -/

theorem hexValue?_hexDigit {n : Nat} (h : n < 16) : hexValue? (hexDigit n) = some n := by
  revert n
  decide

theorem takes_fourDigits {n : Nat} (h : n < 256) (rest : List Char) :
    Takes fourDigits ['0', '0', hexDigit (n / 16), hexDigit (n % 16)] n rest := by
  have hhigh := hexValue?_hexDigit (n := n / 16) (by omega)
  have hlow := hexValue?_hexDigit (n := n % 16) (by omega)
  have hzero : hexValue? '0' = some 0 := by decide
  unfold fourDigits
  refine takes_get fun place => ?_
  have hdigits : (['0', '0', hexDigit (n / 16), hexDigit (n % 16)] : List Char).mapM hexValue? =
      some [0, 0, n / 16, n % 16] := by
    simp [hhigh, hlow, hzero]
  have hvalue : ((0 * 16 + 0) * 16 + n / 16) * 16 + n % 16 = n := by omega
  simp only [List.cons_append, List.nil_append, List.take_succ_cons, List.take_zero, hdigits, hvalue]
  exact fun start => ⟨_, rfl⟩

theorem takes_numberedEscape {c : Char} (h : c.toNat < 32) (rest : List Char) :
    Takes numberedEscape ['0', '0', hexDigit (c.toNat / 16), hexDigit (c.toNat % 16)] c rest := by
  have htrailing : isTrailing c.toNat = false := by
    simp [isTrailing]
    omega
  have hleading : isLeading c.toNat = false := by
    simp [isLeading]
    omega
  unfold numberedEscape
  refine (takes_fourDigits (by omega) _).bind_last ?_
  simp only [htrailing, hleading, Bool.false_eq_true, if_false, Char.ofNat_toNat]
  exact takes_pure c rest

/-- A letter that stands for a character after a backslash. -/
theorem takes_letter {letter c : Char} (hne : letter ≠ 'u') (h : letterEscape? letter = some c)
    (rest : List Char) : Takes (escaped numberedEscape) [letter] c rest := by
  unfold escaped
  refine (takes_peek (letter :: rest)).bind_first ?_
  simp only [List.head?_cons, h]
  exact (takes_advance letter rest).bind_last (takes_pure c rest)

theorem eq_of_toNat_eq {c d : Char} (h : c.toNat = d.toNat) : c = d := by
  rw [← Char.ofNat_toNat c, h, Char.ofNat_toNat]

theorem escape_of_isPlain {c : Char} (h : isPlain c = true) : escape c = [c] := by
  simp only [isPlain, Bool.and_eq_true, bne_iff_ne, decide_eq_true_eq] at h
  obtain ⟨⟨hquote, hslash⟩, hcontrol⟩ := h
  have hne (d : Char) (hd : d.toNat < 32) : (c == d) = false := by
    rw [beq_eq_false_iff_ne]
    rintro rfl
    omega
  simp only [escape, beq_eq_false_iff_ne.2 hquote, beq_eq_false_iff_ne.2 hslash, hne '\n' (by decide),
    hne '\r' (by decide), hne '\t' (by decide), Bool.false_eq_true, if_false, beq_iff_eq]
  rw [if_neg (by omega), if_neg (by omega), if_neg (by omega)]

/-- What does not stand for itself is escaped, and its escape is read as it. -/
theorem escape_of_not_isPlain {c : Char} (h : isPlain c = false) :
    ∃ tail, escape c = '\\' :: tail ∧ ∀ rest, Takes (escaped numberedEscape) tail c rest := by
  have letter (l d : Char) (hl : l ≠ 'u') (hd : letterEscape? l = some d) (hc : c = d) :
      ∃ tail, ['\\', l] = '\\' :: tail ∧ ∀ rest, Takes (escaped numberedEscape) tail c rest :=
    ⟨[l], rfl, fun rest => hc ▸ takes_letter hl hd rest⟩
  simp only [escape, beq_iff_eq]
  split
  · exact letter '"' '"' (by decide) rfl ‹_›
  split
  · exact letter '\\' '\\' (by decide) rfl ‹_›
  split
  · exact letter 'n' '\n' (by decide) rfl ‹_›
  split
  · exact letter 'r' '\r' (by decide) rfl ‹_›
  split
  · exact letter 't' '\t' (by decide) rfl ‹_›
  split
  · exact letter 'b' '\x08' (by decide) rfl (eq_of_toNat_eq ‹_›)
  split
  · exact letter 'f' '\x0c' (by decide) rfl (eq_of_toNat_eq ‹_›)
  split
  · rename_i hcontrol
    refine ⟨_, rfl, fun rest => ?_⟩
    unfold escaped
    refine (takes_peek _).bind_first ?_
    exact (takes_advance 'u' _).bind (takes_numberedEscape hcontrol rest)
  · rename_i hquote hslash _ _ _ _ _ hcontrol
    simp only [isPlain, Bool.and_eq_false_iff, bne_eq_false_iff_eq, decide_eq_false_iff_not] at h
    rcases h with (h | h) | h
    · exact absurd h hquote
    · exact absurd h hslash
    · omega

theorem flatMap_escape_of_isPlain {s : List Char} (h : ∀ c ∈ s, isPlain c = true) :
    s.flatMap escape = s := by
  induction s with
  | nil => rfl
  | cons c s ih =>
      rw [List.flatMap_cons, escape_of_isPlain (h c List.mem_cons_self),
        ih fun x hx => h x (List.mem_cons_of_mem c hx)]
      rfl

theorem length_le_flatMap_escape (s : List Char) : s.length ≤ (s.flatMap escape).length := by
  induction s with
  | nil => exact Nat.zero_le _
  | cons c s ih =>
      have : 1 ≤ (escape c).length := by
        cases h : isPlain c with
        | true => rw [escape_of_isPlain h]; exact le_rfl
        | false =>
            obtain ⟨tail, htail, -⟩ := escape_of_not_isPlain h
            rw [htail]
            exact Nat.succ_le_succ (Nat.zero_le _)
      rw [List.flatMap_cons, List.length_append, List.length_cons]
      omega

/-- The characters up to the first that is escaped are taken at once, and what is left is shorter. -/
theorem takes_stringFrom (fuel : Nat) (acc s rest : List Char) (h : s.length < fuel) :
    Takes (stringFrom numberedEscape false fuel acc) (s.flatMap escape ++ ['"'])
      (String.ofList (acc ++ s)) rest := by
  induction fuel generalizing acc s with
  | zero => omega
  | succ fuel ih =>
      have hplain : ∀ c ∈ s.takeWhile isPlain, isPlain c = true := fun c hc => List.mem_takeWhile_imp hc
      have hmore : ∀ c ∈ (s.dropWhile isPlain).head?, isPlain c = false := by
        intro c hc
        have := List.head?_dropWhile_not isPlain s
        rw [Option.mem_def.1 hc] at this
        simpa using this
      rw [← List.takeWhile_append_dropWhile (p := isPlain) (l := s)] at h ⊢
      generalize s.takeWhile isPlain = plain at *
      generalize s.dropWhile isPlain = more at *
      rw [List.flatMap_append, flatMap_escape_of_isPlain hplain, List.append_assoc]
      unfold stringFrom
      cases more with
      | nil =>
          refine (takes_takeWhile hplain (by simp; decide)).bind ?_
          refine (takes_peek _).bind_first ?_
          rw [List.append_nil]
          exact (takes_advance '"' rest).bind_last (takes_pure _ rest)
      | cons c more =>
          obtain ⟨tail, htail, hescaped⟩ := escape_of_not_isPlain (hmore c rfl)
          rw [List.flatMap_cons, htail, List.append_assoc]
          refine (takes_takeWhile hplain (by simp; decide)).bind ?_
          refine (takes_peek _).bind_first ?_
          refine (takes_advance '\\' _).bind ?_
          refine (hescaped _).bind ?_
          have hacc : acc ++ (plain ++ c :: more) = acc ++ plain ++ [c] ++ more := by simp
          rw [hacc]
          refine ih _ more ?_
          rw [List.length_append, List.length_cons] at h
          omega

theorem takes_stringBody (s : String) (rest : List Char) :
    Takes stringBody (s.toList.flatMap escape ++ ['"']) s rest := by
  unfold stringBody
  refine takes_get fun place => ?_
  have hlength := length_le_flatMap_escape s.toList
  have := takes_stringFrom ((s.toList.flatMap escape ++ ['"'] ++ rest).length + 1) [] s.toList rest (by
    simp only [List.length_append]
    omega)
  rwa [List.nil_append, String.ofList_toList] at this

theorem toList_string (s : String) : (Json.string s).toList = '"' :: (s.toList.flatMap escape ++ ['"']) := by
  simp [Json.string]

theorem takes_string (expected s : String) (rest : List Char) :
    Takes (Reader.string expected) (Json.string s).toList s rest := by
  rw [toList_string]
  unfold Reader.string
  refine Takes.placed ?_
  refine (takes_nextOfValue (by decide) _).bind_first ?_
  exact (takes_advance '"' _).bind (takes_stringBody s rest)

end Gauge.Json.Reader
