import Gauge.Text.Blank

/-!
White space at the ends of a text. What is left without it stands in the text between white space, and has
none at its own ends; there is one such part of each text.
-/

namespace Gauge.Text

/-- Without white space at the ends. -/
structure IsBare (s : String) : Prop where
  head : ∀ c ∈ s.toList.head?, isBlank c = false
  last : ∀ c ∈ s.toList.getLast?, isBlank c = false

/-- `t` is `s` without the white space at its ends. -/
structure Trims (s t : String) : Prop where
  between : ∃ before after, isBlankText before = true ∧ isBlankText after = true ∧
    s = before ++ t ++ after
  bare : IsBare t

theorem isBlankText_iff {s : String} : isBlankText s = true ↔ ∀ c ∈ s.toList, isBlank c = true :=
  List.all_eq_true

theorem isBlank_of_isDigit {c : Char} (h : c.isDigit = true) : isBlank c = false := by
  simp only [Char.isDigit, Bool.and_eq_true, decide_eq_true_eq] at h
  have hlow : 48 ≤ c.toNat := UInt32.le_iff_toNat_le.mp h.1
  have hhigh : c.toNat ≤ 57 := UInt32.le_iff_toNat_le.mp h.2
  simp [isBlank]
  omega

theorem isBare_of_forall {s : String} (h : ∀ c ∈ s.toList, isBlank c = false) : IsBare s :=
  ⟨fun c hc => h c (List.mem_of_mem_head? hc), fun c hc => h c (List.mem_of_getLast? hc)⟩

namespace Trims

theorem mem_of_mem {s t : String} (h : Trims s t) {c : Char} (hc : c ∈ t.toList) : c ∈ s.toList := by
  obtain ⟨before, after, -, -, rfl⟩ := h.between
  simp [hc]

theorem behind {s after : String} (bare : IsBare s) (blank : isBlankText after = true) :
    Trims (s ++ after) s :=
  ⟨⟨"", after, rfl, blank, by rw [String.empty_append]⟩, bare⟩

theorem before {s front : String} (bare : IsBare s) (blank : isBlankText front = true) :
    Trims (front ++ s) s :=
  ⟨⟨front, "", blank, rfl, by rw [String.append_empty]⟩, bare⟩

end Trims

/-! The front. -/

theorem trimStart_append {before s : List Char} (blank : ∀ c ∈ before, isBlank c = true)
    (head : ∀ c ∈ s.head?, isBlank c = false) : trimStart (before ++ s) = s := by
  rw [trimStart, List.dropWhile_append_of_pos blank]
  cases s with
  | nil => rfl
  | cons c s => simp [head c rfl]

theorem exists_trimStart (s : List Char) :
    ∃ before, (∀ c ∈ before, isBlank c = true) ∧ s = before ++ trimStart s :=
  ⟨s.takeWhile isBlank, List.all_eq_true.mp List.all_takeWhile, List.takeWhile_append_dropWhile.symm⟩

theorem head_trimStart (s : List Char) : ∀ c ∈ (trimStart s).head?, isBlank c = false := by
  intro c hc
  have := List.head?_dropWhile_not isBlank s
  rw [trimStart] at hc
  simpa [Option.mem_def.mp hc] using this

/-! The end. -/

theorem trimEnd_eq (s : List Char) : trimEnd s = (trimStart s.reverse).reverse := rfl

theorem trimEnd_append {s after : List Char} (blank : ∀ c ∈ after, isBlank c = true)
    (last : ∀ c ∈ s.getLast?, isBlank c = false) : trimEnd (s ++ after) = s := by
  rw [trimEnd_eq, List.reverse_append, trimStart_append (by simpa using blank) (by simpa using last),
    List.reverse_reverse]

theorem exists_trimEnd (s : List Char) :
    ∃ after, (∀ c ∈ after, isBlank c = true) ∧ s = trimEnd s ++ after := by
  obtain ⟨before, blank, hs⟩ := exists_trimStart s.reverse
  refine ⟨before.reverse, by simpa using blank, ?_⟩
  rw [trimEnd_eq, ← List.reverse_append, ← hs, List.reverse_reverse]

theorem last_trimEnd (s : List Char) : ∀ c ∈ (trimEnd s).getLast?, isBlank c = false := by
  rw [trimEnd_eq, List.getLast?_reverse]
  exact head_trimStart s.reverse

/-! Both. -/

theorem trims_trim (s : String) : Trims s (trim s) := by
  obtain ⟨before, blank_before, hs⟩ := exists_trimStart s.toList
  obtain ⟨after, blank_after, ht⟩ := exists_trimEnd (trimStart s.toList)
  refine ⟨⟨String.ofList before, String.ofList after, ?_, ?_, ?_⟩, ⟨fun c hc => ?_, ?_⟩⟩
  · simpa [isBlankText_iff] using blank_before
  · simpa [isBlankText_iff] using blank_after
  · rw [trim, ← String.ofList_append, ← String.ofList_append, List.append_assoc, ← ht, ← hs,
      String.ofList_toList]
  · -- what is left begins as the text does without the white space in front
    refine head_trimStart s.toList c ?_
    rw [trim, String.toList_ofList] at hc
    rw [ht, List.head?_append, Option.mem_def.mp hc]
    rfl
  · rw [trim, String.toList_ofList]
    exact last_trimEnd (trimStart s.toList)

theorem trim_eq_iff {s t : String} : trim s = t ↔ Trims s t := by
  constructor
  · rintro rfl
    exact trims_trim s
  · rintro ⟨⟨before, after, blank_before, blank_after, rfl⟩, bare⟩
    rw [isBlankText_iff] at blank_before blank_after
    rw [trim, String.toList_append, String.toList_append, List.append_assoc]
    by_cases hempty : t = ""
    · -- all of the text is white space, and goes from the front
      subst hempty
      have hall : ∀ c ∈ before.toList ++ after.toList, isBlank c = true := fun c hc =>
        (List.mem_append.mp hc).elim (blank_before c) (blank_after c)
      have := trimStart_append hall (s := []) (by simp)
      rw [List.append_nil] at this
      rw [String.toList_empty, List.nil_append, this]
      rfl
    · have hne : t.toList ≠ [] := fun h => hempty (String.toList_eq_nil_iff.mp h)
      have head : ∀ c ∈ (t.toList ++ after.toList).head?, isBlank c = false := by
        obtain ⟨c, rest, ht⟩ := List.exists_cons_of_ne_nil hne
        have := bare.head
        rw [ht] at this ⊢
        exact this
      rw [trimStart_append blank_before head, trimEnd_append blank_after bare.last, String.ofList_toList]

end Gauge.Text
