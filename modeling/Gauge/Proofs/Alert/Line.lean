import Gauge.Proofs.Alert

/-!
Where the line of an alert breaks. The description is escaped and the time is made of digits and marks, so that
neither of them holds a line feed or a carriage return. The element, the severity and the actions stand in the line as
they are: it is one line if and only if each of these is.
-/

namespace Gauge

namespace Text

/-- Nothing in the text ends a line. -/
def IsOneLine (s : String) : Prop := '\n' ∉ s.toList ∧ '\r' ∉ s.toList

instance (s : String) : Decidable (IsOneLine s) :=
  inferInstanceAs (Decidable ('\n' ∉ s.toList ∧ '\r' ∉ s.toList))

theorem isOneLine_append (s t : String) : IsOneLine (s ++ t) ↔ IsOneLine s ∧ IsOneLine t := by
  simp only [IsOneLine, String.toList_append, List.mem_append, not_or]
  exact and_and_and_comm

theorem isOneLine_of_forall {s : String} (h : ∀ c ∈ s.toList, c ≠ '\n' ∧ c ≠ '\r') : IsOneLine s := by
  constructor
  · intro hmem
    exact (h '\n' hmem).1 rfl
  · intro hmem
    exact (h '\r' hmem).2 rfl

theorem isOneLine_intercalate {separator : String} (h : IsOneLine separator) (texts : List String) :
    IsOneLine (separator.intercalate texts) ↔ ∀ s ∈ texts, IsOneLine s := by
  induction texts with
  | nil => simp [IsOneLine]
  | cons s texts ih =>
      cases texts with
      | nil => simp
      | cons t texts =>
          rw [String.intercalate_cons_cons, isOneLine_append, isOneLine_append, ih, List.forall_mem_cons (a := s)]
          simp only [h, and_true]

namespace Quoted

theorem exists_of_mem_hexDigits {n : Nat} {c : Char} (h : c ∈ hexDigits n) : ∃ d < 16, c = d.digitChar := by
  induction n using Nat.strongRecOn with
  | ind n ih =>
      rw [hexDigits, Nat.toDigits_eq_if (by decide)] at h
      split at h
      · rename_i hn
        exact ⟨n, hn, List.mem_singleton.mp h⟩
      · rename_i hn
        obtain h | h := List.mem_append.mp h
        · exact ih (n / 16) (by omega) h
        · exact ⟨n % 16, Nat.mod_lt n (by decide), List.mem_singleton.mp h⟩

theorem ne_break_of_mem_hexDigits {n : Nat} {c : Char} (h : c ∈ hexDigits n) : c ≠ '\n' ∧ c ≠ '\r' := by
  have digits : ∀ d < 16, d.digitChar ≠ '\n' ∧ d.digitChar ≠ '\r' := by decide
  obtain ⟨d, hd, rfl⟩ := exists_of_mem_hexDigits h
  exact digits d hd

theorem ne_break_of_mem_escape (c : Char) : ∀ d ∈ escape c, d ≠ '\n' ∧ d ≠ '\r' := by
  unfold escape
  split
  · simp
  · simp
  · simp
  · simp
  · simp
  · simp
  · -- what stands for itself is none of the characters before
    rename_i hlf hcr _ _
    have itself : ∀ d ∈ [c], d ≠ '\n' ∧ d ≠ '\r' := List.forall_mem_singleton.mpr ⟨hlf, hcr⟩
    split
    · exact itself
    · split
      · exact itself
      · simp only [List.cons_append, List.forall_mem_cons, List.forall_mem_append]
        exact ⟨by decide, by decide, by decide, fun d hd => ne_break_of_mem_hexDigits hd, by decide, by simp⟩

theorem isOneLine_encode (s : String) : IsOneLine (encode s) := by
  have body : IsOneLine (String.ofList (s.toList.flatMap escape)) := by
    apply isOneLine_of_forall
    intro c hc
    rw [String.toList_ofList] at hc
    obtain ⟨d, -, hd⟩ := List.mem_flatMap.mp hc
    exact ne_break_of_mem_escape d c hd
  have quote : IsOneLine "\"" := by decide
  simp only [encode, isOneLine_append, body, quote, and_self]

end Quoted

end Text

namespace Alert

open Text

theorem isOneLine_timeText (a : Alert) : IsOneLine a.timeText := by
  constructor
  · intro h
    exact absurd (isTimeCharacter_of_mem_timeText a _ h) (by decide)
  · intro h
    exact absurd (isTimeCharacter_of_mem_timeText a _ h) (by decide)

/-- What is put into the line as it is breaks it, and nothing else does. -/
theorem summary_isOneLine_iff (a : Alert) :
    IsOneLine a.summary ↔ IsOneLine a.element ∧ IsOneLine a.severity ∧ ∀ s ∈ a.actions, IsOneLine s := by
  have status : IsOneLine a.status.name := by cases a.status <;> decide
  have severity : IsOneLine (if a.severity == "" then "-" else a.severity) ↔ IsOneLine a.severity := by
    split
    · rename_i h
      rw [eq_of_beq h]
      decide
    · rfl
  have actions : IsOneLine (if a.actions.isEmpty then "" else " actions=[" ++ ", ".intercalate a.actions ++ "]") ↔
      ∀ s ∈ a.actions, IsOneLine s := by
    have bounds : IsOneLine " actions=[" ∧ IsOneLine ", " ∧ IsOneLine "]" := by decide
    split
    · rename_i h
      rw [List.isEmpty_iff.mp h]
      decide
    · rw [isOneLine_append, isOneLine_append, isOneLine_intercalate bounds.2.1]
      simp only [bounds, and_true, true_and]
  have words : IsOneLine "[" ∧ IsOneLine "] " ∧ IsOneLine " element=" ∧ IsOneLine " severity=" ∧
      IsOneLine " description=" := by decide
  simp only [summary, isOneLine_append, severity, actions, status, isOneLine_timeText, Quoted.isOneLine_encode, words,
    and_true, true_and, and_assoc]

example : ¬ IsOneLine (summary ⟨.active, 0, "on\nbattery", "ups\n01", "", []⟩) := by decide +kernel

end Alert

end Gauge
