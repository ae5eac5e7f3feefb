import Gauge.Yaml.Token.Scalar
import Mathlib.Data.List.Basic

/-!
What the steps of reading do to the cursor. The place behind a text of the writer is counted off
character by character, as no break in it takes two.
-/

namespace Gauge.Yaml

namespace Mark

/-- The place behind a character. -/
def advance (m : Mark) (c : Char) : Mark :=
  if Cursor.isBreak c then ⟨m.index + 1, m.line + 1, 0⟩ else ⟨m.index + 1, m.line, m.column + 1⟩

/-- The place behind a text. -/
def past (m : Mark) (s : List Char) : Mark := s.foldl advance m

@[simp] theorem past_nil (m : Mark) : m.past [] = m := rfl

@[simp] theorem past_cons (m : Mark) (c : Char) (s : List Char) :
    m.past (c :: s) = (m.advance c).past s := rfl

theorem past_append (m : Mark) (s t : List Char) : m.past (s ++ t) = (m.past s).past t :=
  List.foldl_append

@[simp] theorem index_past (m : Mark) (s : List Char) : (m.past s).index = m.index + s.length := by
  induction s generalizing m with
  | nil => rfl
  | cons c s ih =>
      rw [past_cons, ih]
      simp only [advance, List.length_cons]
      split <;> simp only <;> omega

theorem past_of_one_line {m : Mark} {s : List Char} (h : ∀ c ∈ s, Cursor.isBreak c = false) :
    m.past s = ⟨m.index + s.length, m.line, m.column + s.length⟩ := by
  induction s generalizing m with
  | nil => rfl
  | cons c s ih =>
      rw [past_cons, ih fun x hx => h x (List.mem_cons_of_mem c hx)]
      simp only [advance, h c List.mem_cons_self, List.length_cons]
      simp only [Bool.false_eq_true, if_false, Mark.mk.injEq, true_and]
      omega

theorem line_le_past (m : Mark) (s : List Char) : m.line ≤ (m.past s).line := by
  induction s generalizing m with
  | nil => exact Nat.le_refl _
  | cons c s ih =>
      refine Nat.le_trans ?_ (ih (m.advance c))
      simp only [advance]
      split <;> simp

end Mark

namespace Scan

variable {α β : Type} {c c' : Cursor}

theorem bind_apply (x : Scan α) (f : α → Scan β) (c : Cursor) :
    (x >>= f) c = match x c with
      | .ok a c' => f a c'
      | .error e c' => .error e c' := by
  show EStateM.bind x f c = _
  simp only [EStateM.bind]
  cases x c <;> rfl

theorem bind_ok {x : Scan α} {f : α → Scan β} {a : α} (h : x c = .ok a c') :
    (x >>= f) c = f a c' := by
  rw [bind_apply, h]

@[simp] theorem pure_apply (a : α) (c : Cursor) : (pure a : Scan α) c = .ok a c := rfl

@[simp] theorem get_apply (c : Cursor) : (get : Scan Cursor) c = .ok c c := rfl

@[simp] theorem next_apply (c : Cursor) : next c = .ok c.rest.head? c := rfl

@[simp] theorem mark_apply (c : Cursor) : mark c = .ok c.mark c := rfl

@[simp] theorem size_apply (c : Cursor) : size c = .ok (c.rest.length + 1) c := rfl

theorem skip_apply (n : Nat) (c : Cursor) : skip n c = .ok () (c.skip n) := rfl

/-- Moving over characters of one line. -/
theorem skip_of_one_line {s rest : List Char} {m : Mark} {n : Nat} (hn : s.length = n)
    (h : ∀ c ∈ s, Cursor.isBreak c = false) : skip n ⟨s ++ rest, m⟩ = .ok () ⟨rest, m.past s⟩ := by
  rw [skip_apply, Cursor.skip, Mark.past_of_one_line h, ← hn, List.drop_left]

theorem skip_one {x : Char} (hx : Cursor.isBreak x = false) (rest : List Char) (m : Mark) :
    skip 1 ⟨x :: rest, m⟩ = .ok () ⟨rest, m.past [x]⟩ :=
  @skip_of_one_line [x] rest m 1 rfl (by simpa using hx)

theorem skip_two {x y : Char} (hx : Cursor.isBreak x = false) (hy : Cursor.isBreak y = false)
    (rest : List Char) (m : Mark) : skip 2 ⟨x :: y :: rest, m⟩ = .ok () ⟨rest, m.past [x, y]⟩ :=
  @skip_of_one_line [x, y] rest m 2 rfl (by simpa using ⟨hx, hy⟩)

theorem skip_spaces (n : Nat) (rest : List Char) (m : Mark) :
    skip n ⟨List.replicate n ' ' ++ rest, m⟩ = .ok () ⟨rest, m.past (List.replicate n ' ')⟩ :=
  skip_of_one_line (by simp) (by simp [Cursor.isBreak])

theorem takeWhile_eq {p : Char → Bool} {s rest : List Char} {m : Mark} (hs : ∀ c ∈ s, p c = true)
    (hrest : ∀ c ∈ rest.head?, p c = false) (h : ∀ c ∈ s, Cursor.isBreak c = false) :
    takeWhile p ⟨s ++ rest, m⟩ = .ok s ⟨rest, m.past s⟩ := by
  have htaken : (s ++ rest).takeWhile p = s := by
    rw [List.takeWhile_append_of_pos hs]
    cases rest with
    | nil => simp
    | cons c rest => simp [hrest c rfl]
  simp only [takeWhile]
  rw [bind_ok (get_apply _)]
  simp only [htaken]
  rw [bind_ok (skip_of_one_line rfl h)]
  rfl

theorem skipWhile_eq {p : Char → Bool} {s rest : List Char} {m : Mark} (hs : ∀ c ∈ s, p c = true)
    (hrest : ∀ c ∈ rest.head?, p c = false) (h : ∀ c ∈ s, Cursor.isBreak c = false) :
    skipWhile p ⟨s ++ rest, m⟩ = .ok () ⟨rest, m.past s⟩ := by
  simp only [skipWhile]
  rw [bind_ok (takeWhile_eq hs hrest h)]
  rfl

/-- A break other than a carriage return or a next line stays itself. -/
theorem lineBreak_eq {b : Char} {rest : List Char} {m : Mark} (hb : Cursor.isBreak b = true)
    (hr : b ≠ '\r') (hn : b ≠ '\x85') :
    lineBreak ⟨b :: rest, m⟩ = .ok [b] ⟨rest, m.advance b⟩ := by
  have hcases : b = '\n' ∨ b = '\u2028' ∨ b = '\u2029' := by
    simpa [Cursor.isBreak, hr, hn, or_assoc] using hb
  rcases hcases with rfl | rfl | rfl <;> rfl

end Scan

end Gauge.Yaml
