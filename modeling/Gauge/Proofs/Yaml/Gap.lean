import Gauge.Proofs.Yaml.Cursor
import Gauge.Yaml.Writer

/-!
White space inside of scalars: what is gone through, and what it is folded to.
-/

namespace Gauge.Yaml.Scan

open Cursor

/-- White space as it is written: spaces, and breaks that stay themselves. -/
def IsWhite (c : Char) : Prop := c = ' ' ∨ c = '\n' ∨ c = '\u2028' ∨ c = '\u2029'

/-- A text that does not go on with white space. -/
def Solid (s : List Char) : Prop := ∀ c ∈ s.head?, isBlank c = false ∧ isBreak c = false

/-- White space among what needs no escape is white space as it is written. -/
theorem isWhite_of_isPrintable {c : Char} (h : Writer.isPrintable c = true)
    (hc : isBlank c = true ∨ isBreak c = true) : IsWhite c := by
  simp only [isBlank, isBreak, Bool.or_eq_true, beq_iff_eq] at hc
  rcases hc with (rfl | rfl) | (((rfl | rfl) | rfl) | rfl) | rfl
  · exact .inl rfl
  · exact absurd h (by decide)
  · exact .inr (.inl rfl)
  · exact absurd h (by decide)
  · exact absurd h (by decide)
  · exact .inr (.inr (.inl rfl))
  · exact .inr (.inr (.inr rfl))

theorem isBlank_of_isPrintable {c : Char} (h : Writer.isPrintable c = true) (hs : c ≠ ' ') :
    isBlank c = false := by
  rw [← Bool.not_eq_true]
  intro hc
  rcases isWhite_of_isPrintable h (.inl hc) with rfl | rfl | rfl | rfl
  · exact hs rfl
  all_goals exact absurd hc (by decide)

/-- A list is a part that satisfies a predicate and what comes from the first item on that does not. -/
theorem exists_span (p : Char → Bool) (s : List Char) :
    ∃ a b, s = a ++ b ∧ (∀ c ∈ a, p c = true) ∧ ∀ c ∈ b.head?, p c = false := by
  induction s with
  | nil => exact ⟨[], [], rfl, by simp, by simp⟩
  | cons c s ih =>
      obtain ⟨a, b, rfl, ha, hb⟩ := ih
      cases hc : p c with
      | true => exact ⟨c :: a, b, rfl, by simpa [hc] using ha, hb⟩
      | false => exact ⟨[], c :: (a ++ b), rfl, by simp, by simpa using hc⟩

/-- A text told word by word, with the spaces that are between two words. -/
inductive Worded : List Char → Prop where
  | last {w : List Char} (hw : ∀ c ∈ w, c ≠ ' ') : Worded w
  | more {w u : List Char} (n : Nat) (hw : ∀ c ∈ w, c ≠ ' ') (hu : u.head? ≠ some ' ') (h : Worded u) :
      Worded (w ++ List.replicate (n + 1) ' ' ++ u)

theorem worded (t : List Char) : Worded t := by
  induction hn : t.length using Nat.strongRecOn generalizing t with
  | ind size ih =>
  obtain ⟨w, rest, rfl, hw, hrest⟩ := exists_span (· != ' ') t
  have hw' : ∀ c ∈ w, c ≠ ' ' := fun c hc => by simpa using hw c hc
  cases rest with
  | nil =>
      rw [List.append_nil]
      exact .last hw'
  | cons c rest =>
      obtain rfl : c = ' ' := by simpa using hrest c rfl
      obtain ⟨spaces, u, rfl, hspaces, hu⟩ := exists_span (· == ' ') rest
      obtain ⟨n, rfl⟩ : ∃ n, spaces = List.replicate n ' ' :=
        ⟨_, List.eq_replicate_of_mem fun c hc => by simpa using hspaces c hc⟩
      have hlength : u.length < size := by
        simp only [← hn, List.length_append, List.length_cons]
        omega
      have hhead : u.head? ≠ some ' ' := fun h => absurd (hu ' ' h) (by decide)
      have hmore := Worded.more n hw' hhead (ih u.length hlength u rfl)
      simpa [List.replicate_succ] using hmore

theorem IsWhite.eq_space {c : Char} (h : IsWhite c) (hb : isBreak c = false) : c = ' ' := by
  rcases h with rfl | rfl | rfl | rfl
  · rfl
  all_goals exact absurd hb (by decide)

theorem IsWhite.lineBreak_eq {c : Char} {rest : List Char} {m : Mark} (h : IsWhite c)
    (hb : isBreak c = true) : lineBreak ⟨c :: rest, m⟩ = .ok [c] ⟨rest, m.advance c⟩ := by
  apply Scan.lineBreak_eq hb <;> rcases h with rfl | rfl | rfl | rfl <;> decide

theorem isAtDocument_of_column {c : Cursor} (h : c.mark.column ≠ 0) : c.isAtDocument = false := by
  simp [isAtDocument, h]

theorem column_past_breaks (m : Mark) {b : Char} {breaks : List Char}
    (hb : ∀ c ∈ b :: breaks, isBreak c = true) (n : Nat) :
    (m.past (b :: breaks ++ List.replicate n ' ')).column = n := by
  induction breaks generalizing b m with
  | nil =>
      rw [List.cons_append, Mark.past_cons, List.nil_append,
        Mark.past_of_one_line (by simp [isBreak])]
      simp [Mark.advance, hb b List.mem_cons_self]
  | cons c breaks ih =>
      rw [List.cons_append, Mark.past_cons]
      exact ih _ fun x hx => hb x (List.mem_cons_of_mem b hx)

theorem skip_space (m : Mark) (rest : List Char) :
    skip 1 ⟨' ' :: rest, m⟩ = .ok () ⟨rest, m.advance ' '⟩ := rfl

namespace Gap

/-- A gap and one more character of it. -/
def take (g : Gap) (c : Char) : Gap :=
  if isBreak c then
    if g.isBroken then { g with others := g.others ++ [c] } else ⟨[], true, [c], []⟩
  else if g.isBroken then g else { g with blanks := g.blanks ++ [c] }

theorem foldl_take_spaces {g : Gap} (h : g.isBroken = false) (n : Nat) :
    (List.replicate n ' ').foldl take g = { g with blanks := g.blanks ++ List.replicate n ' ' } := by
  induction n generalizing g with
  | zero => simp
  | succ n ih =>
      have hstep : take g ' ' = { g with blanks := g.blanks ++ [' '] } := by
        simp only [take]
        rw [if_neg (by decide), h]
        rfl
      rw [List.replicate_succ, List.foldl_cons, hstep, ih (by exact h)]
      simp

theorem foldl_take_broken {g : Gap} (h : g.isBroken = true) {breaks : List Char}
    (hb : ∀ c ∈ breaks, isBreak c = true) (n : Nat) :
    (breaks ++ List.replicate n ' ').foldl take g = { g with others := g.others ++ breaks } := by
  induction breaks generalizing g with
  | nil =>
      induction n with
      | zero => simp
      | succ n ih =>
          have hstep : take g ' ' = g := by
            simp only [take]
            rw [if_neg (by decide), if_pos h]
          rw [List.nil_append] at ih ⊢
          rw [List.replicate_succ, List.foldl_cons, hstep, ih]
  | cons c breaks ih =>
      have hstep : take g c = { g with others := g.others ++ [c] } := by
        simp only [take]
        rw [if_pos (hb c List.mem_cons_self), if_pos h]
      rw [List.cons_append, List.foldl_cons, hstep, ih (by exact h) fun x hx =>
        hb x (List.mem_cons_of_mem c hx)]
      simp

end Gap

theorem gapFrom_eq (indent : Nat) (since : Mark) {w rest : List Char} (hw : ∀ c ∈ w, IsWhite c)
    (hrest : Solid rest) (fuel : Nat) (hfuel : w.length < fuel) (g : Gap) (m : Mark) :
    gapFrom indent since fuel g ⟨w ++ rest, m⟩ = .ok (w.foldl Gap.take g) ⟨rest, m.past w⟩ := by
  induction w generalizing fuel g m with
  | nil =>
      obtain ⟨fuel, rfl⟩ : ∃ n, fuel = n + 1 := ⟨fuel - 1, by simp at hfuel; omega⟩
      simp only [gapFrom]
      rw [bind_ok (next_apply _)]
      cases rest with
      | nil => rfl
      | cons c rest =>
          obtain ⟨hblank, hbreak⟩ := hrest c rfl
          simp [hblank, hbreak]
  | cons c w ih =>
      obtain ⟨fuel, rfl⟩ : ∃ n, fuel = n + 1 := ⟨fuel - 1, by simp at hfuel; omega⟩
      have hlen : w.length < fuel := by simpa using hfuel
      have hc := hw c List.mem_cons_self
      have ih := ih (fun x hx => hw x (List.mem_cons_of_mem c hx)) fuel hlen (g.take c) (m.advance c)
      simp only [gapFrom]
      rw [bind_ok (next_apply _)]
      simp only [List.cons_append, List.head?_cons, List.foldl_cons, Mark.past_cons]
      rw [← ih]
      split
      · rename_i hbreak
        rw [bind_ok (hc.lineBreak_eq hbreak)]
        simp [Gap.take, hbreak]
      · rename_i hbreak
        obtain rfl := hc.eq_space (by simpa using hbreak)
        rw [if_pos (by decide), bind_ok (mark_apply _), if_neg (by simp), bind_ok (skip_space _ _)]
        simp [Gap.take, hbreak]

theorem gap_eq (indent : Nat) (since : Mark) {w rest : List Char} (hw : ∀ c ∈ w, IsWhite c)
    (hrest : Solid rest) (g : Gap) (m : Mark) :
    gap indent since g ⟨w ++ rest, m⟩ = .ok (w.foldl Gap.take g) ⟨rest, m.past w⟩ := by
  simp only [gap]
  rw [bind_ok (size_apply _)]
  exact gapFrom_eq indent since hw hrest _ (by rw [List.length_append]; omega) g m

/-- Spaces are a gap that stays itself. -/
theorem gap_spaces (indent : Nat) (since : Mark) (n : Nat) {rest : List Char} (hrest : Solid rest)
    (m : Mark) :
    gap indent since .none ⟨List.replicate n ' ' ++ rest, m⟩ =
      .ok ⟨List.replicate n ' ', false, [], []⟩ ⟨rest, m.past (List.replicate n ' ')⟩ := by
  rw [gap_eq indent since (fun c hc => .inl (List.eq_of_mem_replicate hc)) hrest,
    Gap.foldl_take_spaces rfl]
  rfl

/-- Breaks that stay themselves, and the indentation behind them, are a gap of the breaks. -/
theorem gap_breaks (indent : Nat) (since : Mark) {b : Char} {breaks : List Char}
    (hwhite : ∀ c ∈ b :: breaks, IsWhite c) (hbreak : ∀ c ∈ b :: breaks, isBreak c = true) (n : Nat)
    {rest : List Char} (hrest : Solid rest) (m : Mark) :
    gap indent since .none ⟨b :: breaks ++ List.replicate n ' ' ++ rest, m⟩ =
      .ok ⟨[], true, [b], breaks⟩ ⟨rest, m.past (b :: breaks ++ List.replicate n ' ')⟩ := by
  have hw : ∀ c ∈ b :: breaks ++ List.replicate n ' ', IsWhite c := by
    intro c hc
    rcases List.mem_append.1 hc with h | h
    · exact hwhite c h
    · exact .inl (List.eq_of_mem_replicate h)
  have hfirst : Gap.none.take b = ⟨[], true, [b], []⟩ := by
    simp only [Gap.take]
    rw [if_pos (hbreak b List.mem_cons_self)]
    rfl
  rw [gap_eq indent since hw hrest, List.cons_append, List.foldl_cons, hfirst,
    Gap.foldl_take_broken rfl fun c hc => hbreak c (List.mem_cons_of_mem b hc)]
  rfl

end Gauge.Yaml.Scan
