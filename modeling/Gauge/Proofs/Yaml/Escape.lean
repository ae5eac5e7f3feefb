import Gauge.Proofs.Yaml.Gap
import Gauge.Yaml.Writer
import Mathlib.Tactic.IntervalCases
import Mathlib.Tactic.Ring

/-!
Escapes read back: the letter or the number that is written for a character stands for it.
-/

namespace Gauge.Yaml

open Cursor

namespace Writer

theorem length_hexDigits (width n : Nat) : (hexDigits width n).length = width := by
  induction width generalizing n with
  | zero => rfl
  | succ width ih => simp [hexDigits, ih]

theorem hexValue?_hexDigit {d : Nat} (h : d < 16) : Scan.hexValue? (hexDigit d) = some d := by
  interval_cases d <;> rfl

theorem filterMap_hexDigits (width n acc : Nat) :
    ((hexDigits width n).filterMap Scan.hexValue?).length = width ∧
      ((hexDigits width n).filterMap Scan.hexValue?).foldl (fun n d => n * 16 + d) acc =
        acc * 16 ^ width + n % 16 ^ width := by
  induction width generalizing n with
  | zero => simp [hexDigits, Nat.mod_one]
  | succ width ih =>
      obtain ⟨hlen, hval⟩ := ih (n / 16)
      have hdigit := hexValue?_hexDigit (Nat.mod_lt n (show 16 > 0 by decide))
      simp only [hexDigits, List.filterMap_append, List.filterMap_cons, hdigit, List.filterMap_nil,
        List.length_append, List.foldl_append, List.foldl_cons, List.foldl_nil, hlen, hval]
      refine ⟨rfl, ?_⟩
      rw [Nat.pow_succ, Nat.mul_comm (16 ^ width) 16, Nat.mod_mul]
      ring

theorem isBreak_hexDigit {d : Nat} (h : d < 16) : isBreak (hexDigit d) = false := by
  interval_cases d <;> rfl

theorem isBreak_of_mem_hexDigits {width n : Nat} {c : Char} (h : c ∈ hexDigits width n) :
    isBreak c = false := by
  induction width generalizing n with
  | zero => cases h
  | succ width ih =>
      rcases List.mem_append.1 h with h | h
      · exact ih h
      · rw [List.mem_singleton.1 h]
        exact isBreak_hexDigit (Nat.mod_lt _ (by decide))

end Writer

namespace Scan

/-- A number in base sixteen with its letter stands for the character of that number. -/
theorem escape_numbered (since : Mark) {letter : Char} {width : Nat} (c : Char)
    (hletter : letterEscape? letter = none) (hcount : digitCount? letter = some width)
    (hc : c.toNat < 16 ^ width) (hbreak : isBreak letter = false) (rest : List Char) (m : Mark) :
    escape since ⟨'\\' :: letter :: Writer.hexDigits width c.toNat ++ rest, m⟩ =
      .ok c ⟨rest, m.past ('\\' :: letter :: Writer.hexDigits width c.toNat)⟩ := by
  obtain ⟨hlen, hval⟩ := Writer.filterMap_hexDigits width c.toNat 0
  have hdigits := Writer.length_hexDigits width c.toNat
  have hsecond : (Cursor.mk ('\\' :: letter :: Writer.hexDigits width c.toNat ++ rest) m).second =
      some letter := rfl
  have hvalid : c.toNat.isValidChar := c.valid
  have hprefix : skip 2 ⟨'\\' :: letter :: Writer.hexDigits width c.toNat ++ rest, m⟩ =
      .ok () ⟨Writer.hexDigits width c.toNat ++ rest, m.past ['\\', letter]⟩ :=
    skip_two (by decide) hbreak _ m
  have hskip := @skip_of_one_line _ rest (m.past ['\\', letter]) _ hdigits
    fun x hx => Writer.isBreak_of_mem_hexDigits hx
  rw [escape, bind_ok (get_apply _), hsecond]
  simp only [Option.bind_some, hletter, hcount]
  rw [bind_ok hprefix, bind_ok (get_apply _)]
  simp only [List.take_left' hdigits, hlen, hval, Nat.lt_irrefl, if_false, Nat.zero_mul, Nat.zero_add,
    Nat.mod_eq_of_lt hc, hvalid, if_true]
  rw [bind_ok hskip]
  simp only [pure_apply, ← Mark.past_append, List.cons_append, List.nil_append, Char.ofNat_toNat]

theorem escape_letter (since : Mark) {letter c : Char} (hletter : letterEscape? letter = some c)
    (hbreak : isBreak letter = false) (rest : List Char) (m : Mark) :
    escape since ⟨'\\' :: letter :: rest, m⟩ = .ok c ⟨rest, m.past ['\\', letter]⟩ := by
  have hsecond : (Cursor.mk ('\\' :: letter :: rest) m).second = some letter := rfl
  have hskip := @skip_two '\\' letter (by decide) hbreak rest m
  rw [escape, bind_ok (get_apply _), hsecond]
  simp only [Option.bind_some, hletter]
  rw [bind_ok hskip]
  rfl

/-- An escape is a letter for the character, or its number behind a letter for how many digits it
has. -/
theorem escape_cases (c : Char) :
    (∃ letter, Writer.escape c = [letter] ∧ letterEscape? letter = some c ∧
        isBreak letter = false) ∨
      ∃ letter width, Writer.escape c = letter :: Writer.hexDigits width c.toNat ∧
        letterEscape? letter = none ∧ digitCount? letter = some width ∧ c.toNat < 16 ^ width ∧
        isBreak letter = false := by
  simp only [Writer.escape]
  split
  case h_15 =>
      refine .inr ?_
      simp only [Writer.numberedEscape]
      split
      · exact ⟨'x', 2, rfl, rfl, rfl, by omega, rfl⟩
      · split
        · exact ⟨'u', 4, rfl, rfl, rfl, by omega, rfl⟩
        · exact ⟨'U', 8, rfl, rfl, rfl, c.val.toNat_lt, rfl⟩
  all_goals exact .inl ⟨_, rfl, rfl, rfl⟩

/-- The escape of a character stands for it. -/
theorem escape_eq (since : Mark) (c : Char) (rest : List Char) (m : Mark) :
    escape since ⟨'\\' :: Writer.escape c ++ rest, m⟩ =
      .ok c ⟨rest, m.past ('\\' :: Writer.escape c)⟩ := by
  rcases escape_cases c with ⟨letter, h, hl, hb⟩ | ⟨letter, width, h, hl, hw, hc, hb⟩
  · rw [h]
    exact escape_letter since hl hb rest m
  · rw [h]
    exact escape_numbered since c hl hw hc hb rest m

/-- An escape is on one line. -/
theorem isBreak_of_mem_escape {c x : Char} (h : x ∈ Writer.escape c) : isBreak x = false := by
  rcases escape_cases c with ⟨letter, he, -, hb⟩ | ⟨letter, width, he, -, -, -, hb⟩
  · rw [he, List.mem_singleton] at h
    rw [h, hb]
  · rw [he] at h
    rcases List.mem_cons.1 h with rfl | h
    · exact hb
    · exact Writer.isBreak_of_mem_hexDigits h

theorem escape_ne_nil (c : Char) : Writer.escape c ≠ [] := by
  rcases escape_cases c with ⟨letter, h, -⟩ | ⟨letter, width, h, -⟩ <;> simp [h]

end Scan

end Gauge.Yaml
