import Gauge.Proofs.Yaml.Gap
import Gauge.Yaml.Writer

/-!
Text written as it is reads as itself: it has no character in it that means something where it stands,
so that only its end ends it.
-/

namespace Gauge.Yaml

open Cursor Writer

/-- Text of one line without an indicator, given what is before it. -/
structure IsInline (before : Option Char) (t : List Char) : Prop where
  ne_nil : t ≠ []
  head : t.head? ≠ some ' '
  last : t.getLast? ≠ some ' '
  chars : ∀ c ∈ t, isBreak c = false ∧ c ≠ '\t'
  noIndicator : hasIndicator before t = false

theorem isBlank_eq_false {c : Char} (hs : c ≠ ' ') (ht : c ≠ '\t') : isBlank c = false := by
  simp [isBlank, hs, ht]

theorem IsInline.solid {before : Option Char} {t : List Char} (h : IsInline before t) (r : List Char) :
    Scan.Solid (t ++ r) := by
  obtain ⟨c, rest, rfl⟩ := List.exists_cons_of_ne_nil h.ne_nil
  intro x hx
  obtain rfl : x = c := by simpa using hx.symm
  obtain ⟨hbreak, htab⟩ := h.chars x (by simp)
  exact ⟨isBlank_eq_false (by simpa using h.head) htab, hbreak⟩

theorem hasIndicator_append {before : Option Char} {s t : List Char} {c : Char}
    (h : hasIndicator before (s ++ c :: t) = false) : hasIndicator (some c) t = false := by
  induction s generalizing before with
  | nil =>
      simp only [List.nil_append, hasIndicator, Bool.or_eq_false_iff] at h
      exact h.2
  | cons x s ih =>
      simp only [List.cons_append, hasIndicator, Bool.or_eq_false_iff] at h
      exact ih h.2

/-- Behind the spaces after a word there is another text. -/
theorem IsInline.behind {before : Option Char} {w u : List Char} {n : Nat}
    (h : IsInline before (w ++ List.replicate (n + 1) ' ' ++ u)) (hu : u.head? ≠ some ' ') :
    w ≠ [] ∧ IsInline (some ' ') u := by
  obtain ⟨-, hhead, hlast, hchars, hind⟩ := h
  have hwne : w ≠ [] := by
    rintro rfl
    simp [List.replicate_succ] at hhead
  have hune : u ≠ [] := by
    rintro rfl
    rw [List.append_nil, List.replicate_succ', ← List.append_assoc] at hlast
    simp at hlast
  refine ⟨hwne, hune, hu, ?_, ?_, ?_⟩
  · rwa [List.getLast?_append_of_ne_nil _ hune] at hlast
  · exact fun c hc => hchars c (List.mem_append_right _ hc)
  · rw [List.replicate_succ', ← List.append_assoc, List.append_assoc _ [' ']] at hind
    exact hasIndicator_append hind

namespace Scan

/-- Where a plain scalar ends. -/
def StopsPlain : List Char → Prop
  | [] => True
  | c :: rest => endsPlain false c rest.head? = true

theorem plainRun_eq {before : Option Char} {w u r : List Char}
    (hw : ∀ c ∈ w, isBlank c = false ∧ isBreak c = false)
    (hi : hasIndicator before (w ++ u) = false) (hstop : StopsPlain (u ++ r)) :
    plainRun false (w ++ (u ++ r)) = w := by
  induction w generalizing before with
  | nil =>
      rw [List.nil_append]
      generalize u ++ r = s at hstop
      cases s with
      | nil => rfl
      | cons c s => exact if_pos hstop
  | cons c w ih =>
      simp only [List.cons_append, hasIndicator, Bool.or_eq_false_iff] at hi
      obtain ⟨hblank, hbreak⟩ := hw c List.mem_cons_self
      -- a colon at the end of the text would be an indicator, so the end does not matter
      have hcolon : c = ':' → isEnd (w ++ (u ++ r)).head? = false := by
        rintro rfl
        have hafter : isEnd (w ++ u).head? = false := by
          have := hi.1
          simp only [isIndicator] at this
          cases before <;> simp_all
        rw [← List.append_assoc]
        generalize w ++ u = s at hafter
        cases s with
        | nil => cases hafter
        | cons x s => exact hafter
      have hgoes : endsPlain false c (w ++ (u ++ r)).head? = false := by
        by_cases hc : c = ':'
        · simp only [endsPlain, hblank, hbreak, hcolon hc]
          simp
        · simp [endsPlain, hblank, hbreak, hc]
      rw [List.cons_append, plainRun, hgoes, ih (fun x hx => hw x (List.mem_cons_of_mem c hx)) hi.2]
      rfl

/-- What is read of a plain scalar behind one of its words. -/
def plainRest (indent : Nat) (since : Mark) (fuel : Nat) (read : List Char) :
    Scan (List Char × Bool) := do
  let c ← get
  if c.next.isNone || !isEnd c.next then return (read, false)
  else
    let inner ← gap indent since .none
    if (← mark).column < indent then return (read, inner.isBroken)
    else
      let (more, isBroken) ← plainFrom false indent since fuel inner
      return (read ++ more, isBroken)

theorem plainFrom_eq_plainRest (indent : Nat) (since : Mark) (fuel : Nat) (g : Gap)
    {w rest : List Char} {m : Mark} (hw : w ≠ []) (hb : ∀ c ∈ w, isBreak c = false)
    (hhash : w.head? ≠ some '#') (hrun : plainRun false (w ++ rest) = w)
    (hd : (Cursor.mk (w ++ rest) m).isAtDocument = false) :
    plainFrom false indent since (fuel + 1) g ⟨w ++ rest, m⟩ =
      plainRest indent since fuel (g.text ++ w) ⟨rest, m.past w⟩ := by
  have hnext : (Cursor.mk (w ++ rest) m).next ≠ some '#' := by
    obtain ⟨c, w, rfl⟩ := List.exists_cons_of_ne_nil hw
    simpa [Cursor.next] using hhash
  rw [plainFrom, bind_ok (get_apply _), hd]
  simp only [Bool.false_or, beq_iff_eq, hnext, if_false, hrun]
  rw [bind_ok (skip_of_one_line rfl hb), bind_ok (get_apply _), plainRest, bind_ok (get_apply _)]
  simp only [Bool.false_and, Bool.false_eq_true, if_false, List.isEmpty_iff, hw, Bool.not_false,
    Bool.true_and, decide_eq_true_eq]

theorem plainRest_colon (indent : Nat) (since : Mark) (fuel : Nat) (read : List Char)
    (rest : List Char) (m : Mark) :
    plainRest indent since fuel read ⟨':' :: rest, m⟩ = .ok (read, false) ⟨':' :: rest, m⟩ := rfl

/-- The text ends at the break before a line that is not indented far enough. -/
theorem plainRest_break {indent : Nat} (since : Mark) (fuel : Nat) (read : List Char) {k : Nat}
    {rest : List Char} (hrest : Solid rest) (hk : k < indent) (m : Mark) :
    plainRest indent since fuel read ⟨'\n' :: List.replicate k ' ' ++ rest, m⟩ =
      .ok (read, true) ⟨rest, m.past ('\n' :: List.replicate k ' ')⟩ := by
  have hwhite : ∀ c ∈ ['\n'], IsWhite c := by simp [IsWhite]
  have hgap := gap_breaks indent since hwhite (by simp [isBreak]) k hrest m
  have hcolumn : (m.past ('\n' :: List.replicate k ' ')).column = k := by
    rw [Mark.past_cons, Mark.past_of_one_line (by simp [isBreak])]
    simp [Mark.advance, isBreak]
  rw [plainRest, bind_ok (get_apply _)]
  simp only [List.cons_append, List.nil_append] at hgap ⊢
  rw [if_neg (by simp [Cursor.next, isEnd, isBreak]), bind_ok hgap, bind_ok (mark_apply _),
    if_pos (by rw [hcolumn]; exact hk)]
  rfl

/-- The text goes on behind spaces. -/
theorem plainRest_spaces {indent : Nat} (since : Mark) (fuel : Nat) (read : List Char) {n : Nat}
    {rest : List Char} (hrest : Solid rest) {m : Mark} (hm : indent ≤ m.column) :
    plainRest indent since fuel read ⟨List.replicate (n + 1) ' ' ++ rest, m⟩ =
      (do
        let (more, isBroken) ← plainFrom false indent since fuel
          ⟨List.replicate (n + 1) ' ', false, [], []⟩
        return (read ++ more, isBroken) : Scan (List Char × Bool))
        ⟨rest, m.past (List.replicate (n + 1) ' ')⟩ := by
  have hcolumn : (m.past (List.replicate (n + 1) ' ')).column = m.column + (n + 1) := by
    rw [Mark.past_of_one_line (by simp [isBreak])]
    simp
  rw [plainRest, bind_ok (get_apply _),
    if_neg (by simp [Cursor.next, isEnd, isBlank, List.replicate_succ]),
    bind_ok (gap_spaces indent since _ hrest m), bind_ok (mark_apply _), if_neg (by rw [hcolumn]; omega)]

/-- How a plain scalar ends, and where: at the colon behind a key, or at the break before a line
that is not indented far enough. -/
inductive PlainEnd (indent : Nat) : List Char → Bool → List Char → List Char → Prop where
  | colon {rest : List Char} (h : isEnd rest.head? = true) :
      PlainEnd indent (':' :: rest) false [] (':' :: rest)
  | line {k : Nat} {rest : List Char} (hrest : Solid rest) (hk : k < indent) :
      PlainEnd indent ('\n' :: List.replicate k ' ' ++ rest) true ('\n' :: List.replicate k ' ') rest

theorem PlainEnd.stops {indent : Nat} {r passed rest : List Char} {isBroken : Bool}
    (h : PlainEnd indent r isBroken passed rest) : StopsPlain r := by
  cases h with
  | colon h => simpa [StopsPlain, endsPlain] using .inr h
  | line => simp [StopsPlain, endsPlain, isBreak]

theorem PlainEnd.plainRest_eq {indent : Nat} {r passed rest : List Char} {isBroken : Bool}
    (h : PlainEnd indent r isBroken passed rest) (since : Mark) (fuel : Nat) (read : List Char)
    (m : Mark) :
    plainRest indent since fuel read ⟨r, m⟩ = .ok (read, isBroken) ⟨rest, m.past passed⟩ := by
  cases h with
  | colon h => exact plainRest_colon indent since fuel read _ m
  | line hrest hk => exact plainRest_break since fuel read hrest hk m

theorem head_ne_hash {t : List Char} (h : hasIndicator (some ' ') t = false) :
    t.head? ≠ some '#' := by
  cases t with
  | nil => simp
  | cons c t =>
      simp only [hasIndicator, Bool.or_eq_false_iff] at h
      rintro hc
      obtain rfl : c = '#' := by simpa using hc
      exact absurd h.1 (by simp [isIndicator, isEnd, isBlank])

/-- By induction on the words of the text: each is read up to the spaces behind it, which are kept as
the gap before the next. -/
theorem plainFrom_eq {indent : Nat} {r passed rest : List Char} {isBroken : Bool}
    (hend : PlainEnd indent r isBroken passed rest) (since : Mark) {t : List Char}
    {before : Option Char} (ht : IsInline before t) (hhash : t.head? ≠ some '#') {m : Mark}
    (hd : (Cursor.mk (t ++ r) m).isAtDocument = false) (hm : indent ≤ m.column + 1) {fuel : Nat}
    (hfuel : t.length < fuel) (g : Gap) :
    plainFrom false indent since fuel g ⟨t ++ r, m⟩ =
      .ok (g.text ++ t, isBroken) ⟨rest, (m.past t).past passed⟩ := by
  obtain ⟨fuel, rfl⟩ : ∃ n, fuel = n + 1 := ⟨fuel - 1, by omega⟩
  induction worded t generalizing before m fuel g with
  | @last t hw =>
      have hb : ∀ c ∈ t, isBreak c = false := fun c hc => (ht.chars c hc).1
      have hplain : ∀ c ∈ t, isBlank c = false ∧ isBreak c = false := fun c hc =>
        ⟨isBlank_eq_false (hw c hc) (ht.chars c hc).2, hb c hc⟩
      have hrun := plainRun_eq hplain (u := []) (by simpa using ht.noIndicator) (by simpa using hend.stops)
      rw [List.nil_append] at hrun
      rw [plainFrom_eq_plainRest indent since fuel g ht.ne_nil hb hhash hrun hd]
      exact hend.plainRest_eq since fuel _ _
  | @more w u n hw hu _ ih =>
      obtain ⟨hwne, hinline⟩ := ht.behind hu
      have hb : ∀ c ∈ w, isBreak c = false := fun c hc => (ht.chars c (by simp [hc])).1
      have hplain : ∀ c ∈ w, isBlank c = false ∧ isBreak c = false := fun c hc =>
        ⟨isBlank_eq_false (hw c hc) (ht.chars c (by simp [hc])).2, hb c hc⟩
      have hrun := plainRun_eq hplain (u := List.replicate (n + 1) ' ' ++ u) (r := r)
        (by simpa using ht.noIndicator) (by simp [StopsPlain, endsPlain, isBlank, List.replicate_succ])
      have hcolumn : (m.past w).column = m.column + w.length := by
        rw [Mark.past_of_one_line hb]
      have hcolumn' : ((m.past w).past (List.replicate (n + 1) ' ')).column =
          m.column + w.length + (n + 1) := by
        rw [Mark.past_of_one_line (by simp [isBreak]), hcolumn]
        simp
      have hhash' : w.head? ≠ some '#' := by
        obtain ⟨c, w, rfl⟩ := List.exists_cons_of_ne_nil hwne
        simpa using hhash
      have hwlen : 0 < w.length := List.length_pos_iff.2 hwne
      simp only [List.length_append, List.length_replicate] at hfuel
      obtain ⟨fuel, rfl⟩ : ∃ n, fuel = n + 1 := ⟨fuel - 1, by omega⟩
      simp only [List.append_assoc] at hrun hd ⊢
      rw [plainFrom_eq_plainRest indent since (fuel + 1) g hwne hb hhash' hrun hd,
        plainRest_spaces since (fuel + 1) _ (hinline.solid r) (by omega)]
      have hd' : (Cursor.mk (u ++ r) ((m.past w).past (List.replicate (n + 1) ' '))).isAtDocument =
          false := isAtDocument_of_column (by rw [hcolumn']; omega)
      have ih := ih hinline (head_ne_hash hinline.noIndicator) hd' (by omega)
        ⟨List.replicate (n + 1) ' ', false, [], []⟩ fuel (by omega)
      rw [bind_ok ih]
      simp [Gap.text, Mark.past_append]

/-- A text without indicators is read up to the end of it. -/
theorem plain_eq {indent : Nat} {t r passed rest : List Char} {isBroken : Bool}
    (hend : PlainEnd indent r isBroken passed rest) (ht : IsInline none t) {m : Mark}
    (hd : (Cursor.mk (t ++ r) m).isAtDocument = false) (hm : indent ≤ m.column + 1) :
    plain false indent ⟨t ++ r, m⟩ = .ok (t, isBroken) ⟨rest, (m.past t).past passed⟩ := by
  have hhash : t.head? ≠ some '#' := by
    have := ht.noIndicator
    cases t with
    | nil => simp
    | cons c t =>
        rintro hc
        obtain rfl : c = '#' := by simpa using hc
        simp [hasIndicator, isIndicator, isLeadingIndicator] at this
  simp only [plain]
  rw [bind_ok (mark_apply _), bind_ok (size_apply _),
    plainFrom_eq hend m ht hhash hd hm (by rw [List.length_append]; omega)]
  rfl

end Scan

end Gauge.Yaml
