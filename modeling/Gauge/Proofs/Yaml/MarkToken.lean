import Gauge.Proofs.Yaml.ScalarToken
import Mathlib.Data.List.InsertIdx
import Mathlib.Data.List.TakeWhile

/-!
The tokens of marks: those of keys, values and items, and the brackets around nothing. A key that is
known only by the colon behind it has its token put before it.
-/

namespace Gauge.Yaml.Scanner

open Cursor Scan Writer

variable {s : Scanner} {v : View}

theorem insertIdx_length_append (before after : List Lexeme) (l : Lexeme) :
    (before ++ after).insertIdx before.length l = before ++ l :: after := by
  induction before with
  | nil => rfl
  | cons x before ih => simp [ih]

theorem Shows.lexemes_insert (h : s.Shows v) (position : Nat) (l : Lexeme) (first last : Mark) :
    (s.insert position ⟨l, first, last⟩).tokens.toList.map (·.lexeme) =
      v.lexemes.insertIdx position l := by
  rw [← h.lexemes]
  obtain ⟨⟨tokens⟩, ready, indents, candidate, outer, isKeyAllowed⟩ := s
  simp [Scanner.insert, List.map_insertIdx]

theorem Shows.insert (h : s.Shows v) {before after : List Lexeme} (hv : v.lexemes = before ++ after)
    {l : Lexeme} (hl : l ≠ .streamEnd) (first last : Mark) :
    (s.insert before.length ⟨l, first, last⟩).Shows { v with lexemes := before ++ l :: after } :=
  { h with
    lexemes := by
      rw [h.lexemes_insert, hv, insertIdx_length_append]
    goesOn := by
      have := h.goesOn
      rw [hv] at this
      simp_all [Ne.symm hl] }

/-- What is seen once a collection is opened at a column, if it is further in. -/
def View.opened (v : View) (l : Lexeme) (column : Nat) : View :=
  if v.indents.head?.any (column ≤ ·) then v
  else { v with lexemes := v.lexemes ++ [l], indents := column :: v.indents }

/-- A collection is opened before the lexemes that are known to be in it. -/
theorem Shows.openBlock (h : s.Shows v) {before after : List Lexeme}
    (hv : v.lexemes = before ++ after) {l : Lexeme} (hl : l ≠ .streamEnd) (m : Mark) :
    (s.openBlock l before.length m).Shows
      { (({ v with lexemes := before } : View).opened l m.column) with
        lexemes := (({ v with lexemes := before } : View).opened l m.column).lexemes ++ after } := by
  simp only [Scanner.openBlock, View.opened]
  rw [h.inFlow_eq, h.indents]
  simp only [Bool.false_or]
  split
  · obtain ⟨lexemes, indents, candidate, isKeyAllowed⟩ := v
    subst hv
    exact h
  · have := h.insert hv hl m m
    exact
      { this with
        indents := rfl
        lexemes := by simpa using this.lexemes
        goesOn := by simpa using this.goesOn }

theorem Shows.indicator (h : s.Shows v) {l : Lexeme} (hl : l ≠ .streamEnd) {x : Char}
    (hx : isBreak x = false) (r : List Char) (m : Mark) :
    ∃ t : Scanner, t.Shows (v.push l) ∧
      s.indicator l 1 ⟨x :: r, m⟩ = .ok t ⟨r, m.advance x⟩ := by
  refine ⟨_, h.push hl m (m.advance x), ?_⟩
  simp only [Scanner.indicator]
  rw [bind_ok (mark_apply _), bind_ok (skip_one hx r m), bind_ok (mark_apply _)]
  rfl

/-- A mapping or a sequence begins at a mark of its own if it is further in. -/
theorem Shows.openFor (h : s.Shows v) (ha : v.isKeyAllowed = true) {l : Lexeme}
    (hl : l ≠ .streamEnd) (problem : Problem) (c : Cursor) :
    ∃ t : Scanner, t.Shows (v.opened l c.mark.column) ∧ s.openFor l problem c = .ok t c := by
  have hopen := h.openBlock (List.append_nil v.lexemes).symm hl c.mark
  rw [List.append_nil] at hopen
  refine ⟨_, hopen, ?_⟩
  simp only [Scanner.openFor]
  rw [h.inFlow_eq, h.isKeyAllowed, ha, if_neg (by decide), if_pos rfl, bind_ok (mark_apply c),
    h.size_eq]
  rfl

theorem View.opened_candidate (v : View) (l : Lexeme) (column : Nat) :
    (v.opened l column).candidate = v.candidate := by
  simp only [View.opened]
  split <;> rfl

/-- An item. -/
theorem Shows.blockEntry (h : s.Shows v) (hv : v.candidate = none) (ha : v.isKeyAllowed = true)
    (r : List Char) (m : Mark) :
    ∃ t : Scanner,
      t.Shows { (v.opened .blockSequenceStart m.column).push .blockEntry with isKeyAllowed := true } ∧
      s.blockEntry ⟨'-' :: r, m⟩ = .ok t ⟨r, m.advance '-'⟩ := by
  obtain ⟨u, hu, hopen⟩ := h.openFor ha (by simp : Lexeme.blockSequenceStart ≠ .streamEnd)
    .entryOutOfPlace ⟨'-' :: r, m⟩
  have hdrop := hu.dropCandidate_eq (by rw [View.opened_candidate, hv]) ⟨'-' :: r, m⟩
  obtain ⟨t, ht, hread⟩ := (hu.withKeyAllowed true).indicator
    (by simp : Lexeme.blockEntry ≠ .streamEnd) (by decide : isBreak '-' = false) r m
  refine ⟨t, ht, ?_⟩
  simp only [Scanner.blockEntry]
  rw [bind_ok hopen, bind_ok hdrop]
  exact hread

/-- A key that is marked as one. -/
theorem Shows.key (h : s.Shows v) (hv : v.candidate = none) (ha : v.isKeyAllowed = true)
    (r : List Char) (m : Mark) :
    ∃ t : Scanner,
      t.Shows { (v.opened .blockMappingStart m.column).push .key with isKeyAllowed := true } ∧
      s.key ⟨'?' :: r, m⟩ = .ok t ⟨r, m.advance '?'⟩ := by
  obtain ⟨u, hu, hopen⟩ := h.openFor ha (by simp : Lexeme.blockMappingStart ≠ .streamEnd)
    .keyOutOfPlace ⟨'?' :: r, m⟩
  have hdrop := hu.dropCandidate_eq (by rw [View.opened_candidate, hv]) ⟨'?' :: r, m⟩
  obtain ⟨t, ht, hread⟩ := (hu.withKeyAllowed true).indicator
    (by simp : Lexeme.key ≠ .streamEnd) (by decide : isBreak '?' = false) r m
  refine ⟨t, ht, ?_⟩
  simp only [Scanner.key]
  rw [bind_ok hopen, bind_ok hdrop, hu.inFlow_eq]
  exact hread

/-- The value of a key that is marked as one. -/
theorem Shows.value_of_none (h : s.Shows v) (hv : v.candidate = none) (ha : v.isKeyAllowed = true)
    (r : List Char) (m : Mark) :
    ∃ t : Scanner,
      t.Shows { (v.opened .blockMappingStart m.column).push .value with isKeyAllowed := true } ∧
      s.value ⟨':' :: r, m⟩ = .ok t ⟨r, m.advance ':'⟩ := by
  obtain ⟨u, hu, hopen⟩ := h.openFor ha (by simp : Lexeme.blockMappingStart ≠ .streamEnd)
    .valueOutOfPlace ⟨':' :: r, m⟩
  obtain ⟨t, ht, hread⟩ := (hu.withKeyAllowed true).indicator
    (by simp : Lexeme.value ≠ .streamEnd) (by decide : isBreak ':' = false) r m
  refine ⟨t, ht, ?_⟩
  simp only [Scanner.value]
  rw [h.candidate, hv]
  simp only []
  rw [bind_ok hopen, hu.inFlow_eq]
  exact hread

/-- The value of a candidate, which becomes a key with a token of its own before it. -/
theorem Shows.value_of_some (h : s.Shows v) {before after : List Lexeme}
    (hl : v.lexemes = before ++ after) {k : KeyCandidate} (hv : v.candidate = some k)
    (hk : k.position = before.length) (r : List Char) (m : Mark) :
    ∃ t : Scanner,
      t.Shows
        ⟨(({ v with lexemes := before } : View).opened .blockMappingStart k.mark.column).lexemes ++
            .key :: after ++ [.value],
          (({ v with lexemes := before } : View).opened .blockMappingStart k.mark.column).indents,
          none, false⟩ ∧
      s.value ⟨':' :: r, m⟩ = .ok t ⟨r, m.advance ':'⟩ := by
  have hinsert := h.insert hl (by simp : Lexeme.key ≠ .streamEnd) k.mark k.mark
  have hopen := hinsert.openBlock rfl (by simp : Lexeme.blockMappingStart ≠ .streamEnd) k.mark
  obtain ⟨t, ht, hread⟩ := ((hopen.withCandidate none).withKeyAllowed false).indicator
    (by simp : Lexeme.value ≠ .streamEnd) (by decide : isBreak ':' = false) r m
  rw [← hk] at hread
  refine ⟨t, ht, ?_⟩
  simp only [Scanner.value]
  rw [h.candidate, hv]
  exact hread

/-! Which token is at hand. -/

theorem tokenHere_dash (s : Scanner) (r : List Char) (m : Mark) :
    s.tokenHere ⟨'-' :: ' ' :: r, m⟩ = s.blockEntry ⟨'-' :: ' ' :: r, m⟩ := by
  have hd : (Cursor.mk ('-' :: ' ' :: r) m).isAtDocument = false := by
    cases r <;> simp [isAtDocument]
  have hend : isEnd (Cursor.mk ('-' :: ' ' :: r) m).second = true := rfl
  simp only [tokenHere]
  rw [bind_ok (get_apply _), hd, hend]
  simp [Cursor.next]

theorem tokenHere_question (s : Scanner) (r : List Char) (m : Mark) :
    s.tokenHere ⟨'?' :: ' ' :: r, m⟩ = s.key ⟨'?' :: ' ' :: r, m⟩ := by
  have hd : (Cursor.mk ('?' :: ' ' :: r) m).isAtDocument = false := by
    apply isAtDocument_of_head <;> simp [Cursor.next]
  have hend : isEnd (Cursor.mk ('?' :: ' ' :: r) m).second = true := rfl
  simp only [tokenHere]
  rw [bind_ok (get_apply _), hd, hend]
  simp [Cursor.next]

theorem tokenHere_colon (s : Scanner) {r : List Char} (hr : isEnd r.head? = true) (m : Mark) :
    s.tokenHere ⟨':' :: r, m⟩ = s.value ⟨':' :: r, m⟩ := by
  have hd : (Cursor.mk (':' :: r) m).isAtDocument = false := by
    apply isAtDocument_of_head <;> simp [Cursor.next]
  have hend : isEnd (Cursor.mk (':' :: r) m).second = true := by
    simpa [Cursor.second, List.head?_eq_getElem?] using hr
  simp only [tokenHere]
  rw [bind_ok (get_apply _), hd, hend]
  simp [Cursor.next]

/-- The end of the text closes all collections. -/
theorem Shows.streamEnd (h : s.Shows v) (hv : v.candidate = none) {m : Mark} (hm : m.column = 0) :
    ∃ t : Scanner, s.tokenHere ⟨[], m⟩ = .ok t ⟨[], m⟩ ∧ t.isFinished = true ∧
      t.tokens.toList.map (·.lexeme) =
        v.lexemes ++ List.replicate v.indents.length .blockEnd ++ [.streamEnd] := by
  have hlexemes : (s.closeAll m).tokens.toList.map (·.lexeme) =
      v.lexemes ++ List.replicate v.indents.length .blockEnd := by
    simp only [closeAll, Scanner.closeBlocks]
    rw [h.inFlow_eq, closeFrom_eq, h.indents]
    have hall : (v.indents.takeWhile fun _ => true) = v.indents :=
      List.takeWhile_eq_self_iff.2 fun _ _ => rfl
    simp [h.lexemes, hall]
  have hcandidate : (s.closeAll m).candidate = none := by
    simp only [closeAll, Scanner.closeBlocks]
    split
    · exact h.candidate.trans hv
    · exact h.candidate.trans hv
  have hdrop : (s.closeAll m).dropCandidate ⟨[], m⟩ = .ok (s.closeAll m) ⟨[], m⟩ := by
    simp only [dropCandidate]
    rw [hcandidate]
    rfl
  refine ⟨({ s.closeAll m with isKeyAllowed := false }).push ⟨.streamEnd, m, m⟩, ?_, ?_, ?_⟩
  · have hplace : (modify fun c : Cursor =>
        if c.mark.column == 0 then c else { c with mark := ⟨c.mark.index, c.mark.line + 1, 0⟩ } :
        Scan PUnit) ⟨[], m⟩ = .ok () ⟨[], m⟩ := by
      change EStateM.Result.ok () (if m.column == 0 then _ else _) = _
      rw [hm]
      rfl
    have hend : s.streamEnd ⟨[], m⟩ =
        .ok (({ s.closeAll m with isKeyAllowed := false }).push ⟨.streamEnd, m, m⟩) ⟨[], m⟩ := by
      simp only [Scanner.streamEnd]
      rw [bind_ok hplace, bind_ok (mark_apply _), bind_ok hdrop]
      rfl
    exact hend
  · simp [isFinished, Scanner.push]
  · simp [Scanner.push, hlexemes]

end Gauge.Yaml.Scanner
