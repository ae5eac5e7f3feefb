import Gauge.Proofs.Yaml.Scanner

/-!
The tokens of scalars. A text in any of the styles of the writer becomes one token with that text.
-/

namespace Gauge.Yaml.Scanner

open Cursor Scan Writer

variable {s : Scanner} {v : View}

theorem isAtDocument_of_head {c : Cursor} (h : c.next ≠ some '-') (h' : c.next ≠ some '.') :
    c.isAtDocument = false := by
  obtain ⟨rest, m⟩ := c
  cases rest with
  | nil => simp [isAtDocument]
  | cons x rest =>
      have hx : x ≠ '-' := by simpa [Cursor.next] using h
      have hx' : x ≠ '.' := by simpa [Cursor.next] using h'
      simp [isAtDocument, hx, hx']

/-- What is seen once what comes next is a candidate for a key, if a key may stand there. -/
def View.saved (v : View) (m : Mark) : View :=
  { v with
    candidate :=
      if v.isKeyAllowed then some ⟨v.lexemes.length, m, v.indents.head? == some m.column⟩ else none }

theorem Shows.dropCandidate_eq (h : s.Shows v) (hv : v.candidate = none) (c : Cursor) :
    s.dropCandidate c = .ok s c := by
  simp only [dropCandidate]
  rw [h.candidate, hv]
  rfl

theorem Shows.saveCandidate (h : s.Shows v) (hv : v.candidate = none) (c : Cursor) :
    ∃ t : Scanner, t.Shows (v.saved c.mark) ∧ s.saveCandidate c = .ok t c := by
  simp only [Scanner.saveCandidate]
  rw [h.isKeyAllowed]
  cases ha : v.isKeyAllowed with
  | false =>
      refine ⟨s, ?_, rfl⟩
      have : v.saved c.mark = v := by
        simp only [View.saved]
        rw [ha, if_neg (by decide), ← hv, ← ha]
      rwa [this]
  | true =>
      refine ⟨_, h.withCandidate (v.saved c.mark).candidate, ?_⟩
      rw [if_pos rfl, bind_ok (mark_apply c), bind_ok (h.dropCandidate_eq hv c)]
      simp [View.saved, ha, h.inFlow_eq, h.size_eq, h.indents]

/-- The token of a text without quotes. -/
theorem Shows.plainScalar (h : s.Shows v) (hv : v.candidate = none) {t r passed rest : List Char}
    {isBroken : Bool}
    (hend : PlainEnd ((v.indents.head?.map (· + 1)).getD 0) r isBroken passed rest)
    (ht : IsInline none t) {m : Mark} (hd : (Cursor.mk (t ++ r) m).isAtDocument = false)
    (hm : (v.indents.head?.map (· + 1)).getD 0 ≤ m.column + 1) :
    ∃ u : Scanner,
      u.Shows { (v.saved m).push (.scalar (String.ofList t) .plain) with isKeyAllowed := isBroken } ∧
      s.plainScalar ⟨t ++ r, m⟩ = .ok u ⟨rest, (m.past t).past passed⟩ := by
  obtain ⟨u, hu, hsave⟩ := h.saveCandidate hv ⟨t ++ r, m⟩
  have hread : plain u.inFlow ((u.indents.head?.map (· + 1)).getD 0) ⟨t ++ r, m⟩ =
      .ok (t, isBroken) ⟨rest, (m.past t).past passed⟩ := by
    rw [hu.inFlow_eq, hu.indents]
    exact plain_eq hend ht hd hm
  refine ⟨_, (hu.withKeyAllowed isBroken).push (by simp) m ((m.past t).past passed), ?_⟩
  simp only [Scanner.plainScalar]
  rw [bind_ok hsave, bind_ok (mark_apply _), bind_ok hread]
  rfl

/-- The token of a text between quotes. -/
theorem Shows.quotedScalar (h : s.Shows v) (hv : v.candidate = none) {single : Bool}
    {t w r : List Char} {m : Mark} (hread : quoted single ⟨w ++ r, m⟩ = .ok t ⟨r, m.past w⟩) :
    ∃ u : Scanner,
      u.Shows { (v.saved m).push
        (.scalar (String.ofList t) (if single then .singleQuoted else .doubleQuoted)) with
          isKeyAllowed := false } ∧
      s.quotedScalar single ⟨w ++ r, m⟩ = .ok u ⟨r, m.past w⟩ := by
  obtain ⟨u, hu, hsave⟩ := h.saveCandidate hv ⟨w ++ r, m⟩
  refine ⟨_, (hu.withKeyAllowed false).push (by simp) m (m.past w), ?_⟩
  simp only [Scanner.quotedScalar, Scanner.simple]
  rw [bind_ok hsave, bind_ok (mark_apply _), bind_assoc, bind_ok hread]
  rfl

/-! Which token is at hand. -/

/-- What a text without quotes begins with. -/
theorem head_of_isInline {x : Char} {t : List Char} (h : IsInline none (x :: t)) (r : List Char) :
    isLeadingIndicator x = false ∧
      (x = '?' ∨ x = ':' ∨ x = '-' → isEnd (t ++ r).head? = false) := by
  have hind := h.noIndicator
  simp only [hasIndicator, Writer.isIndicator, Bool.or_eq_false_iff, Bool.and_eq_false_iff,
    beq_eq_false_iff_ne] at hind
  refine ⟨hind.1.1, fun hx => ?_⟩
  have hend : isEnd t.head? = false := by
    rcases hind.1.2 with ⟨⟨h1, h2⟩, h3⟩ | h
    · rcases hx with rfl | rfl | rfl
      · exact absurd rfl h1
      · exact absurd rfl h2
      · exact absurd rfl h3
    · exact h
  cases t with
  | nil => cases hend
  | cons y t => exact hend

theorem beginsPlain_of_isInline {x : Char} {t : List Char} (h : IsInline none (x :: t))
    (r : List Char) : beginsPlain false x (t ++ r).head? = true := by
  obtain ⟨hlead, hmark⟩ := head_of_isInline h r
  obtain ⟨hbreak, htab⟩ := h.chars x List.mem_cons_self
  have hblank : isBlank x = false := isBlank_eq_false (by simpa using h.head) htab
  by_cases hx : x = '?' ∨ x = ':' ∨ x = '-'
  · have hend := hmark hx
    have hsecond : (t ++ r).head?.any isBlank = false := by
      cases hn : (t ++ r).head? with
      | none => rfl
      | some y =>
          rw [hn] at hend
          simp only [isEnd, Option.all_some, Bool.or_eq_false_iff] at hend
          simp [hend.1]
    simp only [beginsPlain]
    rw [hend, hsecond]
    rcases hx with rfl | rfl | rfl <;> decide
  · have hindicator : Scanner.isIndicator x = false := by
      simp only [not_or] at hx
      simp only [isLeadingIndicator, List.contains_eq_mem, decide_eq_false_iff_not] at hlead
      simp only [Scanner.isIndicator, List.contains_eq_mem, decide_eq_false_iff_not]
      simp at hlead ⊢
      tauto
    simp [beginsPlain, hblank, hbreak, hindicator]

theorem Shows.tokenHere_plain (h : s.Shows v) {t : List Char} (ht : IsInline none t) (r : List Char)
    {m : Mark} (hd : (Cursor.mk (t ++ r) m).isAtDocument = false) :
    s.tokenHere ⟨t ++ r, m⟩ = s.plainScalar ⟨t ++ r, m⟩ := by
  obtain ⟨x, t, rfl⟩ := List.exists_cons_of_ne_nil ht.ne_nil
  obtain ⟨hlead, hmark⟩ := head_of_isInline ht r
  have hbegins := beginsPlain_of_isInline ht r
  have hne (y : Char) (hy : isLeadingIndicator y = true) : x ≠ y := by
    rintro rfl
    exact absurd hlead (by simp [hy])
  have hsecond : (Cursor.mk (x :: t ++ r) m).second = (t ++ r).head? := by
    simp [Cursor.second, List.head?_eq_getElem?]
  simp only [tokenHere]
  rw [bind_ok (get_apply _)]
  simp only [Cursor.next, List.cons_append, List.head?_cons] at hd hsecond ⊢
  simp only [hd, hsecond, h.inFlow_eq, hbegins]
  generalize (t ++ r).head? = second at hmark
  have hm (y : Char) (hy : y = '?' ∨ y = ':' ∨ y = '-') : (x == y && isEnd second) = false := by
    by_cases hxy : x = y
    · rw [hmark (hxy ▸ hy), Bool.and_false]
    · simp [hxy]
  have hl (y : Char) (hy : isLeadingIndicator y = true) : (x == y) = false := by simpa using hne y hy
  simp only [hl '%' (by decide), hl '[' (by decide), hl ']' (by decide), hl '\x7b' (by decide),
    hl '\x7d' (by decide), hl ',' (by decide), hm '-' (by simp), hm '?' (by simp), hm ':' (by simp),
    hl '*' (by decide), hl '&' (by decide), hl '!' (by decide), hl '|' (by decide),
    hl '>' (by decide), hl '\'' (by decide), hl '"' (by decide), Bool.false_or, Bool.and_false,
    Bool.false_and, Bool.false_eq_true, if_false, if_true]

theorem tokenHere_quote (s : Scanner) (single : Bool) (r : List Char) (m : Mark) :
    s.tokenHere ⟨quoteOf single :: r, m⟩ = s.quotedScalar single ⟨quoteOf single :: r, m⟩ := by
  have hd : (Cursor.mk (quoteOf single :: r) m).isAtDocument = false := by
    apply isAtDocument_of_head <;> cases single <;> simp [Cursor.next, quoteOf]
  simp only [tokenHere]
  rw [bind_ok (get_apply _), hd]
  cases single <;> simp [Cursor.next, quoteOf]

theorem Shows.tokenHere_bar (h : s.Shows v) (r : List Char) (m : Mark) :
    s.tokenHere ⟨'|' :: r, m⟩ = s.blockScalar false ⟨'|' :: r, m⟩ := by
  have hd : (Cursor.mk ('|' :: r) m).isAtDocument = false := by
    apply isAtDocument_of_head <;> simp [Cursor.next]
  simp only [tokenHere]
  rw [bind_ok (get_apply _), hd]
  simp [Cursor.next, h.inFlow_eq]

/-- The token of a text on one line. Without quotes the token takes up the line break behind it. -/
theorem Shows.tokenHere_inline (h : s.Shows v) (hv : v.candidate = none) {indent : Nat}
    (hi : indent ≠ 0) {t w r passed rest : List Char} {style : ScalarStyle} {isBroken : Bool}
    (hw : InlineForm indent t style w)
    (hend : PlainEnd ((v.indents.head?.map (· + 1)).getD 0) r isBroken passed rest) {m : Mark}
    (hd : style = .plain → (Cursor.mk (w ++ r) m).isAtDocument = false)
    (hm : (v.indents.head?.map (· + 1)).getD 0 ≤ m.column + 1) :
    ∃ u : Scanner,
      u.Shows { (v.saved m).push (.scalar (String.ofList t) style) with
        isKeyAllowed := decide (style = .plain) && isBroken } ∧
      s.tokenHere ⟨w ++ r, m⟩ =
        .ok u (if style = .plain then ⟨rest, (m.past w).past passed⟩ else ⟨r, m.past w⟩) := by
  have hquote : r.head? ≠ some '\'' := by
    cases hend <;> simp
  cases hw with
  | plain ht =>
      obtain ⟨u, hu, hread⟩ := h.plainScalar hv hend ht.toIsInline (hd rfl) hm
      exact ⟨u, hu, (h.tokenHere_plain ht.toIsInline r (hd rfl)).trans hread⟩
  | singleQuoted ht =>
      obtain ⟨u, hu, hread⟩ := h.quotedScalar hv (quoted_single hi ht hquote m)
      exact ⟨u, hu, (tokenHere_quote s true _ m).trans hread⟩
  | doubleQuoted =>
      obtain ⟨u, hu, hread⟩ := h.quotedScalar hv (quoted_double t r m)
      exact ⟨u, hu, (tokenHere_quote s false _ m).trans hread⟩

/-- The token of a text that is written line by line. -/
theorem Shows.tokenHere_literal (h : s.Shows v) (hv : v.candidate = none) {outer : Nat}
    (ho : v.indents.head? = some outer) {t : List Char} (ht : ∀ c ∈ t, isPrintable c = true)
    (hne : t ≠ []) {k : Nat} (hk : k < outer + 2) {rest : List Char} (hrest : Solid rest) (m : Mark) :
    ∃ u : Scanner,
      u.Shows { v.push (.scalar (String.ofList t) .literal) with isKeyAllowed := true } ∧
      s.tokenHere ⟨literal (outer + indentation) t ++ (List.replicate k ' ' ++ rest), m⟩ =
        .ok u ⟨rest, m.past (literal (outer + indentation) t ++ List.replicate k ' ')⟩ := by
  have hread := block_literal ht hne hk hrest m
  rw [← ho, ← h.indents] at hread
  refine ⟨_, (h.withKeyAllowed true).push (by simp) m
    (m.past (literal (outer + indentation) t ++ List.replicate k ' ')), ?_⟩
  refine (h.tokenHere_bar _ m).trans ?_
  simp only [blockScalar]
  rw [bind_ok (h.dropCandidate_eq hv _), bind_ok (mark_apply _)]
  exact bind_ok hread

theorem View.closed_eq {column : Nat} (h : ∀ i ∈ v.indents.head?, i ≤ column) : v.closed column = v := by
  obtain ⟨lexemes, indents, candidate, isKeyAllowed⟩ := v
  cases indents with
  | nil => simp [View.closed]
  | cons i rest => simp [View.closed, show i ≤ column from h i rfl]

theorem View.advance_closed (hv : v.candidate = none) {outer : Nat}
    (ho : v.indents.head? = some outer) {m : Mark} (hm : outer ≤ m.column) :
    { v.closed m.column with candidate := none, isKeyAllowed := v.isKeyAllowed } = v := by
  rw [View.closed_eq fun i hi => by rw [ho] at hi; cases hi; exact hm, ← hv]

/-- What is further in than the innermost collection need not be a key. -/
theorem View.saved_candidate {outer : Nat} (ho : v.indents.head? = some outer) {m : Mark}
    (hm : outer < m.column) {k : KeyCandidate} (hk : k ∈ (v.saved m).candidate) :
    k.isRequired = false ∧ k.mark = m := by
  simp only [View.saved, ho] at hk
  split at hk
  · cases hk
    exact ⟨by simp; omega, rfl⟩
  · cases hk

/-- After a text on one line. -/
theorem atLine_inline {outer : Nat} (ho : v.indents.head? = some outer) (l : Lexeme)
    (w : List Char) (isPlain : Prop) [Decidable isPlain] (k : Nat) (main : List Char) {m : Mark}
    (hm : outer < m.column) :
    AtLine main k { (v.saved m).push l with isKeyAllowed := decide isPlain && true }
      (if isPlain then ⟨main, (m.past w).past ('\n' :: List.replicate k ' ')⟩
        else ⟨'\n' :: List.replicate k ' ' ++ main, m.past w⟩) := by
  have hline := Mark.line_le_past m w
  by_cases hp : isPlain
  · rw [if_pos hp]
    have hcolumn : ((m.past w).past ('\n' :: List.replicate k ' ')).column = k :=
      @column_past_breaks _ '\n' [] (by simp [isBreak]) k
    refine .here hcolumn (by simp [hp]) fun x hx => ?_
    obtain ⟨hrequired, hmark⟩ := View.saved_candidate ho hm hx
    refine ⟨hrequired, ?_⟩
    rw [hmark, Mark.past_cons, Mark.past_of_one_line (by simp [isBreak])]
    exact Nat.lt_succ_of_le hline
  · rw [if_neg hp]
    refine .before fun x hx => ?_
    obtain ⟨hrequired, hmark⟩ := View.saved_candidate ho hm hx
    exact ⟨hrequired, hmark ▸ hline⟩

/-- A value or an item that is a text, up to the next line. -/
theorem Reads.text (hv : v.candidate = none) {outer : Nat} (ho : v.indents.head? = some outer)
    {t w : List Char} {style : ScalarStyle} (hw : TextForm (outer + indentation) t style w) {k : Nat}
    (hk : k ≤ outer) {main : List Char} (hmain : IsLineStart main) {m : Mark}
    (hm : outer ≤ m.column) :
    ∃ (u : View) (d : Cursor), Reads v ⟨' ' :: (w ++ (List.replicate k ' ' ++ main)), m⟩ u d ∧
      AtLine main k u d ∧ u.lexemes = v.lexemes ++ [.scalar (String.ofList t) style] ∧
      u.indents = v.indents := by
  have hcolumn : (m.advance ' ').column = m.column + 1 := rfl
  have hview := View.advance_closed hv ho (show outer ≤ (m.advance ' ').column by omega)
  cases hw with
  | @inline _ w hw =>
      have hindent : (v.indents.head?.map (· + 1)).getD 0 = outer + 1 := by rw [ho]; rfl
      have hend : PlainEnd ((v.indents.head?.map (· + 1)).getD 0)
          ('\n' :: List.replicate k ' ' ++ main) true ('\n' :: List.replicate k ' ') main :=
        .line hmain.solid (by omega)
      refine ⟨_, _, ?_, atLine_inline ho (.scalar (String.ofList t) style) w (style = .plain) k main
        (show outer < (m.advance ' ').column by omega), rfl, rfl⟩
      rw [List.append_assoc]
      refine .of_givenUp (finds_space (hw.isLineStart _) m) (by simp [hv]) ?_ fun s hs => ?_
      · split
        · simp only [List.length_cons, List.length_append, List.length_replicate]
          omega
        · simp only [List.length_cons, List.length_append, List.length_replicate]
          omega
      · rw [hview] at hs
        exact hs.tokenHere_inline hv (by simp [indentation]) hw hend
          (fun _ => isAtDocument_of_column (by simp [hcolumn])) (by rw [hindent, hcolumn]; omega)
  | literal ht hne =>
      have hstart : IsLineStart (literal (outer + indentation) t ++ (List.replicate k ' ' ++ main)) := by
        intro c hc
        obtain rfl : '|' = c := by simpa [Writer.literal] using hc
        decide
      refine ⟨{ v.push (.scalar (String.ofList t) .literal) with isKeyAllowed := true },
        ⟨main, (m.advance ' ').past (literal (outer + indentation) t ++ List.replicate k ' ')⟩,
        .of_givenUp (finds_space hstart m) (by simp [hv]) (by simp; omega) fun s hs => ?_, ?_, rfl, rfl⟩
      · rw [hview] at hs
        exact hs.tokenHere_literal hv ho ht hne (by omega) hmain.solid _
      · exact .here (column_past_literal t k _) rfl (by simp [View.push, hv])

end Gauge.Yaml.Scanner
