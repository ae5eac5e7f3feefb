import Gauge.Proofs.Yaml.MarkToken

/-!
The tokens of the parts of an entry: its key with the colon, and the values that are not texts.
-/

namespace Gauge.Yaml.Scanner

open Cursor Scan Writer

variable {s : Scanner} {v : View}

/-- What is seen at a key that begins at a column: deeper collections are closed, and a mapping is
opened unless there is one at that column. -/
def View.atKey (v : View) (column : Nat) : View := (v.closed column).opened .blockMappingStart column

theorem View.opened_with (v : View) (k : Option KeyCandidate) (b : Bool) (l : Lexeme) (column : Nat) :
    ({ v with candidate := k, isKeyAllowed := b } : View).opened l column =
      { v.opened l column with candidate := k, isKeyAllowed := b } := by
  simp only [View.opened]
  split <;> rfl

theorem View.closed_le {column i : Nat} (h : i ∈ (v.closed column).indents.head?) : i ≤ column := by
  have := List.head?_dropWhile_not (fun i => !decide (i ≤ column)) v.indents
  change (v.indents.dropWhile fun i => !decide (i ≤ column)).head? = some i at h
  rw [h] at this
  simpa using this

theorem View.closed_closed (v : View) {i j : Nat} (h : j ≤ i) : (v.closed i).closed j = v.closed j := by
  obtain ⟨lexemes, indents, candidate, isKeyAllowed⟩ := v
  induction indents generalizing lexemes with
  | nil => simp [View.closed]
  | cons a indents ih =>
      by_cases ha : a ≤ i
      · simp [View.closed, ha]
      · have haj : ¬ a ≤ j := by omega
        have := ih (lexemes ++ [.blockEnd])
        simp only [View.closed, View.mk.injEq, List.append_assoc] at this
        simp only [View.closed, List.takeWhile_cons, List.dropWhile_cons, ha, haj, decide_false,
          Bool.not_false, if_true, List.length_cons, List.replicate_succ, View.mk.injEq]
        simpa using this

/-- Nothing is further in than the innermost collection. -/
theorem View.opened_eq {column : Nat} (h : v.indents.head? = some column) (l : Lexeme) :
    v.opened l column = v := by
  simp only [View.opened]
  rw [h, if_pos (by simp)]

/-- What is seen behind a text at the beginning of a line: the text is a candidate for a key. -/
def View.awaiting (v : View) (i : Nat) (m : Mark) (l : Lexeme) : View :=
  { (({ v.closed i with candidate := none, isKeyAllowed := true } : View).saved m).push l with
    isKeyAllowed := false }

/-- The text of a key on one line. -/
theorem Reads.keyText {c : Cursor} {i : Nat} {t w rest : List Char} {style : ScalarStyle}
    (hw : InlineForm (i + indentation) t style w) (hrest : isEnd rest.head? = true)
    (hline : AtLine (w ++ ':' :: rest) i v c) :
    ∃ m : Mark, m.column = i ∧
      Reads v c (v.awaiting i m (.scalar (String.ofList t) style)) ⟨':' :: rest, m.past w⟩ := by
  obtain ⟨m, hm, hfirst⟩ := hline.reads (hw.isLineStart _)
  have hne : 0 < w.length := List.length_pos_iff.2 hw.ne_nil
  refine ⟨m, hm, hfirst _ _ (by simp; omega) fun s hs => ?_⟩
  have hend : PlainEnd (((v.closed i).indents.head?.map (· + 1)).getD 0) (':' :: rest) false []
      (':' :: rest) := .colon hrest
  have hdocument (hp : style = .plain) : (Cursor.mk (w ++ ':' :: rest) m).isAtDocument = false := by
    cases hw with
    | plain hw => exact hw.isAtDocument_eq rest m
    | singleQuoted => cases hp
    | doubleQuoted => cases hp
  have hcolumn : ((v.closed i).indents.head?.map (· + 1)).getD 0 ≤ m.column + 1 := by
    cases hh : (v.closed i).indents.head? with
    | none => exact Nat.zero_le _
    | some j =>
        have := View.closed_le hh
        simp only [Option.map_some, Option.getD_some]
        omega
  obtain ⟨u, hu, hread⟩ := hs.tokenHere_inline rfl (by simp [indentation]) hw hend hdocument hcolumn
  rw [Bool.and_false] at hu
  rw [Mark.past_nil, ite_self] at hread
  exact ⟨u, hu, hread⟩

/-- The colon behind the text, which makes it a key unless it is too long. -/
theorem Reads.keyColon {i : Nat} {m m' : Mark} (l : Lexeme) {rest : List Char} (hm : m.column = i)
    (hline : m'.line = m.line) (hcolumn : i ≤ m'.column) (hindex : m'.index ≤ m.index + longestKey)
    (hrest : isEnd rest.head? = true) :
    Reads (v.awaiting i m l) ⟨':' :: rest, m'⟩
      ⟨(v.atKey i).lexemes ++ [.key, l, .value], (v.atKey i).indents, none, false⟩
      ⟨rest, m'.advance ':'⟩ := by
  let candidate : KeyCandidate :=
    ⟨(v.closed i).lexemes.length, m, (v.closed i).indents.head? == some m.column⟩
  have hfresh : isStale m' candidate = false := by
    simp only [isStale, candidate, hline, Bool.or_eq_false_iff, decide_eq_false_iff_not]
    omega
  have hclosed : (v.awaiting i m l).closed m'.column = v.awaiting i m l :=
    View.closed_eq fun j hj => Nat.le_trans (View.closed_le hj) hcolumn
  refine .of_token (finds_here (isLineStart_cons (by decide) rest) _) (fun k hk => ?_) (by simp)
    fun s hs => ?_
  · cases hk
    exact ⟨fun hstale => hstale, fun hstale => absurd (hstale.symm.trans hfresh) (by decide)⟩
  · rw [hclosed] at hs
    have hcandidate : freshAt m' (v.awaiting i m l).candidate = some candidate := by
      change freshAt m' (some candidate) = _
      simp [freshAt, Option.filter, hfresh]
    obtain ⟨u, hu, hread⟩ := @Shows.value_of_some _ _ hs (v.closed i).lexemes [l] rfl _ hcandidate rfl
      rest m'
    refine ⟨u, ?_, (tokenHere_colon s hrest _).trans hread⟩
    have hopened : (View.mk (v.closed i).lexemes (v.awaiting i m l).indents
        (freshAt m' (v.awaiting i m l).candidate) (v.awaiting i m l).isKeyAllowed).opened
          .blockMappingStart i = _ := View.opened_with (v.closed i) _ false .blockMappingStart i
    simp only [candidate] at hu
    rw [hm, hopened] at hu
    simpa [View.atKey] using hu

/-- A key on one line. Its token waits until the colon is seen. -/
theorem Reads.simpleKey {c : Cursor} {i : Nat} {is : List Nat} {t w rest : List Char}
    {style : ScalarStyle} (hw : InlineForm (i + indentation) t style w)
    (ht : ∀ c ∈ t, isBreak c = false) (hlength : w.length ≤ longestKey)
    (hrest : isEnd rest.head? = true) (hline : AtLine (w ++ ':' :: rest) i v c)
    (hopen : (v.atKey i).indents = i :: is) :
    ∃ (u : View) (m : Mark), Reads v c u ⟨rest, m⟩ ∧ i < m.column ∧ u.candidate = none ∧
      u.lexemes = (v.atKey i).lexemes ++ [.key, .scalar (String.ofList t) style, .value] ∧
      u.indents = i :: is := by
  obtain ⟨m, hm, htext⟩ := Reads.keyText hw hrest hline
  have hpast : m.past w = ⟨m.index + w.length, m.line, m.column + w.length⟩ :=
    Mark.past_of_one_line fun x hx => hw.isBreak_eq ht hx
  rw [hpast] at htext
  have hcolon := @Reads.keyColon v i m ⟨m.index + w.length, m.line, m.column + w.length⟩
    (.scalar (String.ofList t) style) rest hm rfl (by simp only; omega) (by simp only; omega) hrest
  refine ⟨_, _, htext.trans hcolon, ?_, rfl, rfl, hopen⟩
  simp [Mark.advance, isBreak]
  omega

/-- A key that is marked as one, which may go over several lines. -/
theorem Reads.markedKey {c : Cursor} {i : Nat} {is : List Nat} {t w rest : List Char}
    {style : ScalarStyle} (hw : TextForm (i + indentation) t style w)
    (hrest : isEnd rest.head? = true)
    (hline : AtLine ('?' :: ' ' :: (w ++ (List.replicate i ' ' ++ ':' :: rest))) i v c)
    (hopen : (v.atKey i).indents = i :: is) :
    ∃ (u : View) (m : Mark), Reads v c u ⟨rest, m⟩ ∧ i < m.column ∧ u.candidate = none ∧
      u.lexemes = (v.atKey i).lexemes ++ [.key, .scalar (String.ofList t) style, .value] ∧
      u.indents = i :: is := by
  have hcolon : IsLineStart (':' :: rest) := isLineStart_cons (by decide) rest
  -- the mark
  obtain ⟨m, hm, hfirst⟩ := hline.reads (isLineStart_cons (by decide) _)
  let atMark : View := { (v.atKey i).push .key with candidate := none, isKeyAllowed := true }
  have hmark : Reads v c atMark ⟨' ' :: (w ++ (List.replicate i ' ' ++ ':' :: rest)), m.advance '?'⟩ := by
    refine hfirst _ _ (by simp) fun s hs => ?_
    obtain ⟨t, ht, hread⟩ := hs.key rfl rfl (' ' :: (w ++ (List.replicate i ' ' ++ ':' :: rest))) m
    rw [View.opened_with, hm] at ht
    exact ⟨t, ht, (tokenHere_question s _ m).trans hread⟩
  -- the text
  obtain ⟨u, d, htext, hnext, hlexemes, hindents⟩ := @Reads.text atMark rfl i
    (congrArg List.head? hopen) t w style hw i (Nat.le_refl i) (':' :: rest) hcolon (m.advance '?')
    (by simp [Mark.advance, isBreak]; omega)
  have hopened : u.indents = i :: is := hindents.trans hopen
  have hclosed : u.closed i = u := View.closed_eq (by simp [hopened])
  -- the colon
  obtain ⟨m', hm', hlast⟩ := hnext.reads hcolon
  refine ⟨{ u.push .value with candidate := none, isKeyAllowed := true }, m'.advance ':',
    (hmark.trans htext).trans (hlast _ _ (by simp) fun s hs => ?_), ?_, rfl, ?_, hopened⟩
  · obtain ⟨t, ht, hread⟩ := hs.value_of_none rfl rfl rest m'
    rw [View.opened_with, hclosed, hm', View.opened_eq (by rw [hopened]; rfl)] at ht
    exact ⟨t, ht, (tokenHere_colon s hrest m').trans hread⟩
  · simp [Mark.advance, isBreak, hm']
  · simp [View.push, hlexemes, atMark]

/-- A key, up to behind its colon. -/
theorem Reads.key {c : Cursor} {i : Nat} {is : List Nat} {t w rest : List Char}
    {style : ScalarStyle} (hw : KeyForm i t style w) (hrest : isEnd rest.head? = true)
    (hline : AtLine (w ++ ':' :: rest) i v c) (hopen : (v.atKey i).indents = i :: is) :
    ∃ (u : View) (m : Mark), Reads v c u ⟨rest, m⟩ ∧ i < m.column ∧ u.candidate = none ∧
      u.lexemes = (v.atKey i).lexemes ++ [.key, .scalar (String.ofList t) style, .value] ∧
      u.indents = i :: is := by
  cases hw with
  | simple hw ht hlength => exact simpleKey hw ht hlength hrest hline hopen
  | marked hw => exact markedKey hw hrest (by simpa [spaces] using hline) hopen

/-! Brackets. -/

/-- A pair of brackets. -/
inductive IsBrackets : Char → Char → Lexeme → Lexeme → Prop where
  | square : IsBrackets '[' ']' .flowSequenceStart .flowSequenceEnd
  | curly : IsBrackets '\x7b' '\x7d' .flowMappingStart .flowMappingEnd

/-- A scanner between brackets, given what is to be seen behind them. -/
structure Inside (s : Scanner) (v : View) : Prop where
  candidate : s.candidate = none
  outer : s.outer = [v.candidate]
  shows : ({ s with candidate := v.candidate, outer := [], isKeyAllowed := false }).Shows v

theorem Shows.openBracket (h : s.Shows v) (hv : v.candidate = none) {x y : Char} {l l' : Lexeme}
    (hb : IsBrackets x y l l') (r : List Char) (m : Mark) :
    ∃ t : Scanner, t.Inside { (v.saved m).push l with isKeyAllowed := false } ∧
      s.tokenHere ⟨x :: r, m⟩ = .ok t ⟨r, m.advance x⟩ := by
  obtain ⟨u, hu, hsave⟩ := h.saveCandidate hv ⟨x :: r, m⟩
  have hl : l ≠ .streamEnd := by cases hb <;> simp
  have hmark : isBreak x = false := by cases hb <;> decide
  have hshows := (hu.withKeyAllowed false).push hl m (m.advance x)
  refine ⟨{ u with
      tokens := u.tokens.push ⟨l, m, m.advance x⟩
      candidate := none, outer := [u.candidate], isKeyAllowed := true }, ⟨rfl, ?_, ?_⟩, ?_⟩
  · exact congrArg (fun k => [k]) hu.candidate
  · exact { hshows with candidate := rfl, outer := rfl, isKeyAllowed := rfl }
  · have hstart : s.flowStart l ⟨x :: r, m⟩ = .ok
        { u with
          tokens := u.tokens.push ⟨l, m, m.advance x⟩
          candidate := none, outer := [u.candidate], isKeyAllowed := true } ⟨r, m.advance x⟩ := by
      simp only [flowStart, Scanner.indicator]
      rw [bind_ok hsave, bind_ok (mark_apply _), bind_ok (skip_one hmark r m), bind_ok (mark_apply _),
        hu.outer]
      rfl
    have hd : (Cursor.mk (x :: r) m).isAtDocument = false := by
      apply isAtDocument_of_head <;> cases hb <;> simp [Cursor.next]
    refine Eq.trans ?_ hstart
    simp only [tokenHere]
    rw [bind_ok (get_apply _), hd]
    cases hb <;> simp [Cursor.next]

theorem Inside.dropStale_eq (h : s.Inside v) {c : Cursor}
    (hv : ∀ k ∈ v.candidate, isStale c.mark k = false) : s.dropStale c = .ok s c := by
  obtain ⟨tokens, ready, indents, candidate, outer, isKeyAllowed⟩ := s
  obtain ⟨hcandidate, houter, -⟩ := h
  simp only at hcandidate houter
  subst hcandidate houter
  simp only [dropStale]
  rw [bind_ok (mark_apply _)]
  cases hk : v.candidate with
  | none => rfl
  | some k =>
      have hfresh := hv k hk
      simp [candidates, hfresh]

theorem Inside.flowEnd (h : s.Inside v) {x y : Char} {l l' : Lexeme} (hb : IsBrackets x y l l')
    (r : List Char) (m : Mark) :
    ∃ t : Scanner, t.Shows { v.push l' with isKeyAllowed := false } ∧
      s.tokenHere ⟨y :: r, m⟩ = .ok t ⟨r, m.advance y⟩ := by
  have hl : l' ≠ .streamEnd := by cases hb <;> simp
  have hmark : isBreak y = false := by cases hb <;> decide
  have hdrop : s.dropCandidate ⟨y :: r, m⟩ = .ok s ⟨y :: r, m⟩ := by
    simp only [dropCandidate]
    rw [h.candidate]
    rfl
  obtain ⟨t, ht, hread⟩ := h.shows.indicator hl hmark r m
  refine ⟨t, { ht with isKeyAllowed := ht.isKeyAllowed.trans h.shows.isKeyAllowed.symm }, ?_⟩
  have hend : s.flowEnd l' ⟨y :: r, m⟩ = .ok t ⟨r, m.advance y⟩ := by
    simp only [Scanner.flowEnd]
    rw [bind_ok hdrop, h.outer]
    exact hread
  have hd : (Cursor.mk (y :: r) m).isAtDocument = false := by
    apply isAtDocument_of_head <;> cases hb <;> simp [Cursor.next]
  refine Eq.trans ?_ hend
  simp only [tokenHere]
  rw [bind_ok (get_apply _), hd]
  cases hb <;> simp [Cursor.next]

theorem Inside.closeBracket (h : s.Inside v) {x y : Char} {l l' : Lexeme}
    (hb : IsBrackets x y l l') (r : List Char) {m : Mark}
    (hv : ∀ k ∈ v.candidate, isStale m k = false) :
    ∃ t : Scanner, t.Shows { v.push l' with isKeyAllowed := false } ∧
      s.isFinished = false ∧ s.advance ⟨y :: r, m⟩ = .ok t ⟨r, m.advance y⟩ := by
  have hstart : IsLineStart (y :: r) := isLineStart_cons (by cases hb <;> decide) r
  have hsettle : s.settle.Inside v := ⟨h.candidate, h.outer, { h.shows with }⟩
  have hdrop := h.dropStale_eq (c := ⟨y :: r, m⟩) hv
  have hdrop' := hsettle.dropStale_eq (c := ⟨y :: r, m⟩) hv
  have hskip : s.settle.skipToToken ((y :: r).length + 1) ⟨y :: r, m⟩ =
      .ok s.settle ⟨y :: r, m⟩ := skipToToken_spaces s.settle (y :: r).length 0 hstart m
  have hclose : s.settle.closeBlocks m (· ≤ m.column) = s.settle := by
    simp [Scanner.closeBlocks, inFlow, hsettle.outer]
  have htoken := @token_eq s.settle s.settle s.settle ⟨y :: r, m⟩ ⟨y :: r, m⟩ hskip hdrop'
  obtain ⟨t, ht, hread⟩ := hsettle.flowEnd hb r m
  refine ⟨t, ht, h.shows.isFinished_eq, ?_⟩
  simp only [advance]
  rw [bind_ok hdrop, htoken, hclose]
  exact hread

/-- A value that is nothing between brackets. -/
theorem Reads.brackets (hv : v.candidate = none) {outer : Nat} (ho : v.indents.head? = some outer)
    {x y : Char} {l l' : Lexeme} (hb : IsBrackets x y l l') (k : Nat) (main : List Char) {m : Mark}
    (hm : outer ≤ m.column) :
    ∃ (u : View) (d : Cursor), Reads v ⟨' ' :: x :: y :: '\n' :: (List.replicate k ' ' ++ main), m⟩ u d ∧
      AtLine main k u d ∧ u.lexemes = v.lexemes ++ [l, l'] ∧ u.indents = v.indents := by
  have hx : IsLineStart (x :: y :: '\n' :: (List.replicate k ' ' ++ main)) :=
    isLineStart_cons (by cases hb <;> decide) _
  have hcolumn : (m.advance ' ').column = m.column + 1 := rfl
  have hview := View.advance_closed hv ho (show outer ≤ (m.advance ' ').column by omega)
  have hadvance : ((m.advance ' ').advance x) = ⟨m.index + 2, m.line, m.column + 2⟩ := by
    cases hb <;> rfl
  have hsaved (c : KeyCandidate) (hc : c ∈ (v.saved (m.advance ' ')).candidate) :=
    View.saved_candidate ho (show outer < (m.advance ' ').column by omega) hc
  let saved : View := { (v.saved (m.advance ' ')).push l with isKeyAllowed := false }
  refine ⟨{ saved.push l' with isKeyAllowed := false },
    ⟨'\n' :: (List.replicate k ' ' ++ main), ((m.advance ' ').advance x).advance y⟩, fun s hs => ?_,
    .before fun c hc => ?_, by simp [saved, View.push, View.saved], rfl⟩
  · obtain ⟨t, ht, hopen⟩ := hs.advance_eq (finds_space hx m) (by simp [hv])
    rw [hv] at ht
    have ht : t.Shows v := by rwa [← hview]
    obtain ⟨u, hu, hfirst⟩ := ht.openBracket hv hb (y :: '\n' :: (List.replicate k ' ' ++ main))
      (m.advance ' ')
    obtain ⟨r, hr, hgoes, hlast⟩ := hu.closeBracket hb ('\n' :: (List.replicate k ' ' ++ main))
      (m := (m.advance ' ').advance x) fun c hc => by
        obtain ⟨-, hmark⟩ := hsaved c hc
        have hspace : m.advance ' ' = ⟨m.index + 1, m.line, m.column + 1⟩ := rfl
        rw [hadvance]
        simp only [isStale, hmark, hspace, longestKey, Bool.or_eq_false_iff, decide_eq_false_iff_not]
        omega
    exact ⟨r, hr, .step hs.isFinished_eq (hopen.trans hfirst) (by simp)
      (.step hgoes hlast (by simp) (.refl _ _))⟩
  · obtain ⟨hrequired, hmark⟩ := hsaved c hc
    refine ⟨hrequired, ?_⟩
    rw [hmark]
    exact Mark.line_le_past (m.advance ' ') [x, y]

end Gauge.Yaml.Scanner
