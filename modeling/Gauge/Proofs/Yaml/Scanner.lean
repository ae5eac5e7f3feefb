import Gauge.Proofs.Yaml.Style

/-!
Scanning in a block, token by token. What a scanner does next depends on what its tokens are and not
on their places, so a run is told by what is seen of the scanner between two tokens.
-/

namespace Gauge.Yaml.Scanner

open Cursor Scan Writer

/-- What is seen of a scanner in a block. -/
structure View where
  lexemes : List Lexeme
  indents : List Nat
  candidate : Option KeyCandidate
  isKeyAllowed : Bool

/-- A scanner that is in a block, and not at the end. -/
structure Shows (s : Scanner) (v : View) : Prop where
  lexemes : s.tokens.toList.map (·.lexeme) = v.lexemes
  indents : s.indents = v.indents
  candidate : s.candidate = v.candidate
  outer : s.outer = []
  isKeyAllowed : s.isKeyAllowed = v.isKeyAllowed
  goesOn : .streamEnd ∉ v.lexemes

variable {s : Scanner} {v : View}

theorem Shows.inFlow_eq (h : s.Shows v) : s.inFlow = false := by
  simp [inFlow, h.outer]

theorem Shows.size_eq (h : s.Shows v) : s.tokens.size = v.lexemes.length := by
  rw [← h.lexemes, List.length_map, Array.length_toList]

theorem Shows.isFinished_eq (h : s.Shows v) : s.isFinished = false := by
  simp only [isFinished]
  cases hb : s.tokens.back? with
  | none => rfl
  | some t =>
      have hmem : t.lexeme ∈ v.lexemes := by
        rw [← h.lexemes]
        exact List.mem_map_of_mem (Array.mem_toList_iff.2 (Array.mem_of_back? hb))
      have hne : t.lexeme ≠ .streamEnd := fun he => h.goesOn (he ▸ hmem)
      simpa using hne

/-- A view with one more lexeme. -/
def View.push (v : View) (l : Lexeme) : View := { v with lexemes := v.lexemes ++ [l] }

theorem Shows.push (h : s.Shows v) {l : Lexeme} (hl : l ≠ .streamEnd) (first last : Mark) :
    (s.push ⟨l, first, last⟩).Shows (v.push l) where
  lexemes := by simp [Scanner.push, View.push, h.lexemes]
  indents := h.indents
  candidate := h.candidate
  outer := h.outer
  isKeyAllowed := h.isKeyAllowed
  goesOn := by simpa [View.push, Ne.symm hl] using h.goesOn

theorem Shows.withCandidate (h : s.Shows v) (k : Option KeyCandidate) :
    ({ s with candidate := k }).Shows { v with candidate := k } :=
  { h with candidate := rfl }

theorem Shows.withKeyAllowed (h : s.Shows v) (b : Bool) :
    ({ s with isKeyAllowed := b }).Shows { v with isKeyAllowed := b } :=
  { h with isKeyAllowed := rfl }

/-! The steps of a run. -/

/-- Reads one token more. -/
def advance (s : Scanner) : Scan Scanner := do
  let s ← s.dropStale
  s.settle.token

/-- A part of a run that comes to no end. -/
inductive Reaches : Scanner → Cursor → Scanner → Cursor → Prop where
  | refl (s : Scanner) (c : Cursor) : Reaches s c s c
  | step {s t u : Scanner} {c d e : Cursor} (hgoes : s.isFinished = false)
      (hstep : s.advance c = .ok t d) (hless : d.rest.length < c.rest.length)
      (hmore : Reaches t d u e) : Reaches s c u e

theorem Reaches.trans {s t u : Scanner} {c d e : Cursor} (h : Reaches s c t d)
    (h' : Reaches t d u e) : Reaches s c u e := by
  induction h with
  | refl => exact h'
  | step hgoes hstep hless _ ih => exact .step hgoes hstep hless (ih h')

theorem run_of_advance {s t : Scanner} {c d : Cursor} (hgoes : s.isFinished = false)
    (hstep : s.advance c = .ok t d) (fuel : Nat) : run (fuel + 1) s c = run fuel t d := by
  rw [run, hgoes]
  simp only [advance] at hstep
  rw [bind_apply] at hstep
  cases hdrop : s.dropStale c with
  | error e c' => rw [hdrop] at hstep; cases hstep
  | ok s' c' =>
      rw [hdrop] at hstep
      simp only [Bool.false_eq_true, if_false]
      change s'.settle.token c' = .ok t d at hstep
      rw [hstep]

/-- As each token takes up characters, the run is not cut off. -/
theorem run_of_reaches {s t : Scanner} {c d : Cursor} (h : Reaches s c t d) (fuel : Nat)
    (hfuel : c.rest.length + 2 ≤ fuel) :
    ∃ fuel', d.rest.length + 2 ≤ fuel' ∧ run fuel s c = run fuel' t d := by
  induction h generalizing fuel with
  | refl => exact ⟨fuel, hfuel, rfl⟩
  | step hgoes hstep hless _ ih =>
      obtain ⟨fuel, rfl⟩ : ∃ n, fuel = n + 1 := ⟨fuel - 1, by omega⟩
      rw [run_of_advance hgoes hstep]
      exact ih fuel (by omega)

/-- Whatever shows one view reaches something that shows the other. -/
def Reads (v : View) (c : Cursor) (w : View) (d : Cursor) : Prop :=
  ∀ s : Scanner, s.Shows v → ∃ t : Scanner, t.Shows w ∧ Reaches s c t d

theorem Reads.trans {u v w : View} {c d e : Cursor} (h : Reads u c v d) (h' : Reads v d w e) :
    Reads u c w e := by
  intro s hs
  obtain ⟨t, ht, hst⟩ := h s hs
  obtain ⟨r, hr, htr⟩ := h' t ht
  exact ⟨r, hr, hst.trans htr⟩

/-! Before a token. -/

/-- What stays of a candidate. -/
def freshAt (m : Mark) (k : Option KeyCandidate) : Option KeyCandidate := k.filter (!isStale m ·)

theorem Shows.dropStale_eq (h : s.Shows v) {c : Cursor}
    (hv : ∀ k ∈ v.candidate, isStale c.mark k = true → k.isRequired = false) :
    s.dropStale c = .ok { s with candidate := freshAt c.mark v.candidate } c := by
  have hnone : (s.candidates.reverse.find? fun k => isStale c.mark k && k.isRequired) = none := by
    rw [List.find?_eq_none]
    intro k hk
    have hmem : k ∈ v.candidate := by
      simpa [candidates, h.outer, h.candidate, eq_comm] using hk
    cases hs : isStale c.mark k with
    | false => simp
    | true => simp [hv k hmem hs]
  simp only [dropStale]
  rw [bind_ok (mark_apply _)]
  simp only [hnone, h.outer, h.candidate]
  rfl

theorem closeFrom_eq (m : Mark) (stays : Nat → Bool) (indents : List Nat) (tokens : Array Token) :
    closeFrom m stays indents tokens =
      (indents.dropWhile (!stays ·),
        tokens ++ Array.replicate (indents.takeWhile (!stays ·)).length ⟨.blockEnd, m, m⟩) := by
  induction indents generalizing tokens with
  | nil => simp [closeFrom]
  | cons i rest ih =>
      simp only [closeFrom]
      cases hi : stays i with
      | true => simp [hi]
      | false =>
          simp [ih, hi, Array.replicate_succ']

/-- What is seen once the collections are closed that are indented beyond a column. -/
def View.closed (v : View) (column : Nat) : View :=
  { v with
    lexemes := v.lexemes ++
      List.replicate (v.indents.takeWhile fun i => !decide (i ≤ column)).length .blockEnd
    indents := v.indents.dropWhile fun i => !decide (i ≤ column) }

theorem Shows.closeBlocks (h : s.Shows v) (m : Mark) :
    (s.closeBlocks m (· ≤ m.column)).Shows (v.closed m.column) := by
  simp only [Scanner.closeBlocks]
  rw [h.inFlow_eq, closeFrom_eq, h.indents]
  exact
    { h with
      lexemes := by simp [View.closed, h.lexemes]
      indents := rfl
      goesOn := by simpa [View.closed] using h.goesOn }

/-- What white space leads to. -/
def Finds (allowed : Bool) (c : Cursor) (allowed' : Bool) (d : Cursor) : Prop :=
  ∀ s : Scanner, s.outer = [] → s.isKeyAllowed = allowed →
    s.skipToToken (c.rest.length + 1) c = .ok { s with isKeyAllowed := allowed' } d

theorem skipToToken_spaces (s : Scanner) (fuel n : Nat) {rest : List Char}
    (hrest : IsLineStart rest) (m : Mark) :
    s.skipToToken (fuel + 1) ⟨List.replicate n ' ' ++ rest, m⟩ =
      .ok s ⟨rest, m.past (List.replicate n ' ')⟩ := by
  have hmark : (Cursor.mk (List.replicate n ' ' ++ rest) m).next ≠ some '\ufeff' := by
    cases n with
    | zero =>
        intro hm
        exact (hrest _ hm).2.2.2 rfl
    | succ n => simp [Cursor.next, List.replicate_succ]
  have hskip : skipWhile (fun x => x == ' ' || ((s.inFlow || !s.isKeyAllowed) && x == '\t'))
      ⟨List.replicate n ' ' ++ rest, m⟩ = .ok () ⟨rest, m.past (List.replicate n ' ')⟩ := by
    refine skipWhile_eq (by simp) (fun c hc => ?_) (by simp [isBreak])
    obtain ⟨hblank, -⟩ := hrest c hc
    simp only [isBlank, Bool.or_eq_false_iff] at hblank
    simp [hblank]
  have hhash : rest.head? ≠ some '#' := fun hh => (hrest _ hh).2.2.1 rfl
  have hbreak : rest.head?.any isBreak = false := by
    cases rest with
    | nil => rfl
    | cons c rest => simpa using (hrest c rfl).2.1
  rw [skipToToken]
  rw [bind_ok (get_apply _), if_neg (by simp [hmark])]
  simp only []
  rw [bind_ok hskip, bind_ok (next_apply _), if_neg (by simpa using hhash), bind_ok (next_apply _),
    if_neg (by simp [hbreak])]
  rfl

/-- A line is passed to the first thing on the next. -/
theorem skipToToken_line (hs : s.outer = []) (fuel n : Nat) {rest : List Char}
    (hrest : IsLineStart rest) (m : Mark) :
    s.skipToToken (fuel + 2) ⟨'\n' :: (List.replicate n ' ' ++ rest), m⟩ =
      .ok { s with isKeyAllowed := true } ⟨rest, m.past ('\n' :: List.replicate n ' ')⟩ := by
  have hflow : s.inFlow = false := by simp [inFlow, hs]
  have hskip : skipWhile (fun x => x == ' ' || ((s.inFlow || !s.isKeyAllowed) && x == '\t'))
      ⟨'\n' :: (List.replicate n ' ' ++ rest), m⟩ =
      .ok () ⟨'\n' :: (List.replicate n ' ' ++ rest), m⟩ :=
    @skipWhile_eq _ [] _ m (by simp) (by simp) (by simp)
  have hbreak : lineBreak ⟨'\n' :: (List.replicate n ' ' ++ rest), m⟩ =
      .ok ['\n'] ⟨List.replicate n ' ' ++ rest, m.advance '\n'⟩ :=
    lineBreak_eq (by decide) (by decide) (by decide)
  rw [skipToToken]
  rw [bind_ok (get_apply _), if_neg (by simp [Cursor.next])]
  simp only []
  rw [bind_ok hskip, bind_ok (next_apply _), if_neg (by simp), bind_ok (next_apply _),
    if_pos (by simp [isBreak]), bind_ok hbreak, skipToToken_spaces _ fuel n hrest, hflow]
  simp

theorem finds_here {allowed : Bool} {rest : List Char} (hrest : IsLineStart rest) (m : Mark) :
    Finds allowed ⟨rest, m⟩ allowed ⟨rest, m⟩ := by
  rintro s - rfl
  exact skipToToken_spaces s rest.length 0 hrest m

theorem finds_space {allowed : Bool} {rest : List Char} (hrest : IsLineStart rest) (m : Mark) :
    Finds allowed ⟨' ' :: rest, m⟩ allowed ⟨rest, m.advance ' '⟩ := by
  rintro s - rfl
  exact skipToToken_spaces s _ 1 hrest m

theorem finds_line {allowed : Bool} {rest : List Char} (hrest : IsLineStart rest) (n : Nat)
    (m : Mark) :
    Finds allowed ⟨'\n' :: (List.replicate n ' ' ++ rest), m⟩ true
      ⟨rest, m.past ('\n' :: List.replicate n ' ')⟩ := by
  intro s hs _
  exact skipToToken_line hs _ n hrest m

/-! A token. -/

/-- What is done with the token at hand. -/
def tokenHere (s : Scanner) : Scan Scanner := do
  let c ← get
  let marks := s.inFlow || isEnd c.second
  match c.next with
  | none => s.streamEnd
  | some x =>
    if c.mark.column == 0 && x == '%' then s.directiveToken
    else if c.isAtDocument then s.documentToken (if x == '-' then .documentStart else .documentEnd)
    else if x == '[' then s.flowStart .flowSequenceStart
    else if x == '\x7b' then s.flowStart .flowMappingStart
    else if x == ']' then s.flowEnd .flowSequenceEnd
    else if x == '\x7d' then s.flowEnd .flowMappingEnd
    else if x == ',' then s.flowEntry
    else if x == '-' && isEnd c.second then s.blockEntry
    else if x == '?' && marks then s.key
    else if x == ':' && marks then s.value
    else if x == '*' then s.simple do return .alias (← anchorName .alias)
    else if x == '&' then s.simple do return .anchor (← anchorName .anchor)
    else if x == '!' then s.simple (tag s.inFlow)
    else if x == '|' && !s.inFlow then s.blockScalar false
    else if x == '>' && !s.inFlow then s.blockScalar true
    else if x == '\'' then s.quotedScalar true
    else if x == '"' then s.quotedScalar false
    else if beginsPlain s.inFlow x c.second then s.plainScalar
    else fail .anyToken c.mark .noToken

theorem token_eq {t u : Scanner} {c d : Cursor}
    (hskip : s.skipToToken (c.rest.length + 1) c = .ok t d) (hdrop : t.dropStale d = .ok u d) :
    s.token c = (u.closeBlocks d.mark (· ≤ d.mark.column)).tokenHere d := by
  simp only [token]
  rw [bind_ok (size_apply _), bind_ok hskip, bind_ok hdrop, bind_ok (get_apply _)]
  rfl

/-- A token is read where white space leads to, once candidates that are too far back are given up and
collections closed. -/
theorem Shows.advance_eq (hs : s.Shows v) {c d : Cursor} {allowed : Bool}
    (hfind : Finds v.isKeyAllowed c allowed d)
    (hv : ∀ k ∈ v.candidate, (isStale c.mark k = true → isStale d.mark k = true) ∧
      (isStale d.mark k = true → k.isRequired = false)) :
    ∃ t : Scanner,
      t.Shows { (v.closed d.mark.column) with
        candidate := freshAt d.mark v.candidate, isKeyAllowed := allowed } ∧
      s.advance c = t.tokenHere d := by
  have hdrop := hs.dropStale_eq fun k hk h => (hv k hk).2 ((hv k hk).1 h)
  have hfresh : freshAt d.mark (freshAt c.mark v.candidate) = freshAt d.mark v.candidate := by
    cases hk : v.candidate with
    | none => rfl
    | some k =>
        cases hstale : isStale c.mark k with
        | false => simp [freshAt, Option.filter, hstale]
        | true => simp [freshAt, Option.filter, hstale, (hv k hk).1 hstale]
  let s₁ : Scanner := { s with candidate := freshAt c.mark v.candidate }
  have hs₁ : s₁.settle.Shows { v with candidate := freshAt c.mark v.candidate } :=
    { hs.withCandidate (freshAt c.mark v.candidate) with }
  have hskip := hfind s₁.settle hs₁.outer hs₁.isKeyAllowed
  have hs₂ := hs₁.withKeyAllowed allowed
  have hdrop₂ := hs₂.dropStale_eq (c := d) fun k hk h =>
    (hv k (Option.filter_eq_some_iff.1 hk).1).2 h
  have htoken := token_eq hskip hdrop₂
  have hs₃ := (hs₂.withCandidate (freshAt d.mark (freshAt c.mark v.candidate))).closeBlocks d.mark
  rw [hfresh] at htoken hs₃
  refine ⟨_, hs₃, ?_⟩
  simp only [advance]
  rw [bind_ok hdrop, htoken]

theorem Reads.of_token {w : View} {c d e : Cursor} {allowed : Bool}
    (hfind : Finds v.isKeyAllowed c allowed d)
    (hv : ∀ k ∈ v.candidate, (isStale c.mark k = true → isStale d.mark k = true) ∧
      (isStale d.mark k = true → k.isRequired = false))
    (hless : e.rest.length < c.rest.length)
    (hhere : ∀ s : Scanner,
      s.Shows { (v.closed d.mark.column) with
        candidate := freshAt d.mark v.candidate, isKeyAllowed := allowed } →
      ∃ t : Scanner, t.Shows w ∧ s.tokenHere d = .ok t e) :
    Reads v c w e := by
  intro s hs
  obtain ⟨u, hu, hadvance⟩ := hs.advance_eq hfind hv
  obtain ⟨t, ht, hread⟩ := hhere u hu
  exact ⟨t, ht, .step hs.isFinished_eq (hadvance.trans hread) hless (.refl t e)⟩

/-- A cursor between two lines, of which the other begins with `main` at a column. Nothing before it can
be a key any more. -/
inductive AtLine (main : List Char) (column : Nat) : View → Cursor → Prop where
  | here {v : View} {m : Mark} (hm : m.column = column) (ha : v.isKeyAllowed = true)
      (hv : ∀ k ∈ v.candidate, k.isRequired = false ∧ k.mark.line < m.line) :
      AtLine main column v ⟨main, m⟩
  | before {v : View} {m : Mark}
      (hv : ∀ k ∈ v.candidate, k.isRequired = false ∧ k.mark.line ≤ m.line) :
      AtLine main column v ⟨'\n' :: (List.replicate column ' ' ++ main), m⟩

theorem freshAt_eq_none {m : Mark} {k : Option KeyCandidate} (h : ∀ x ∈ k, x.mark.line < m.line) :
    freshAt m k = none := by
  cases k with
  | none => rfl
  | some k => simp [freshAt, Option.filter, isStale, h k rfl]

/-- Where no key is waited for any more. -/
theorem Shows.advance_of_givenUp (hs : s.Shows v) {c d : Cursor} {allowed : Bool}
    (hfind : Finds v.isKeyAllowed c allowed d)
    (hv : ∀ k ∈ v.candidate, k.isRequired = false ∧ k.mark.line < d.mark.line) :
    ∃ t : Scanner,
      t.Shows { (v.closed d.mark.column) with candidate := none, isKeyAllowed := allowed } ∧
      s.advance c = t.tokenHere d := by
  have := hs.advance_eq hfind fun k hk =>
    ⟨fun _ => by simp [isStale, (hv k hk).2], fun _ => (hv k hk).1⟩
  rwa [freshAt_eq_none fun k hk => (hv k hk).2] at this

theorem Reads.of_givenUp {w : View} {c d e : Cursor} {allowed : Bool}
    (hfind : Finds v.isKeyAllowed c allowed d)
    (hv : ∀ k ∈ v.candidate, k.isRequired = false ∧ k.mark.line < d.mark.line)
    (hless : e.rest.length < c.rest.length)
    (hhere : ∀ s : Scanner,
      s.Shows { (v.closed d.mark.column) with candidate := none, isKeyAllowed := allowed } →
      ∃ t : Scanner, t.Shows w ∧ s.tokenHere d = .ok t e) :
    Reads v c w e := by
  intro s hs
  obtain ⟨u, hu, hadvance⟩ := hs.advance_of_givenUp hfind hv
  obtain ⟨t, ht, hread⟩ := hhere u hu
  exact ⟨t, ht, .step hs.isFinished_eq (hadvance.trans hread) hless (.refl t e)⟩

/-- The first token of a line is read where the line begins. -/
theorem AtLine.advance {main : List Char} {column : Nat} {c : Cursor} (h : AtLine main column v c)
    (hmain : IsLineStart main) :
    ∃ m : Mark, m.column = column ∧ main.length ≤ c.rest.length ∧
      ∀ s : Scanner, s.Shows v → ∃ t : Scanner,
        t.Shows { (v.closed column) with candidate := none, isKeyAllowed := true } ∧
        s.advance c = t.tokenHere ⟨main, m⟩ := by
  cases h with
  | @here m hm ha hv =>
      have hfind : Finds v.isKeyAllowed ⟨main, m⟩ true ⟨main, m⟩ := by
        rw [ha]
        exact finds_here hmain m
      subst hm
      exact ⟨m, rfl, Nat.le_refl _, fun s hs => hs.advance_of_givenUp hfind hv⟩
  | @before m hv =>
      have hcolumn : (m.past ('\n' :: List.replicate column ' ')).column = column :=
        @column_past_breaks m '\n' [] (by simp [isBreak]) column
      have hline : (m.past ('\n' :: List.replicate column ' ')).line = m.line + 1 := by
        rw [Mark.past_cons, Mark.past_of_one_line (by simp [isBreak])]
        rfl
      refine ⟨m.past ('\n' :: List.replicate column ' '), hcolumn, by simp; omega, fun s hs => ?_⟩
      have := hs.advance_of_givenUp (finds_line hmain column m) fun k hk =>
        ⟨(hv k hk).1, by have := (hv k hk).2; rw [hline]; omega⟩
      rwa [hcolumn] at this

theorem AtLine.reads {main : List Char} {column : Nat} {c : Cursor} (h : AtLine main column v c)
    (hmain : IsLineStart main) :
    ∃ m : Mark, m.column = column ∧ ∀ (w : View) (e : Cursor), e.rest.length < main.length →
      (∀ s : Scanner, s.Shows { (v.closed column) with candidate := none, isKeyAllowed := true } →
        ∃ t : Scanner, t.Shows w ∧ s.tokenHere ⟨main, m⟩ = .ok t e) → Reads v c w e := by
  obtain ⟨m, hm, hlength, hadvance⟩ := h.advance hmain
  refine ⟨m, hm, fun w e hless hhere s hs => ?_⟩
  obtain ⟨u, hu, hstep⟩ := hadvance s hs
  obtain ⟨t, ht, hread⟩ := hhere u hu
  exact ⟨t, ht, .step hs.isFinished_eq (hstep.trans hread) (by omega) (.refl t e)⟩

end Gauge.Yaml.Scanner
