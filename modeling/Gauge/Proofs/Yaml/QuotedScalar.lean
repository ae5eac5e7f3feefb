import Gauge.Proofs.Yaml.Escape

/-!
Text between quotes reads as itself. Between single quotes only the quote is doubled, and the breaks
are followed by indentation; between double quotes everything is on one line.
-/

namespace Gauge.Yaml

open Cursor Writer

namespace Scan

/-- The quote that a scalar stands between. -/
def quoteOf (single : Bool) : Char := if single then '\'' else '"'

/-- A character as it is written between quotes. -/
def quotedCharacter (single : Bool) (c : Char) : List Char :=
  if single then (if c == '\'' then ['\'', '\''] else [c]) else doubleQuotedCharacter c

/-- What a part without white space ends before: white space, or the quote at the end. -/
inductive StopsQuoted (single : Bool) : List Char → Prop where
  | white {c : Char} {rest : List Char} (h : isBlank c = true ∨ isBreak c = true) :
      StopsQuoted single (c :: rest)
  | quote {rest : List Char} (h : single = true → rest.head? ≠ some '\'') :
      StopsQuoted single (quoteOf single :: rest)

theorem quotedRun_stop {single : Bool} {rest : List Char} (h : StopsQuoted single rest)
    (since : Mark) (fuel : Nat) (m : Mark) :
    quotedRun single since fuel ⟨rest, m⟩ = .ok ([], false) ⟨rest, m⟩ := by
  cases fuel with
  | zero => rfl
  | succ fuel =>
      rw [quotedRun]
      simp only []
      rw [bind_ok (get_apply _)]
      cases h with
      | white h => simp [Cursor.next, h]
      | quote h =>
          cases single with
          | true => simp [Cursor.next, Cursor.second, quoteOf, isBlank, isBreak, ← List.head?_eq_getElem?, h]
          | false => simp [Cursor.next, quoteOf, isBlank, isBreak]

/-- What is read of a part from a character on. -/
def quotedOnward (single : Bool) (since : Mark) (fuel : Nat) (c : Char) : Scan (List Char × Bool) := do
  let (run, isEscaped) ← quotedRun single since fuel
  return (c :: run, isEscaped)

theorem quotedRun_single (since : Mark) (fuel : Nat) {c : Char} (ht : isBlank c = false)
    (hb : isBreak c = false) (rest : List Char) (m : Mark) :
    quotedRun true since (fuel + 1) ⟨quotedCharacter true c ++ rest, m⟩ =
      quotedOnward true since fuel c ⟨rest, m.past (quotedCharacter true c)⟩ := by
  rw [quotedRun]
  simp only []
  rw [bind_ok (get_apply _)]
  by_cases hc : c = '\''
  · subst hc
    rfl
  · simp only [quotedCharacter, if_true, beq_iff_eq, hc, if_false, Cursor.next, List.singleton_append,
      List.head?_cons, ht, hb, Bool.or_self, Bool.false_eq_true, Bool.true_and, Bool.not_true,
      Bool.false_and]
    rw [bind_ok (skip_one hb rest m)]
    rfl

theorem quotedRun_double (since : Mark) (fuel : Nat) {c : Char} (hs : c ≠ ' ') (rest : List Char)
    (m : Mark) :
    quotedRun false since (fuel + 1) ⟨quotedCharacter false c ++ rest, m⟩ =
      quotedOnward false since fuel c ⟨rest, m.past (quotedCharacter false c)⟩ := by
  rw [quotedRun]
  simp only []
  rw [bind_ok (get_apply _)]
  rw [quotedCharacter, doubleQuotedCharacter]
  rw [if_neg (by decide)]
  split
  · obtain ⟨x, s, hx⟩ := List.exists_cons_of_ne_nil (escape_ne_nil c)
    have hb : isBreak x = false := isBreak_of_mem_escape (hx ▸ List.mem_cons_self)
    have hsecond : (Cursor.mk ('\\' :: Writer.escape c ++ rest) m).second.any isBreak = false := by
      simp [Cursor.second, hx, hb]
    have hescape := escape_eq since c rest m
    simp only [List.cons_append, Cursor.next, List.head?_cons] at hsecond hescape ⊢
    rw [if_neg (by decide), if_neg (by decide), if_neg (by decide), if_pos (by decide),
      if_neg (by simp [hsecond]), bind_ok hescape]
    rfl
  · rename_i hraw
    simp only [Bool.or_eq_true, Bool.not_eq_true', beq_iff_eq, not_or, Bool.not_eq_false] at hraw
    obtain ⟨⟨⟨hprint, hbreak⟩, hquote⟩, hslash⟩ := hraw
    have hblank := isBlank_of_isPrintable hprint hs
    simp [Cursor.next, hblank, hbreak, hquote, hslash]
    rw [bind_ok (skip_one (by simpa using hbreak) rest m)]
    rfl

/-- Characters of a part without white space. -/
def IsRunCharacter (single : Bool) (c : Char) : Prop :=
  c ≠ ' ' ∧ (single = true → isBlank c = false ∧ isBreak c = false)

theorem quotedRun_character {single : Bool} (since : Mark) (fuel : Nat) {c : Char}
    (hc : IsRunCharacter single c) (rest : List Char) (m : Mark) :
    quotedRun single since (fuel + 1) ⟨quotedCharacter single c ++ rest, m⟩ =
      quotedOnward single since fuel c ⟨rest, m.past (quotedCharacter single c)⟩ := by
  cases single with
  | true => exact quotedRun_single since fuel (hc.2 rfl).1 (hc.2 rfl).2 rest m
  | false => exact quotedRun_double since fuel hc.1 rest m

theorem quotedRun_eq {single : Bool} (since : Mark) {w rest : List Char}
    (hw : ∀ c ∈ w, IsRunCharacter single c) (hrest : StopsQuoted single rest) {fuel : Nat}
    (hfuel : w.length ≤ fuel) (m : Mark) :
    quotedRun single since fuel ⟨w.flatMap (quotedCharacter single) ++ rest, m⟩ =
      .ok (w, false) ⟨rest, m.past (w.flatMap (quotedCharacter single))⟩ := by
  induction w generalizing fuel m with
  | nil => exact quotedRun_stop hrest since fuel m
  | cons c w ih =>
      obtain ⟨fuel, rfl⟩ : ∃ n, fuel = n + 1 := ⟨fuel - 1, by simp at hfuel; omega⟩
      rw [List.flatMap_cons, List.append_assoc,
        quotedRun_character since fuel (hw c List.mem_cons_self), quotedOnward,
        bind_ok (ih (fun x hx => hw x (List.mem_cons_of_mem c hx)) (by simpa using hfuel) _),
        Mark.past_append]
      rfl

theorem length_quotedCharacter_pos (single : Bool) (c : Char) :
    1 ≤ (quotedCharacter single c).length := by
  simp only [quotedCharacter, doubleQuotedCharacter]
  split <;> split <;> simp

theorem length_le_flatMap_quotedCharacter (single : Bool) (w : List Char) :
    w.length ≤ (w.flatMap (quotedCharacter single)).length := by
  induction w with
  | nil => simp
  | cons c w ih =>
      have := length_quotedCharacter_pos single c
      simp only [List.flatMap_cons, List.length_append, List.length_cons]
      omega

/-- The last part is followed by the quote. -/
theorem quotedFrom_quote {single : Bool} (since : Mark) (fuel : Nat) {w rest : List Char}
    (hw : ∀ c ∈ w, IsRunCharacter single c) (hrest : single = true → rest.head? ≠ some '\'')
    {m : Mark} (hm : m.column ≠ 0) :
    quotedFrom single since (fuel + 1)
        ⟨w.flatMap (quotedCharacter single) ++ quoteOf single :: rest, m⟩ =
      .ok w ⟨rest, m.past (w.flatMap (quotedCharacter single) ++ [quoteOf single])⟩ := by
  have hlen := length_le_flatMap_quotedCharacter single w
  have hrun := quotedRun_eq since hw (.quote hrest)
    (show w.length ≤ (w.flatMap (quotedCharacter single) ++ quoteOf single :: rest).length + 1 by
      rw [List.length_append]; omega) m
  have hmark : isBreak (quoteOf single) = false := by cases single <;> decide
  rw [quotedFrom, bind_ok (get_apply _), isAtDocument_of_column hm, if_neg (by decide),
    if_neg (by simp), bind_ok (size_apply _), bind_ok hrun]
  simp only []
  rw [bind_ok (next_apply _), if_pos (by simp [quoteOf]), bind_ok (skip_one hmark _ _), Mark.past_append]
  rfl

/-- Another part is followed by white space, which is folded. -/
theorem quotedFrom_gap {single : Bool} (since : Mark) (fuel : Nat) {w white rest : List Char}
    (hw : ∀ c ∈ w, IsRunCharacter single c) (hwhite : ∀ c ∈ white, IsWhite c) (hne : white ≠ [])
    (hrest : Solid rest) {m : Mark} (hm : m.column ≠ 0) :
    quotedFrom single since (fuel + 1)
        ⟨w.flatMap (quotedCharacter single) ++ (white ++ rest), m⟩ =
      (do return w ++ (white.foldl Gap.take .none).text ++ (← quotedFrom single since fuel) :
        Scan (List Char)) ⟨rest, m.past (w.flatMap (quotedCharacter single) ++ white)⟩ := by
  have hlen := length_le_flatMap_quotedCharacter single w
  obtain ⟨c, white, rfl⟩ := List.exists_cons_of_ne_nil hne
  have hc : isBlank c = true ∨ isBreak c = true := by
    rcases hwhite c List.mem_cons_self with rfl | rfl | rfl | rfl <;> decide
  have hstops : StopsQuoted single (c :: (white ++ rest)) := .white hc
  have hrun := quotedRun_eq since hw hstops
    (show w.length ≤ (w.flatMap (quotedCharacter single) ++ c :: (white ++ rest)).length + 1 by
      rw [List.length_append]; omega) m
  have hquote : c ≠ quoteOf single := by
    rintro rfl
    cases single <;> exact absurd hc (by decide)
  rw [quotedFrom, bind_ok (get_apply _), isAtDocument_of_column hm, if_neg (by decide),
    if_neg (by simp), bind_ok (size_apply _), List.cons_append, bind_ok hrun]
  simp only []
  rw [bind_ok (next_apply _), if_neg (by simpa [quoteOf] using hquote)]
  have hgap := gap_eq 0 since hwhite hrest .none (m.past (w.flatMap (quotedCharacter single)))
  rw [List.cons_append] at hgap
  simp only [Bool.false_eq_true, if_false]
  rw [bind_ok hgap, Mark.past_append]

theorem solid_quotedCharacter {single : Bool} {c : Char} (hc : IsRunCharacter single c)
    (rest : List Char) : Solid (quotedCharacter single c ++ rest) := by
  intro x hx
  cases single with
  | true =>
      obtain ⟨hblank, hbreak⟩ := hc.2 rfl
      rw [quotedCharacter] at hx
      rw [if_pos rfl] at hx
      split at hx
      · obtain rfl : '\'' = x := by simpa using hx
        decide
      · obtain rfl : c = x := by simpa using hx
        exact ⟨hblank, hbreak⟩
  | false =>
      simp only [quotedCharacter, doubleQuotedCharacter] at hx
      rw [if_neg (by decide)] at hx
      split at hx
      · obtain rfl : '\\' = x := by simpa using hx
        decide
      · rename_i hraw
        simp only [Bool.or_eq_true, Bool.not_eq_true', beq_iff_eq, not_or, Bool.not_eq_false] at hraw
        obtain rfl : c = x := by simpa using hx
        exact ⟨isBlank_of_isPrintable hraw.1.1.1 hc.1, by simpa using hraw.1.1.2⟩

theorem solid_quoted {single : Bool} {t rest : List Char}
    (ht : ∀ c ∈ t.head?, IsRunCharacter single c) :
    Solid (t.flatMap (quotedCharacter single) ++ quoteOf single :: rest) := by
  cases t with
  | nil =>
      intro x hx
      obtain rfl : quoteOf single = x := by simpa using hx
      cases single <;> decide
  | cons c t =>
      rw [List.flatMap_cons, List.append_assoc]
      exact solid_quotedCharacter (ht c rfl) _

theorem isBreak_of_mem_doubleQuoted {t : List Char} {x : Char}
    (h : x ∈ t.flatMap (quotedCharacter false)) : isBreak x = false := by
  obtain ⟨c, -, hx⟩ := List.mem_flatMap.1 h
  simp only [quotedCharacter, doubleQuotedCharacter] at hx
  rw [if_neg (by decide)] at hx
  split at hx
  · rcases List.mem_cons.1 hx with rfl | hx
    · decide
    · exact isBreak_of_mem_escape hx
  · rename_i hraw
    simp only [Bool.or_eq_true, Bool.not_eq_true', beq_iff_eq, not_or, Bool.not_eq_false] at hraw
    rw [List.mem_singleton.1 hx]
    simpa using hraw.1.1.2

theorem flatMap_spaces (single : Bool) (n : Nat) :
    (List.replicate n ' ').flatMap (quotedCharacter single) = List.replicate n ' ' := by
  induction n with
  | zero => rfl
  | succ n ih =>
      rw [List.replicate_succ, List.flatMap_cons, ih]
      cases single <;> rfl

theorem text_spaces (n : Nat) :
    ((List.replicate n ' ').foldl Gap.take .none).text = List.replicate n ' ' := by
  rw [Gap.foldl_take_spaces rfl]
  rfl

/-- By induction on the words of the text. -/
theorem quotedFrom_double (since : Mark) {t : List Char} (rest : List Char) {m : Mark}
    (hm : m.column ≠ 0) {fuel : Nat} (hfuel : t.length < fuel) :
    quotedFrom false since fuel ⟨t.flatMap (quotedCharacter false) ++ quoteOf false :: rest, m⟩ =
      .ok t ⟨rest, m.past (t.flatMap (quotedCharacter false) ++ [quoteOf false])⟩ := by
  have hrun {w : List Char} (hw : ∀ c ∈ w, c ≠ ' ') : ∀ c ∈ w, IsRunCharacter false c :=
    fun c hc => ⟨hw c hc, fun h => absurd h (by decide)⟩
  obtain ⟨fuel, rfl⟩ : ∃ n, fuel = n + 1 := ⟨fuel - 1, by omega⟩
  induction worded t generalizing m fuel with
  | last hw => exact quotedFrom_quote since fuel (hrun hw) (by simp) hm
  | @more w u n hw hu _ ih =>
      have hsolid := @solid_quoted false u rest fun c hc =>
        ⟨fun h => hu (h ▸ hc), fun h => absurd h (by decide)⟩
      have hwhite : ∀ c ∈ List.replicate (n + 1) ' ', IsWhite c := fun c hc =>
        .inl (List.eq_of_mem_replicate hc)
      have hm' : (m.past (w.flatMap (quotedCharacter false) ++ List.replicate (n + 1) ' ')).column ≠ 0 := by
        rw [Mark.past_of_one_line]
        · simp only
          omega
        · intro c hc
          rcases List.mem_append.1 hc with hc | hc
          · exact isBreak_of_mem_doubleQuoted hc
          · rw [List.eq_of_mem_replicate hc]
            rfl
      simp only [List.length_append, List.length_replicate] at hfuel
      obtain ⟨fuel, rfl⟩ : ∃ n, fuel = n + 1 := ⟨fuel - 1, by omega⟩
      have ih := ih hm' fuel (by omega)
      rw [List.flatMap_append, List.flatMap_append, flatMap_spaces, List.append_assoc, List.append_assoc,
        quotedFrom_gap since (fuel + 1) (hrun hw) hwhite (by simp) hsolid hm, bind_ok ih, text_spaces,
        ← Mark.past_append]
      simp

/-! Single quotes. -/

theorem hasNeighbours_append {p : Char → Char → Bool} {s t : List Char}
    (h : hasNeighbours p (s ++ t) = false) : hasNeighbours p t = false := by
  induction s with
  | nil => exact h
  | cons a s ih =>
      apply ih
      rw [List.cons_append] at h
      generalize s ++ t = r at h
      cases r with
      | nil => rfl
      | cons b r =>
          simp only [hasNeighbours, Bool.or_eq_false_iff] at h
          exact h.2

theorem hasNeighbours_middle {p : Char → Char → Bool} {s t : List Char} {a b : Char}
    (h : hasNeighbours p (s ++ a :: b :: t) = false) : p a b = false := by
  have := hasNeighbours_append h
  simp only [hasNeighbours, Bool.or_eq_false_iff] at this
  exact this.1

/-- Text whose white space is folded to itself: no line feed, and no space beside a break. -/
structure IsFoldable (t : List Char) : Prop where
  printable : ∀ c ∈ t, isPrintable c = true
  noLineFeed : '\n' ∉ t
  before : hasSpaceBeforeBreak t = false
  after : hasSpaceAfterBreak t = false

theorem IsFoldable.of_append {s t : List Char} (h : IsFoldable (s ++ t)) : IsFoldable t :=
  ⟨fun c hc => h.printable c (List.mem_append_right s hc),
    fun hc => h.noLineFeed (List.mem_append_right s hc), hasNeighbours_append h.before,
    hasNeighbours_append h.after⟩

variable {indent : Nat}

theorem singleQuotedFrom_run {w : List Char} (hw : ∀ c ∈ w, isBreak c = false) (t : List Char) :
    singleQuotedFrom indent false (w ++ t) =
      w.flatMap (quotedCharacter true) ++ singleQuotedFrom indent false t := by
  induction w with
  | nil => rfl
  | cons c w ih =>
      have hc := hw c List.mem_cons_self
      rw [List.cons_append, singleQuotedFrom, if_neg (by simp [hc]),
        ih fun x hx => hw x (List.mem_cons_of_mem c hx)]
      simp [quotedCharacter]

theorem singleQuotedFrom_afterBreak {t : List Char} (ht : ∀ c ∈ t.head?, isBreak c = false) :
    singleQuotedFrom indent true t = spaces indent ++ singleQuotedFrom indent false t := by
  cases t with
  | nil => simp [singleQuotedFrom]
  | cons c t => simp [singleQuotedFrom, ht c rfl]

theorem singleQuotedFrom_breaks {b : Char} {breaks : List Char}
    (hb : ∀ c ∈ b :: breaks, isBreak c = true) {t : List Char}
    (ht : ∀ c ∈ t.head?, isBreak c = false) (isAfterBreak : Bool) :
    singleQuotedFrom indent isAfterBreak (b :: breaks ++ t) =
      b :: breaks ++ (spaces indent ++ singleQuotedFrom indent false t) := by
  induction breaks generalizing b isAfterBreak with
  | nil =>
      rw [List.cons_append, singleQuotedFrom, if_pos (hb b List.mem_cons_self), List.nil_append,
        singleQuotedFrom_afterBreak ht]
      rfl
  | cons c breaks ih =>
      rw [List.cons_append, singleQuotedFrom, if_pos (hb b List.mem_cons_self),
        ih (fun x hx => hb x (List.mem_cons_of_mem b hx))]
      rfl

theorem isRunCharacter_of_isPrintable {c : Char} (hp : isPrintable c = true) (hs : c ≠ ' ')
    (hb : isBreak c = false) : IsRunCharacter true c :=
  ⟨hs, fun _ => ⟨isBlank_of_isPrintable hp hs, hb⟩⟩

theorem IsRunCharacter.isBreak_eq {c : Char} (h : IsRunCharacter true c) : isBreak c = false :=
  (h.2 rfl).2

theorem isBreak_of_mem_run {w : List Char} (hw : ∀ c ∈ w, IsRunCharacter true c) {x : Char}
    (hx : x ∈ w.flatMap (quotedCharacter true)) : isBreak x = false := by
  obtain ⟨c, hc, hx⟩ := List.mem_flatMap.1 hx
  rw [quotedCharacter] at hx
  rw [if_pos rfl] at hx
  split at hx
  · obtain rfl : x = '\'' := by simpa using hx
    decide
  · rw [List.mem_singleton.1 hx]
    exact (hw c hc).isBreak_eq

/-- The white space `g` before the text `u` is written as `white`, which is folded to `g`. -/
structure FoldsTo (indent : Nat) (white g u : List Char) : Prop where
  ne_nil : g ≠ []
  isWhite : ∀ c ∈ white, IsWhite c
  white_ne_nil : white ≠ []
  text : (white.foldl Gap.take .none).text = g
  written : singleQuotedFrom indent false (g ++ u) = white ++ singleQuotedFrom indent false u
  column : ∀ m : Mark, m.column ≠ 0 → (m.past white).column ≠ 0

theorem foldsTo_spaces (n : Nat) (u : List Char) :
    FoldsTo indent (List.replicate (n + 1) ' ') (List.replicate (n + 1) ' ') u where
  ne_nil := by simp
  isWhite := fun c hc => .inl (List.eq_of_mem_replicate hc)
  white_ne_nil := by simp
  text := text_spaces (n + 1)
  written := by rw [singleQuotedFrom_run (by simp [isBreak]), flatMap_spaces]
  column := by
    intro m hm
    rw [Mark.past_of_one_line (by simp [isBreak])]
    simp only
    omega

theorem foldsTo_breaks (hi : indent ≠ 0) {c : Char} {breaks u : List Char}
    (hbreaks : ∀ x ∈ c :: breaks, isBreak x = true) (hwhite : ∀ x ∈ c :: breaks, IsWhite x)
    (hne : c ≠ '\n') (hu : ∀ x ∈ u.head?, isBreak x = false) :
    FoldsTo indent (c :: breaks ++ spaces indent) (c :: breaks) u where
  ne_nil := by simp
  isWhite := by
    intro x hx
    rcases List.mem_append.1 hx with hx | hx
    · exact hwhite x hx
    · exact .inl (List.eq_of_mem_replicate hx)
  white_ne_nil := by simp
  text := by
    have hfirst : Gap.none.take c = ⟨[], true, [c], []⟩ := by
      simp only [Gap.take]
      rw [if_pos (hbreaks c List.mem_cons_self)]
      rfl
    rw [List.cons_append, List.foldl_cons, hfirst, spaces,
      Gap.foldl_take_broken rfl fun x hx => hbreaks x (List.mem_cons_of_mem c hx)]
    simp [Gap.text, hne]
  written := by rw [singleQuotedFrom_breaks hbreaks hu, List.append_assoc]
  column := by
    intro m _
    rw [spaces, column_past_breaks m hbreaks]
    exact hi

/-- No break follows a space. -/
theorem IsFoldable.not_break_of_space {s u : List Char} {x : Char} {n : Nat}
    (h : IsFoldable (s ++ (List.replicate (n + 1) ' ' ++ x :: u))) : isBreak x = false := by
  have hbefore := h.of_append.before
  rw [List.replicate_succ', List.append_assoc] at hbefore
  simpa using hasNeighbours_middle hbefore

/-- No space follows a break. -/
theorem IsFoldable.ne_space_of_break {s u breaks : List Char} {c x : Char}
    (h : IsFoldable (s ++ (c :: breaks ++ x :: u))) (hbreaks : ∀ y ∈ c :: breaks, isBreak y = true) :
    x ≠ ' ' := by
  have hafter := h.of_append.after
  have hlast := List.dropLast_append_getLast (show c :: breaks ≠ [] by simp)
  rw [← hlast, List.append_assoc] at hafter
  have hpair := hasNeighbours_middle hafter
  rw [hbreaks _ (List.getLast_mem _)] at hpair
  simpa using hpair

/-- Spaces, and behind them what does not begin with white space. -/
theorem IsFoldable.exists_spaces {s more : List Char} (h : IsFoldable (s ++ ' ' :: more)) :
    ∃ g white u, ' ' :: more = g ++ u ∧ (∀ c ∈ u.head?, IsRunCharacter true c) ∧
      FoldsTo indent white g u := by
  obtain ⟨blanks, u, rfl, hblanks, hu⟩ := exists_span (· == ' ') more
  obtain ⟨n, rfl⟩ : ∃ n, blanks = List.replicate n ' ' :=
    ⟨_, List.eq_replicate_of_mem fun c hc => by simpa using hblanks c hc⟩
  have hg : ' ' :: (List.replicate n ' ' ++ u) = List.replicate (n + 1) ' ' ++ u := by
    simp [List.replicate_succ]
  rw [hg] at h ⊢
  refine ⟨_, _, u, rfl, fun x hx => ?_, foldsTo_spaces n u⟩
  obtain ⟨u, rfl⟩ := List.head?_eq_some_iff.1 hx
  exact isRunCharacter_of_isPrintable (h.printable x (by simp)) (by simpa using hu x rfl)
    h.not_break_of_space

/-- Breaks, and behind them what does not begin with white space. -/
theorem IsFoldable.exists_breaks (hi : indent ≠ 0) {s more : List Char} {c : Char}
    (h : IsFoldable (s ++ c :: more)) (hc : isBreak c = true) :
    ∃ g white u, c :: more = g ++ u ∧ (∀ c ∈ u.head?, IsRunCharacter true c) ∧
      FoldsTo indent white g u := by
  obtain ⟨breaks, u, rfl, hbreaks, hu⟩ := exists_span isBreak more
  have hall : ∀ x ∈ c :: breaks, isBreak x = true := by simpa [hc] using hbreaks
  have hwhite : ∀ x ∈ c :: breaks, IsWhite x := fun x hx =>
    isWhite_of_isPrintable (h.printable x (by simp at hx ⊢; tauto)) (.inr (hall x hx))
  have hne : c ≠ '\n' := by
    rintro rfl
    exact h.noLineFeed (by simp)
  rw [← List.cons_append] at h ⊢
  refine ⟨_, _, u, rfl, fun x hx => ?_, foldsTo_breaks hi hall hwhite hne hu⟩
  obtain ⟨u, rfl⟩ := List.head?_eq_some_iff.1 hx
  exact isRunCharacter_of_isPrintable (h.printable x (by simp)) (h.ne_space_of_break hall) (hu x rfl)

/-- A text told by its parts without white space, with white space between two of them that is folded to
itself. -/
inductive Folded (indent : Nat) : List Char → Prop where
  | last {w : List Char} (hw : ∀ c ∈ w, IsRunCharacter true c) : Folded indent w
  | more {w g white u : List Char} (hw : ∀ c ∈ w, IsRunCharacter true c)
      (hhead : ∀ c ∈ u.head?, IsRunCharacter true c) (hfolds : FoldsTo indent white g u)
      (h : Folded indent u) : Folded indent (w ++ (g ++ u))

theorem IsFoldable.folded (hi : indent ≠ 0) {t : List Char} (h : IsFoldable t) : Folded indent t := by
  induction hn : t.length using Nat.strongRecOn generalizing t with
  | ind size ih =>
  obtain ⟨w, more, rfl, hw, hmore⟩ := exists_span (fun c => c != ' ' && !isBreak c) t
  have hrun : ∀ c ∈ w, IsRunCharacter true c := fun c hc => by
    have := hw c hc
    exact isRunCharacter_of_isPrintable (h.printable c (by simp [hc])) (by simp_all) (by simp_all)
  cases more with
  | nil =>
      rw [List.append_nil]
      exact .last hrun
  | cons c more =>
      have hgap : ∃ g white u, c :: more = g ++ u ∧ (∀ c ∈ u.head?, IsRunCharacter true c) ∧
          FoldsTo indent white g u := by
        cases hbreak : isBreak c with
        | false =>
            obtain rfl : c = ' ' := by
              have := hmore c rfl
              simp_all
            exact h.exists_spaces
        | true => exact h.exists_breaks hi hbreak
      obtain ⟨g, white, u, hg, hhead, hfolds⟩ := hgap
      rw [hg] at h hn ⊢
      have hlength : u.length < size := by
        have := List.length_pos_iff.2 hfolds.ne_nil
        simp only [← hn, List.length_append]
        omega
      exact .more hrun hhead hfolds (ih u.length hlength h.of_append.of_append rfl)

theorem solid_singleQuotedFrom {t rest : List Char} (ht : ∀ c ∈ t.head?, IsRunCharacter true c) :
    Solid (singleQuotedFrom indent false t ++ quoteOf true :: rest) := by
  cases t with
  | nil =>
      rw [singleQuotedFrom, if_neg (by decide)]
      intro x hx
      obtain rfl : quoteOf true = x := by simpa using hx
      decide
  | cons c t =>
      have hc := ht c rfl
      have := @singleQuotedFrom_run indent [c] (by simpa using hc.isBreak_eq) t
      rw [List.singleton_append] at this
      rw [this, List.flatMap_singleton, List.append_assoc]
      exact solid_quotedCharacter hc _

/-- By induction on the parts of the text: each is followed by spaces, or by breaks and the
indentation behind them. -/
theorem quotedFrom_single (since : Mark) {t : List Char} (ht : Folded indent t)
    {rest : List Char} (hrest : rest.head? ≠ some '\'') {m : Mark} (hm : m.column ≠ 0) {fuel : Nat}
    (hfuel : t.length < fuel) :
    quotedFrom true since fuel ⟨singleQuotedFrom indent false t ++ quoteOf true :: rest, m⟩ =
      .ok t ⟨rest, m.past (singleQuotedFrom indent false t ++ [quoteOf true])⟩ := by
  obtain ⟨fuel, rfl⟩ : ∃ n, fuel = n + 1 := ⟨fuel - 1, by omega⟩
  induction ht generalizing m fuel with
  | @last t hrun =>
      have hwritten := @singleQuotedFrom_run indent t (fun c hc => (hrun c hc).isBreak_eq) []
      rw [List.append_nil, singleQuotedFrom, if_neg (by decide), List.append_nil] at hwritten
      rw [hwritten]
      exact quotedFrom_quote since fuel hrun (fun _ => hrest) hm
  | @more w g white u hrun hhead hfolds _ ih =>
      have hsolid := @solid_singleQuotedFrom indent u rest hhead
      have hcolumn : (m.past (w.flatMap (quotedCharacter true) ++ white)).column ≠ 0 := by
        rw [Mark.past_append]
        apply hfolds.column
        rw [Mark.past_of_one_line fun c hc => isBreak_of_mem_run hrun hc]
        simp only
        omega
      have hlength := List.length_pos_iff.2 hfolds.ne_nil
      simp only [List.length_append] at hfuel
      obtain ⟨fuel, rfl⟩ : ∃ n, fuel = n + 1 := ⟨fuel - 1, by omega⟩
      have ih := ih hcolumn fuel (by omega)
      rw [singleQuotedFrom_run fun c hc => (hrun c hc).isBreak_eq, hfolds.written]
      simp only [List.append_assoc] at ih ⊢
      rw [quotedFrom_gap since (fuel + 1) hrun hfolds.isWhite hfolds.white_ne_nil hsolid hm, bind_ok ih,
        hfolds.text, ← Mark.past_append]
      simp

/-! Scalars. -/

theorem length_le_singleQuotedFrom (t : List Char) (isAfterBreak : Bool) :
    t.length ≤ (singleQuotedFrom indent isAfterBreak t).length := by
  induction t generalizing isAfterBreak with
  | nil => simp
  | cons c t ih =>
      simp only [singleQuotedFrom]
      split
      · have := ih true
        simp only [List.length_cons]
        omega
      · have := ih false
        split <;> split <;> simp <;> omega

/-- Text between double quotes is read to the quote behind it. -/
theorem quoted_double (t rest : List Char) (m : Mark) :
    quoted false ⟨doubleQuoted t ++ rest, m⟩ = .ok t ⟨rest, m.past (doubleQuoted t)⟩ := by
  have hlen := length_le_flatMap_quotedCharacter false t
  have hskip (r : List Char) := @skip_one '"' (by decide) r m
  have hread := @quotedFrom_double m t rest (m.past ['"']) (by simp [Mark.advance, isBreak])
    ((doubleQuoted t ++ rest).length + 1) (by simp [doubleQuoted]; simp [quotedCharacter] at hlen; omega)
  simp only [quoted]
  rw [bind_ok (mark_apply _), bind_ok (size_apply _)]
  simp only [doubleQuoted, List.cons_append, List.append_assoc] at hread ⊢
  rw [bind_ok (hskip _)]
  exact hread

/-- Text between single quotes is read to the quote behind it. -/
theorem quoted_single (hi : indent ≠ 0) {t : List Char} (ht : IsFoldable t) {rest : List Char}
    (hrest : rest.head? ≠ some '\'') (m : Mark) :
    quoted true ⟨singleQuoted indent t ++ rest, m⟩ = .ok t ⟨rest, m.past (singleQuoted indent t)⟩ := by
  have hlen := @length_le_singleQuotedFrom indent t false
  have hskip (r : List Char) := @skip_one '\'' (by decide) r m
  have hread := @quotedFrom_single indent m t (ht.folded hi) rest hrest (m.past ['\''])
    (by simp [Mark.advance, isBreak]) ((singleQuoted indent t ++ rest).length + 1)
    (by simp [singleQuoted]; omega)
  simp only [quoted]
  rw [bind_ok (mark_apply _), bind_ok (size_apply _)]
  simp only [singleQuoted, List.cons_append, List.append_assoc] at hread ⊢
  rw [bind_ok (hskip _)]
  exact hread

end Scan

end Gauge.Yaml
