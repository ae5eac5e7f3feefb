import Gauge.Proofs.Yaml.QuotedScalar

/-!
Text written line by line reads as itself. The lines are indented, empty ones apart; what is said of
the breaks at the end is what the text has there.
-/

namespace Gauge.Yaml

open Cursor Writer

namespace Scan

variable {indent : Nat}

/-! The lines as they are written. -/

theorem literalLines_breaks {breaks : List Char} (hb : ∀ c ∈ breaks, isBreak c = true)
    (t : List Char) :
    literalLines indent true (breaks ++ t) = breaks ++ literalLines indent true t := by
  induction breaks with
  | nil => rfl
  | cons b breaks ih =>
      rw [List.cons_append, literalLines, if_pos (hb b List.mem_cons_self),
        ih fun x hx => hb x (List.mem_cons_of_mem b hx)]
      rfl

theorem literalLines_start {t : List Char} (ht : ∀ c ∈ t.head?, isBreak c = false) (hne : t ≠ []) :
    literalLines indent true t = List.replicate indent ' ' ++ literalLines indent false t := by
  obtain ⟨c, t, rfl⟩ := List.exists_cons_of_ne_nil hne
  simp [literalLines, ht c rfl, spaces]

theorem literalLines_line {line : List Char} (hl : ∀ c ∈ line, isBreak c = false) (t : List Char) :
    literalLines indent false (line ++ t) = line ++ literalLines indent false t := by
  induction line with
  | nil => rfl
  | cons c line ih =>
      rw [List.cons_append, literalLines, if_neg (by simp [hl c List.mem_cons_self]),
        ih fun x hx => hl x (List.mem_cons_of_mem c hx)]
      rfl

theorem length_le_literalLines (indent : Nat) (isStart : Bool) (t : List Char) :
    t.length ≤ (literalLines indent isStart t).length := by
  induction t generalizing isStart with
  | nil => simp
  | cons c t ih =>
      rw [literalLines]
      split
      · simpa using ih true
      · have := ih false
        simp only [List.length_append, List.length_cons]
        omega

/-- The lines end with a break. -/
theorem column_past_literalLines (t : List Char) {isStart : Bool} {m : Mark}
    (hm : isStart = true → m.column = 0) :
    (m.past (literalLines indent isStart t)).column = 0 := by
  induction t generalizing isStart m with
  | nil =>
      cases isStart with
      | true => exact hm rfl
      | false => rfl
  | cons c t ih =>
      rw [literalLines]
      split
      · rename_i hc
        exact ih fun _ => by simp [Mark.advance, hc]
      · rw [Mark.past_append, Mark.past_cons]
        exact ih fun h => absurd h (by decide)

theorem column_past_literal (t : List Char) (k : Nat) (m : Mark) :
    (m.past (literal indent t ++ List.replicate k ' ')).column = k := by
  have hcolumn : (m.past (literal indent t)).column = 0 := by
    have hliteral : literal indent t =
        '|' :: literalHeader t ++ ['\n'] ++ literalLines indent true t := by simp [literal]
    rw [hliteral, Mark.past_append, Mark.past_append]
    exact column_past_literalLines t fun _ => rfl
  rw [Mark.past_append, Mark.past_of_one_line (by simp [isBreak])]
  simp [hcolumn]

/-! Empty lines. -/

/-- Where the indentation of a line ends. -/
def IsIndented (indent n : Nat) (rest : List Char) : Prop :=
  (n = indent ∨ (n < indent ∧ rest.head? ≠ some ' ')) ∧ ∀ c ∈ rest.head?, isBreak c = false ∧ c ≠ '\t'

theorem skipIndentation_eq {n : Nat} {rest : List Char}
    (h : n = indent ∨ (n < indent ∧ rest.head? ≠ some ' ')) {m : Mark} (hm : m.column = 0) :
    skipIndentation (some indent) ⟨List.replicate n ' ' ++ rest, m⟩ =
      .ok () ⟨rest, m.past (List.replicate n ' ')⟩ := by
  have hskip := skip_spaces n rest m
  have hmin : min ((List.replicate n ' ' ++ rest).takeWhile (· == ' ')).length (indent - m.column) =
      n := by
    rw [List.takeWhile_append_of_pos (by simp), List.length_append, List.length_replicate, hm]
    rcases h with rfl | ⟨hn, hs⟩
    · omega
    · have : rest.takeWhile (· == ' ') = [] := by
        cases rest with
        | nil => rfl
        | cons c rest => simp at hs; simp [hs]
      rw [this]
      simp
      omega
  simp only [skipIndentation]
  rw [bind_ok (get_apply _)]
  simp only [hmin]
  exact hskip

/-- Before a break there is nothing to skip. -/
theorem skipIndentation_break {b : Char} (hb : isBreak b = true) (rest : List Char) {m : Mark}
    (hm : m.column = 0) :
    skipIndentation (some indent) ⟨b :: rest, m⟩ = .ok () ⟨b :: rest, m⟩ := by
  have hspace : b ≠ ' ' := by
    rintro rfl
    exact absurd hb (by decide)
  refine @skipIndentation_eq indent 0 (b :: rest) ?_ m hm
  rcases Nat.eq_zero_or_pos indent with h | h
  · exact .inl h.symm
  · exact .inr ⟨h, by simpa using hspace⟩

theorem emptyLines_eq (since : Mark) {breaks : List Char} (hw : ∀ c ∈ breaks, IsWhite c)
    (hb : ∀ c ∈ breaks, isBreak c = true) {n : Nat} {rest : List Char}
    (hrest : IsIndented indent n rest) (fuel : Nat) (hfuel : breaks.length < fuel) (widest : Nat)
    {m : Mark} (hm : m.column = 0) :
    ∃ w, emptyLines since (some indent) fuel widest ⟨breaks ++ (List.replicate n ' ' ++ rest), m⟩ =
      .ok (breaks, w) ⟨rest, m.past (breaks ++ List.replicate n ' ')⟩ := by
  induction breaks generalizing fuel widest m with
  | nil =>
      obtain ⟨fuel, rfl⟩ : ∃ n, fuel = n + 1 := ⟨fuel - 1, by simp at hfuel; omega⟩
      have hnext : rest.head? ≠ some '\t' ∧ rest.head?.any isBreak = false := by
        cases rest with
        | nil => simp
        | cons c rest =>
            obtain ⟨hbreak, htab⟩ := hrest.2 c rfl
            simp [hbreak, htab]
      rw [List.nil_append, emptyLines, bind_ok (skipIndentation_eq hrest.1 hm), bind_ok (get_apply _)]
      refine ⟨max widest (m.past (List.replicate n ' ')).column, ?_⟩
      simp only []
      rw [if_neg (by simp [Cursor.next, hnext.1]), if_neg (by simp [Cursor.next, hnext.2])]
      rfl
  | cons b breaks ih =>
      obtain ⟨fuel, rfl⟩ : ∃ n, fuel = n + 1 := ⟨fuel - 1, by simp at hfuel; omega⟩
      have hbreak := hb b List.mem_cons_self
      have hwhite := hw b List.mem_cons_self
      have hskip := @skipIndentation_break indent b hbreak (breaks ++ (List.replicate n ' ' ++ rest)) m hm
      have htab : b ≠ '\t' := by
        rintro rfl
        exact absurd hbreak (by decide)
      obtain ⟨w, ih⟩ := ih (fun x hx => hw x (List.mem_cons_of_mem b hx))
        (fun x hx => hb x (List.mem_cons_of_mem b hx)) fuel (by simpa using hfuel)
        (max widest m.column) (m := m.advance b) (by simp [Mark.advance, hbreak])
      refine ⟨w, ?_⟩
      rw [List.cons_append, emptyLines, bind_ok hskip, bind_ok (get_apply _)]
      simp only []
      rw [if_neg (by simp [Cursor.next, htab]), if_pos (by simp [Cursor.next, hbreak]),
        bind_ok (hwhite.lineBreak_eq hbreak), bind_ok ih]
      rfl

/-! Lines. -/

/-- The breaks that a text ends with, the line feed that is added if there are none: the first of
them, and the others. -/
inductive EndsWith (t : List Char) : List Char → List Char → List Char → Prop where
  | none (hne : t ≠ []) (h : ∀ c ∈ t.getLast?, isBreak c = false) : EndsWith t t ['\n'] []
  | breaks {body more : List Char} {b : Char} (ht : t = body ++ b :: more) (hne : body ≠ [])
      (h : ∀ c ∈ body.getLast?, isBreak c = false) (hb : ∀ c ∈ b :: more, isBreak c = true) :
      EndsWith t body [b] more

theorem EndsWith.append {t body first others : List Char} (h : EndsWith t body first others)
    (s : List Char) : EndsWith (s ++ t) (s ++ body) first others := by
  cases h with
  | none hne h =>
      exact .none (by simp [hne]) (by rwa [List.getLast?_append_of_ne_nil _ hne])
  | breaks ht hne h hb =>
      exact .breaks (by rw [ht, List.append_assoc]) (by simp [hne])
        (by rwa [List.getLast?_append_of_ne_nil _ hne]) hb

/-- Reading of lines ends before a line that is not indented so far. -/
theorem blockLines_end {k : Nat} (hk : k ≠ indent) (since : Mark) (fuel : Nat)
    (first others : List Char) (isAfterBlank : Bool) (rest : List Char) {m : Mark}
    (hm : m.column = k) :
    blockLines false indent since fuel first others isAfterBlank ⟨rest, m⟩ =
      .ok ([], first, others) ⟨rest, m⟩ := by
  cases fuel with
  | zero => rfl
  | succ fuel =>
      rw [blockLines, bind_ok (get_apply _), if_neg (by simp [hm, hk])]
      rfl

theorem blockLines_line (since : Mark) (fuel : Nat) (first others : List Char) (isAfterBlank : Bool)
    {line breaks : List Char} {b : Char} {n : Nat} {rest : List Char}
    (hl : ∀ c ∈ line, isBreak c = false) (hne : line ≠ []) (hw : ∀ c ∈ b :: breaks, IsWhite c)
    (hb : ∀ c ∈ b :: breaks, isBreak c = true) (hrest : IsIndented indent n rest) {m : Mark}
    (hm : m.column = indent) :
    ∃ isBlank, blockLines false indent since (fuel + 1) first others isAfterBlank
        ⟨line ++ (b :: breaks ++ (List.replicate n ' ' ++ rest)), m⟩ =
      (do
        let (more, first', others') ← blockLines false indent since fuel [b] breaks isBlank
        return (first ++ others ++ line ++ more, first', others') :
        Scan (List Char × List Char × List Char))
        ⟨rest, m.past (line ++ (b :: breaks ++ List.replicate n ' '))⟩ := by
  have hbreak := hb b List.mem_cons_self
  have htake := @takeWhile_eq (fun x => !isBreak x) line
    (b :: (breaks ++ (List.replicate n ' ' ++ rest))) m (fun c hc => by simp [hl c hc])
    (by simpa using hbreak) hl
  have hline := @IsWhite.lineBreak_eq b (breaks ++ (List.replicate n ' ' ++ rest)) (m.past line)
    (hw b List.mem_cons_self) hbreak
  obtain ⟨w, hskip⟩ := emptyLines_eq since (fun x hx => hw x (List.mem_cons_of_mem b hx))
    (fun x hx => hb x (List.mem_cons_of_mem b hx)) hrest
    ((breaks ++ (List.replicate n ' ' ++ rest)).length + 1) (by rw [List.length_append]; omega) 0
    (m := (m.past line).advance b) (by simp [Mark.advance, hbreak])
  refine ⟨(Cursor.mk (line ++ (b :: breaks ++ (List.replicate n ' ' ++ rest))) m).next.any isBlank, ?_⟩
  rw [blockLines, bind_ok (get_apply _), if_pos (by simp [hm, hne])]
  simp only [Bool.false_and, Bool.false_eq_true, if_false, List.cons_append]
  rw [bind_ok htake, bind_ok hline, bind_ok (size_apply _), bind_ok hskip]
  simp only [Mark.past_append, Mark.past_cons]

theorem isIndented_literalLines {t rest : List Char} (ht : ∀ c ∈ t, isPrintable c = true)
    (hhead : ∀ c ∈ t.head?, isBreak c = false) (hne : t ≠ []) :
    IsIndented indent indent (literalLines indent false t ++ rest) := by
  obtain ⟨c, t, rfl⟩ := List.exists_cons_of_ne_nil hne
  have hc := hhead c rfl
  refine ⟨.inl rfl, fun x hx => ?_⟩
  rw [literalLines, if_neg (by simp [hc])] at hx
  obtain rfl : c = x := by simpa using hx
  refine ⟨hc, ?_⟩
  rintro rfl
  exact absurd (ht '\t' List.mem_cons_self) (by decide)

/-- The last line. -/
theorem blockLines_last (since : Mark) (fuel : Nat) (first others : List Char) (isAfterBlank : Bool)
    {line breaks : List Char} {b : Char} {k : Nat} {rest : List Char}
    (hl : ∀ c ∈ line, isBreak c = false) (hne : line ≠ []) (hw : ∀ c ∈ b :: breaks, IsWhite c)
    (hb : ∀ c ∈ b :: breaks, isBreak c = true) (hk : k < indent) (hrest : IsIndented indent k rest)
    {m : Mark} (hm : m.column = indent) :
    blockLines false indent since (fuel + 1) first others isAfterBlank
        ⟨line ++ (b :: breaks ++ (List.replicate k ' ' ++ rest)), m⟩ =
      .ok (first ++ others ++ line, [b], breaks)
        ⟨rest, m.past (line ++ (b :: breaks ++ List.replicate k ' '))⟩ := by
  obtain ⟨isBlank, hstep⟩ := blockLines_line since fuel first others isAfterBlank hl hne hw hb hrest hm
  have hcolumn : (m.past (line ++ (b :: breaks ++ List.replicate k ' '))).column = k := by
    rw [Mark.past_append]
    exact column_past_breaks _ hb k
  rw [hstep, bind_ok (blockLines_end (by omega) since fuel _ _ _ rest hcolumn)]
  simp

/-- A text told by its lines from one on that is not empty: no breaks behind the line, breaks and nothing
else, or breaks and more lines. -/
inductive Lined : List Char → Prop where
  | last {line : List Char} (hl : ∀ c ∈ line, isBreak c = false) (hne : line ≠ []) : Lined line
  | ended {line breaks : List Char} {b : Char} (hl : ∀ c ∈ line, isBreak c = false) (hne : line ≠ [])
      (hb : ∀ c ∈ b :: breaks, isBreak c = true) : Lined (line ++ b :: breaks)
  | more {line breaks t : List Char} {b : Char} (hl : ∀ c ∈ line, isBreak c = false) (hne : line ≠ [])
      (hb : ∀ c ∈ b :: breaks, isBreak c = true) (hhead : ∀ c ∈ t.head?, isBreak c = false)
      (htne : t ≠ []) (ht : Lined t) : Lined (line ++ (b :: breaks ++ t))

theorem lined_of_head {t : List Char} (hhead : ∀ c ∈ t.head?, isBreak c = false) (hne : t ≠ []) :
    Lined t := by
  induction hn : t.length using Nat.strongRecOn generalizing t with
  | ind size ih =>
  obtain ⟨line, rest, rfl, hline, hrest⟩ := exists_span (fun c => !isBreak c) t
  have hl : ∀ c ∈ line, isBreak c = false := fun c hc => by simpa using hline c hc
  have hlne : line ≠ [] := by
    rintro rfl
    obtain ⟨c, rest, rfl⟩ := List.exists_cons_of_ne_nil hne
    have hbreak := hrest c rfl
    simp [hhead c rfl] at hbreak
  cases rest with
  | nil =>
      rw [List.append_nil]
      exact .last hl hlne
  | cons b rest =>
      have hbreak : isBreak b = true := by simpa using hrest b rfl
      obtain ⟨breaks, t, rfl, hbreaks, ht⟩ := exists_span isBreak rest
      have hb : ∀ c ∈ b :: breaks, isBreak c = true := by simpa [hbreak] using hbreaks
      by_cases htne : t = []
      · rw [htne, List.append_nil]
        exact .ended hl hlne hb
      · have hlength : t.length < size := by
          simp only [← hn, List.length_append, List.length_cons]
          omega
        exact .more hl hlne hb ht htne (ih t.length hlength ht htne rfl)

theorem literalLines_breaks_cons {b : Char} {breaks : List Char} (hb : ∀ c ∈ b :: breaks, isBreak c = true)
    (t : List Char) :
    literalLines indent false (b :: breaks ++ t) = b :: breaks ++ literalLines indent true t := by
  obtain ⟨hbreak, hbreaks⟩ := List.forall_mem_cons.mp hb
  rw [List.cons_append, literalLines, if_pos hbreak, literalLines_breaks hbreaks]
  rfl

/-- What is read of lines, where a line follows that is not indented so far. -/
theorem blockLines_eq (since : Mark) {k : Nat} {rest : List Char} (hk : k < indent)
    (hrest : IsIndented indent k rest) {t : List Char} (lined : Lined t)
    (hprint : ∀ c ∈ t, isPrintable c = true) {fuel : Nat} (hfuel : t.length < fuel)
    (first others : List Char) (isAfterBlank : Bool) {m : Mark} (hm : m.column = indent) :
    ∃ body first' others', EndsWith t body first' others' ∧
      blockLines false indent since fuel first others isAfterBlank
        ⟨literalLines indent false t ++ (List.replicate k ' ' ++ rest), m⟩ =
      .ok (first ++ others ++ body, first', others')
        ⟨rest, m.past (literalLines indent false t ++ List.replicate k ' ')⟩ := by
  obtain ⟨fuel, rfl⟩ : ∃ n, fuel = n + 1 := ⟨fuel - 1, by omega⟩
  induction lined generalizing fuel first others isAfterBlank m with
  | @last line hl hne =>
      refine ⟨line, ['\n'], [], .none hne fun c hc => hl c (List.mem_of_getLast? hc), ?_⟩
      have hw : ∀ c ∈ ['\n'], IsWhite c := by simp [IsWhite]
      have hlines := @literalLines_line indent line hl []
      rw [List.append_nil] at hlines
      have hlast := blockLines_last since fuel first others isAfterBlank hl hne hw (by simp [isBreak]) hk
        hrest hm
      simpa [hlines, literalLines] using hlast
  | @ended line breaks b hl hne hb =>
      refine ⟨line, [b], breaks, .breaks rfl hne (fun c hc => hl c (List.mem_of_getLast? hc)) hb, ?_⟩
      have hw : ∀ c ∈ b :: breaks, IsWhite c := fun c hc =>
        isWhite_of_isPrintable (hprint c (List.mem_append_right _ hc)) (.inr (hb c hc))
      have hlines := @literalLines_breaks_cons indent b breaks hb []
      rw [List.append_nil] at hlines
      have hlast := blockLines_last since fuel first others isAfterBlank hl hne hw hb hk hrest hm
      rw [literalLines_line hl, hlines]
      simpa [literalLines] using hlast
  | @more line breaks t b hl hne hb hhead htne ht ih =>
      have hw : ∀ c ∈ b :: breaks, IsWhite c := fun c hc =>
        isWhite_of_isPrintable (hprint c (by simp at hc ⊢; tauto)) (.inr (hb c hc))
      have hprint' : ∀ c ∈ t, isPrintable c = true := fun c hc => hprint c (by simp [hc])
      obtain ⟨isBlank, hstep⟩ := blockLines_line since fuel first others isAfterBlank hl hne hw hb
        (@isIndented_literalLines indent t (List.replicate k ' ' ++ rest) hprint' hhead htne) hm
      have hcolumn : (m.past (line ++ (b :: breaks ++ List.replicate indent ' '))).column = indent := by
        rw [Mark.past_append]
        exact column_past_breaks _ hb indent
      simp only [List.length_append, List.length_cons] at hfuel
      obtain ⟨fuel, rfl⟩ : ∃ n, fuel = n + 1 := ⟨fuel - 1, by omega⟩
      obtain ⟨body, first', others', hends, ih⟩ := ih hprint' [b] breaks isBlank hcolumn fuel (by omega)
      refine ⟨line ++ (b :: breaks ++ body), first', others', ?_, ?_⟩
      · simpa using hends.append (line ++ b :: breaks)
      · rw [literalLines_line hl, literalLines_breaks_cons hb, literalLines_start hhead htne]
        simp only [List.append_assoc, List.cons_append] at hstep ih ⊢
        rw [hstep, bind_ok ih, ← Mark.past_append]
        simp

/-! The header. -/

/-- What is said of the breaks at the end. -/
def chompingText (s : List Char) : List Char :=
  match s.reverse with
  | last :: before =>
    if !isBreak last then ['-'] else if before.head?.all isBreak then ['+'] else []
  | [] => ['-']

def indentationText (s : List Char) : List Char := if s.head?.any isSpaceOrBreak then ['2'] else []

theorem literalHeader_eq (s : List Char) : literalHeader s = indentationText s ++ chompingText s := rfl

/-- The part of a text that is kept of its lines by a chomping. -/
def Chomping.keeps (chomping : Chomping) (first others : List Char) : List Char :=
  match chomping with
  | .strip => []
  | .clip => first
  | .keep => first ++ others

/-- Whether a chomping is what is read of a text for it. -/
inductive Chomping.IsRead : Chomping → List Char → Prop where
  | strip : IsRead .strip ['-']
  | clip : IsRead .clip []
  | keep : IsRead .keep ['+']

/-- The breaks at the end are kept as there are. -/
theorem EndsWith.chomping {t body first others : List Char} (h : EndsWith t body first others) :
    ∃ chomping : Chomping, chomping.IsRead (chompingText t) ∧
      body ++ chomping.keeps first others = t := by
  cases h with
  | none hne h =>
      obtain ⟨last, before, hrev⟩ := List.exists_cons_of_ne_nil (show t.reverse ≠ [] by simpa using hne)
      have hlast : isBreak last = false := h last (by rw [← List.head?_reverse, hrev]; rfl)
      refine ⟨.strip, ?_, by simp [Chomping.keeps]⟩
      simp only [chompingText, hrev, hlast, Bool.not_false, if_true]
      exact .strip
  | breaks ht hne h hb =>
      rename_i b
      subst ht
      obtain ⟨x, before, hrev⟩ := List.exists_cons_of_ne_nil (show body.reverse ≠ [] by simpa using hne)
      have hx : isBreak x = false := h x (by rw [← List.head?_reverse, hrev]; rfl)
      rcases List.eq_nil_or_concat others with rfl | ⟨more, y, rfl⟩
      · refine ⟨.clip, ?_, by simp [Chomping.keeps]⟩
        have hlast := hb b (by simp)
        simp only [chompingText, List.reverse_append, List.reverse_cons, List.reverse_nil,
          List.nil_append, List.singleton_append, hrev, hlast, List.head?_cons, Option.all_some, hx]
        exact .clip
      · refine ⟨.keep, ?_, by simp [Chomping.keeps]⟩
        have hlast := hb y (by simp)
        have hbefore : (more.reverse ++ b :: body.reverse).head?.all isBreak = true := by
          cases hmore : more.reverse with
          | nil => simp [hb b (by simp)]
          | cons z before =>
              have hz : z ∈ more := by
                rw [← List.mem_reverse, hmore]
                exact List.mem_cons_self
              simp [hb z (by simp [hz])]
        have hreverse : (body ++ b :: more.concat y).reverse =
            y :: (more.reverse ++ b :: body.reverse) := by simp
        simp only [chompingText, hreverse, hlast, hbefore]
        exact .keep

theorem blockHeader_eq (since : Mark) {chomping : Chomping} {s : List Char}
    (h : chomping.IsRead (chompingText s)) (rest : List Char) (m : Mark) :
    blockHeader since ⟨literalHeader s ++ '\n' :: rest, m⟩ =
      .ok (chomping, if s.head?.any isSpaceOrBreak then some 2 else none)
        ⟨'\n' :: rest, m.past (literalHeader s)⟩ := by
  rw [literalHeader_eq]
  generalize chompingText s = text at h
  simp only [indentationText]
  split
  · cases h <;> rfl
  · cases h <;> rfl

theorem endOfLine_eq (activity : Activity) (since : Mark) (rest : List Char) (m : Mark) :
    endOfLine activity since ⟨'\n' :: rest, m⟩ = .ok () ⟨rest, m.advance '\n'⟩ := rfl

/-- The indentation of the first line, where it is told by the line itself. -/
theorem emptyLines_untold (since : Mark) (fuel : Nat) {n : Nat} {rest : List Char} {c : Char}
    (hs : c ≠ ' ') (ht : c ≠ '\t') (hb : isBreak c = false) {m : Mark} (hm : m.column = 0) :
    emptyLines since none (fuel + 1) 0 ⟨List.replicate n ' ' ++ c :: rest, m⟩ =
      .ok ([], n) ⟨c :: rest, m.past (List.replicate n ' ')⟩ := by
  have hskip := skip_spaces n (c :: rest) m
  have hspaces : ((List.replicate n ' ' ++ c :: rest).takeWhile (· == ' ')).length = n := by
    rw [List.takeWhile_append_of_pos (by simp)]
    simp [hs]
  have hcolumn : (m.past (List.replicate n ' ')).column = n := by
    rw [Mark.past_of_one_line (by simp [isBreak])]
    simp [hm]
  have hindentation : skipIndentation none ⟨List.replicate n ' ' ++ c :: rest, m⟩ =
      .ok () ⟨c :: rest, m.past (List.replicate n ' ')⟩ := by
    simp only [skipIndentation]
    rw [bind_ok (get_apply _)]
    simp only [hspaces]
    exact hskip
  rw [emptyLines, bind_ok hindentation, bind_ok (get_apply _)]
  simp only []
  rw [if_neg (by simp [Cursor.next, ht]), if_neg (by simp [Cursor.next, hb]), hcolumn]
  simp

theorem chompingText_breaks {t : List Char} (ht : ∀ c ∈ t, isBreak c = true) (hne : t ≠ []) :
    chompingText t = ['+'] := by
  obtain ⟨last, before, hrev⟩ := List.exists_cons_of_ne_nil (show t.reverse ≠ [] by simpa using hne)
  have hmem (c : Char) (hc : c ∈ last :: before) : isBreak c = true :=
    ht c (by rw [← List.mem_reverse, hrev]; exact hc)
  have hbefore : before.head?.all isBreak = true := by
    cases before with
    | nil => rfl
    | cons x before => simpa using hmem x (by simp)
  simp [chompingText, hrev, hmem last List.mem_cons_self, hbefore]

/-- What is read of a text written line by line behind its header. -/
def blockBody (outer : Option Nat) (since : Mark) (fuel : Nat) (chomping : Chomping)
    (increment : Option Nat) : Scan (List Char) := do
  let told := increment.map (outer.getD 0 + ·)
  let (empty, widest) ← emptyLines since told fuel 0
  let indent := told.getD (max widest (max 1 ((outer.map (· + 1)).getD 0)))
  let (text, first, others) ← blockLines false indent since fuel [] empty false
  return text ++ chomping.keeps first others

theorem block_eq_blockBody (outer : Option Nat) {t : List Char} {chomping : Chomping}
    (h : chomping.IsRead (chompingText t)) (r : List Char) (m : Mark) :
    block false outer ⟨literal indent t ++ r, m⟩ =
      blockBody outer m ((literal indent t ++ r).length + 1) chomping
        (if t.head?.any isSpaceOrBreak then some 2 else none)
        ⟨literalLines indent true t ++ r, m.past ('|' :: literalHeader t ++ ['\n'])⟩ := by
  have hskip (r : List Char) := @skip_one '|' (by decide) r m
  have hheader := blockHeader_eq m h (literalLines indent true t ++ r) (m.past ['|'])
  simp only [block]
  rw [bind_ok (mark_apply _), bind_ok (size_apply _)]
  simp only [literal, List.cons_append, List.append_assoc] at hheader ⊢
  rw [bind_ok (hskip _), bind_ok hheader]
  simp only []
  rw [bind_ok (endOfLine_eq _ _ _ _)]
  simp only [blockBody]
  simp only [Mark.past_cons, Mark.past_append, Mark.past_nil]
  cases chomping <;> rfl

theorem isIndented_of_solid {k : Nat} (hk : k < indent) {rest : List Char} (h : Solid rest) :
    IsIndented indent k rest := by
  refine ⟨.inr ⟨hk, fun hs => ?_⟩, fun c hc => ⟨(h c hc).2, ?_⟩⟩
  · exact absurd (h ' ' hs).1 (by decide)
  · rintro rfl
    exact absurd (h '\t' hc).1 (by decide)

/-- A text of breaks only. -/
theorem blockBody_breaks (since : Mark) {breaks : List Char} (hw : ∀ c ∈ breaks, IsWhite c)
    (hb : ∀ c ∈ breaks, isBreak c = true) (hne : breaks ≠ []) {outer k : Nat} {rest : List Char}
    (hk : k < outer + 2) (hrest : IsIndented (outer + 2) k rest) {fuel : Nat}
    (hfuel : breaks.length < fuel) {m : Mark} (hm : m.column = 0) :
    blockBody (some outer) since fuel .keep (some 2) ⟨breaks ++ (List.replicate k ' ' ++ rest), m⟩ =
      .ok breaks ⟨rest, m.past (breaks ++ List.replicate k ' ')⟩ := by
  obtain ⟨w, hempty⟩ := emptyLines_eq since hw hb hrest fuel hfuel 0 hm
  have hcolumn : (m.past (breaks ++ List.replicate k ' ')).column = k := by
    obtain ⟨b, breaks, rfl⟩ := List.exists_cons_of_ne_nil hne
    exact column_past_breaks m hb k
  have hend := blockLines_end (show k ≠ outer + 2 by omega) since fuel [] breaks false rest hcolumn
  simp only [blockBody]
  simp only [Option.map_some, Option.getD_some]
  rw [bind_ok hempty, bind_ok hend]
  simp [Chomping.keeps, pure_apply]

/-- The indentation is told before a text of breaks and lines, or else by the first line, no break being
before it. -/
def IsTold (increment : Option Nat) (breaks lines : List Char) : Prop :=
  increment = some 2 ∨ (increment = none ∧ breaks = [] ∧ lines.head? ≠ some ' ')

theorem isTold_header {breaks : List Char} (hb : ∀ c ∈ breaks, isBreak c = true) (u : List Char) :
    IsTold (if (breaks ++ u).head?.any isSpaceOrBreak then some 2 else none) breaks u := by
  split
  · exact .inl rfl
  · rename_i h
    cases breaks with
    | nil => exact .inr ⟨rfl, rfl, fun hs => by simp [hs, isSpaceOrBreak] at h⟩
    | cons b breaks => simp [isSpaceOrBreak, hb b List.mem_cons_self] at h

/-- Up to the first line that is not empty. The indentation comes out as it has been written, told or not. -/
theorem emptyLines_literal (since : Mark) {breaks u : List Char} (hw : ∀ c ∈ breaks, IsWhite c)
    (hb : ∀ c ∈ breaks, isBreak c = true) (ht : ∀ c ∈ u, isPrintable c = true)
    (hu : ∀ c ∈ u.head?, isBreak c = false) (hne : u ≠ []) {increment : Option Nat}
    (told : IsTold increment breaks u) (outer : Nat) (rest : List Char) {fuel : Nat}
    (hfuel : breaks.length < fuel) {m : Mark} (hm : m.column = 0) :
    ∃ w, emptyLines since (increment.map (outer + ·)) fuel 0
        ⟨breaks ++ (List.replicate (outer + 2) ' ' ++ (literalLines (outer + 2) false u ++ rest)), m⟩ =
      .ok (breaks, w) ⟨literalLines (outer + 2) false u ++ rest,
        m.past (breaks ++ List.replicate (outer + 2) ' ')⟩ ∧
      (increment.map (outer + ·)).getD (max w (max 1 (outer + 1))) = outer + 2 := by
  rcases told with rfl | ⟨rfl, rfl, hs⟩
  · obtain ⟨w, h⟩ := emptyLines_eq since hw hb (isIndented_literalLines ht hu hne) fuel hfuel 0 hm
    exact ⟨w, h, rfl⟩
  · obtain ⟨fuel, rfl⟩ : ∃ n, fuel = n + 1 := ⟨fuel - 1, by omega⟩
    obtain ⟨c, u, rfl⟩ := List.exists_cons_of_ne_nil hne
    have hc := hu c rfl
    have htab : c ≠ '\t' := by
      rintro rfl
      exact absurd (ht '\t' List.mem_cons_self) (by decide)
    refine ⟨outer + 2, ?_, by simp⟩
    rw [literalLines, if_neg (by simp [hc])]
    exact emptyLines_untold since fuel (by simpa using hs) htab hc hm

/-- A text with lines that are not empty. -/
theorem blockBody_lines (since : Mark) {breaks u : List Char} (hw : ∀ c ∈ breaks, IsWhite c)
    (hb : ∀ c ∈ breaks, isBreak c = true) (ht : ∀ c ∈ u, isPrintable c = true)
    (hu : ∀ c ∈ u.head?, isBreak c = false) (hne : u ≠ []) {outer k : Nat} {rest : List Char}
    (hk : k < outer + 2) (hrest : IsIndented (outer + 2) k rest) {fuel : Nat}
    (hfuel : (breaks ++ u).length < fuel) {increment : Option Nat} (told : IsTold increment breaks u)
    {m : Mark} (hm : m.column = 0) :
    ∃ body first others, EndsWith (breaks ++ u) body first others ∧
      ∀ chomping, blockBody (some outer) since fuel chomping increment
        ⟨literalLines (outer + 2) true (breaks ++ u) ++ (List.replicate k ' ' ++ rest), m⟩ =
      .ok (body ++ Chomping.keeps chomping first others)
        ⟨rest, m.past (literalLines (outer + 2) true (breaks ++ u) ++ List.replicate k ' ')⟩ := by
  rw [List.length_append] at hfuel
  have hlines : literalLines (outer + 2) true (breaks ++ u) =
      breaks ++ (List.replicate (outer + 2) ' ' ++ literalLines (outer + 2) false u) := by
    rw [literalLines_breaks hb, literalLines_start hu hne]
  have hcolumn : (m.past (breaks ++ List.replicate (outer + 2) ' ')).column = outer + 2 := by
    cases breaks with
    | nil =>
        rw [List.nil_append, Mark.past_of_one_line (by simp [isBreak])]
        simp [hm]
    | cons b breaks => exact column_past_breaks m hb (outer + 2)
  obtain ⟨w, hempty, hindent⟩ := emptyLines_literal since hw hb ht hu hne told outer
    (List.replicate k ' ' ++ rest) (show breaks.length < fuel by omega) hm
  obtain ⟨body, first, others, hends, hread⟩ := blockLines_eq since hk hrest (lined_of_head hu hne) ht
    (show u.length < fuel by omega) [] breaks false hcolumn
  refine ⟨breaks ++ body, first, others, hends.append breaks, fun chomping => ?_⟩
  simp only [hlines, List.append_assoc, blockBody, Option.map_some, Option.getD_some]
  rw [bind_ok hempty]
  simp only [hindent]
  rw [bind_ok hread, pure_apply]
  simp [← Mark.past_append]

theorem length_lt_literal (indent : Nat) (t r : List Char) :
    t.length < (literal indent t ++ r).length + 1 := by
  have := length_le_literalLines indent true t
  simp only [literal, List.length_append, List.length_cons]
  omega

theorem past_literal (indent : Nat) (t r : List Char) (m : Mark) :
    m.past (literal indent t ++ r) =
      (m.past ('|' :: literalHeader t ++ ['\n'])).past (literalLines indent true t ++ r) := by
  rw [← Mark.past_append]
  simp [literal]

/-- Text that is written line by line is read up to the next line, which is not indented so far. -/
theorem block_literal {t : List Char} (ht : ∀ c ∈ t, isPrintable c = true) (hne : t ≠ [])
    {outer k : Nat} (hk : k < outer + 2) {rest : List Char} (hrest : Solid rest) (m : Mark) :
    block false (some outer)
        ⟨literal (outer + indentation) t ++ (List.replicate k ' ' ++ rest), m⟩ =
      .ok t ⟨rest, m.past (literal (outer + indentation) t ++ List.replicate k ' ')⟩ := by
  -- the breaks that the text begins with, and its lines from the first that is not empty
  obtain ⟨breaks, u, rfl, hbreaks, hu⟩ := exists_span isBreak t
  have hw : ∀ c ∈ breaks, IsWhite c := fun c hc =>
    isWhite_of_isPrintable (ht c (by simp [hc])) (.inr (hbreaks c hc))
  have hprint : ∀ c ∈ u, isPrintable c = true := fun c hc => ht c (by simp [hc])
  have hindented := isIndented_of_solid hk hrest
  have hcolumn : (m.past ('|' :: literalHeader (breaks ++ u) ++ ['\n'])).column = 0 := by
    rw [Mark.past_append]
    rfl
  have hfuel := length_lt_literal (outer + 2) (breaks ++ u) (List.replicate k ' ' ++ rest)
  change block false (some outer) ⟨literal (outer + 2) _ ++ _, m⟩ =
    .ok _ ⟨rest, m.past (literal (outer + 2) _ ++ _)⟩
  rw [past_literal]
  by_cases hune : u = []
  · subst hune
    rw [List.append_nil] at hne hcolumn hfuel ⊢
    have hread : Chomping.keep.IsRead (chompingText breaks) := by
      rw [chompingText_breaks hbreaks hne]
      exact .keep
    have htold : breaks.head?.any isSpaceOrBreak = true := by
      obtain ⟨b, breaks, rfl⟩ := List.exists_cons_of_ne_nil hne
      simp [isSpaceOrBreak, hbreaks b List.mem_cons_self]
    have hlines := @literalLines_breaks (outer + 2) breaks hbreaks []
    rw [List.append_nil, literalLines, if_pos rfl, List.append_nil] at hlines
    rw [block_eq_blockBody (some outer) hread, htold, if_pos rfl, hlines]
    exact blockBody_breaks m hw hbreaks hne hk hindented hfuel hcolumn
  · obtain ⟨body, first, others, hends, hread⟩ := blockBody_lines m hw hbreaks hprint hu hune hk
      hindented hfuel (isTold_header hbreaks u) hcolumn
    obtain ⟨chomping, hchomping, hkeeps⟩ := hends.chomping
    rw [block_eq_blockBody (some outer) hchomping, hread chomping, hkeeps]

end Scan

end Gauge.Yaml
