import Gauge.Proofs.Yaml.LiteralScalar
import Gauge.Proofs.Yaml.PlainScalar
import Gauge.Yaml.Token.Lexer

/-!
The styles in which text is written. Each is picked only for text that it reads back as.
-/

namespace Gauge.Yaml.Writer

open Cursor

/-- The style of a text on one line. -/
def inlineStyle (s : String) : ScalarStyle :=
  let cs := s.toList
  if !cs.contains '\n' && !isAmbiguous s && isPlainAllowed cs then .plain
  else if !cs.contains '\n' && isSingleQuotedAllowed cs then .singleQuoted
  else .doubleQuoted

def textStyle (s : String) : ScalarStyle :=
  if s.toList.contains '\n' && isLiteralAllowed s.toList then .literal else inlineStyle s

/-- Text that is written as it is. -/
structure IsBare (t : List Char) : Prop extends IsInline none t where
  printable : ∀ c ∈ t, isPrintable c = true
  noDocument : beginsDocument t = false

/-- A text as it is written on one line in a style. -/
inductive InlineForm (indent : Nat) (t : List Char) : ScalarStyle → List Char → Prop where
  | plain (h : IsBare t) : InlineForm indent t .plain t
  | singleQuoted (h : Scan.IsFoldable t) :
      InlineForm indent t .singleQuoted (singleQuoted indent t)
  | doubleQuoted : InlineForm indent t .doubleQuoted (doubleQuoted t)

/-- A text as it is written up to the end of its last line. -/
inductive TextForm (indent : Nat) (t : List Char) : ScalarStyle → List Char → Prop where
  | inline {style : ScalarStyle} {w : List Char} (h : InlineForm indent t style w) :
      TextForm indent t style (w ++ ['\n'])
  | literal (h : ∀ c ∈ t, isPrintable c = true) (hne : t ≠ []) :
      TextForm indent t .literal (literal indent t)

theorem ne_tab_of_isPrintable {c : Char} (h : isPrintable c = true) : c ≠ '\t' := by
  rintro rfl
  exact absurd h (by decide)

theorem isBare_of_isPlainAllowed {t : List Char} (hne : t ≠ []) (h : isPlainAllowed t = true) :
    IsBare t := by
  simp only [isPlainAllowed, Bool.and_eq_true, Bool.not_eq_true', List.all_eq_true,
    List.any_eq_false] at h
  obtain ⟨⟨⟨⟨⟨hprint, hbreak⟩, hhead⟩, hlast⟩, hdoc⟩, hind⟩ := h
  refine ⟨⟨hne, fun hs => ?_, fun hs => ?_, fun c hc => ?_, hind⟩, hprint, hdoc⟩
  · simp [hs, isSpaceOrBreak] at hhead
  · simp [hs, isSpaceOrBreak] at hlast
  · exact ⟨by simpa using hbreak c hc, ne_tab_of_isPrintable (hprint c hc)⟩

theorem isFoldable_of_isSingleQuotedAllowed {t : List Char} (hn : '\n' ∉ t)
    (h : isSingleQuotedAllowed t = true) : Scan.IsFoldable t := by
  simp only [isSingleQuotedAllowed, Bool.and_eq_true, Bool.not_eq_true', List.all_eq_true] at h
  exact ⟨h.1.1, hn, h.1.2, h.2⟩

theorem ne_nil_of_isAmbiguous {s : String} (h : isAmbiguous s = false) : s.toList ≠ [] := by
  intro hs
  obtain rfl : s = "" := String.toList_inj.1 hs
  exact absurd h (by decide)

theorem inlineForm (indent : Nat) (s : String) :
    InlineForm indent s.toList (inlineStyle s) (inlineText indent s) := by
  simp only [inlineStyle, inlineText]
  split
  · rename_i h
    simp only [Bool.and_eq_true, Bool.not_eq_true'] at h
    exact .plain (isBare_of_isPlainAllowed (ne_nil_of_isAmbiguous h.1.2) h.2)
  · split
    · rename_i h
      simp only [Bool.and_eq_true, Bool.not_eq_true', List.contains_eq_mem,
        decide_eq_false_iff_not] at h
      exact .singleQuoted (isFoldable_of_isSingleQuotedAllowed h.1 h.2)
    · exact .doubleQuoted

theorem textForm (indent : Nat) (s : String) :
    TextForm indent s.toList (textStyle s) (text indent s) := by
  simp only [textStyle, text]
  split
  · rename_i h
    simp only [Bool.and_eq_true, List.contains_eq_mem, decide_eq_true_eq, isLiteralAllowed,
      List.all_eq_true] at h
    exact .literal h.2.1.1 (List.ne_nil_of_mem h.1)
  · exact .inline (inlineForm indent s)

/-! Where a text begins. -/

/-- A text may begin a line if its first character is neither white nor a mark of comments or of the
order of bytes. -/
def IsLineStart (s : List Char) : Prop :=
  ∀ c ∈ s.head?, isBlank c = false ∧ isBreak c = false ∧ c ≠ '#' ∧ c ≠ '\ufeff'

theorem isLineStart_cons {x : Char}
    (hx : isBlank x = false ∧ isBreak x = false ∧ x ≠ '#' ∧ x ≠ '\ufeff') (r : List Char) :
    IsLineStart (x :: r) := by
  intro c hc
  obtain rfl : x = c := by simpa using hc
  exact hx

theorem IsLineStart.solid {s : List Char} (h : IsLineStart s) : Scan.Solid s :=
  fun c hc => ⟨(h c hc).1, (h c hc).2.1⟩

theorem InlineForm.isLineStart {indent : Nat} {t w : List Char} {style : ScalarStyle}
    (h : InlineForm indent t style w) (r : List Char) : IsLineStart (w ++ r) := by
  intro c hc
  cases h with
  | plain h =>
      obtain ⟨hblank, hbreak⟩ := h.solid r c hc
      obtain ⟨x, w, rfl⟩ := List.exists_cons_of_ne_nil h.ne_nil
      obtain rfl : x = c := by simpa using hc
      refine ⟨hblank, hbreak, ?_, ?_⟩
      · rintro rfl
        exact absurd h.noIndicator (by simp [hasIndicator, isIndicator, isLeadingIndicator])
      · rintro rfl
        exact absurd (h.printable _ List.mem_cons_self) (by decide)
  | singleQuoted h =>
      obtain rfl : '\'' = c := by simpa [Writer.singleQuoted] using hc
      decide
  | doubleQuoted =>
      obtain rfl : '"' = c := by simpa [Writer.doubleQuoted] using hc
      decide

theorem InlineForm.ne_nil {indent : Nat} {t w : List Char} {style : ScalarStyle}
    (h : InlineForm indent t style w) : w ≠ [] := by
  cases h with
  | plain h => exact h.ne_nil
  | singleQuoted h => simp [Writer.singleQuoted]
  | doubleQuoted => simp [Writer.doubleQuoted]

/-! What may stand in a text. -/

theorem isAllowed_of_isPrintable {c : Char} (h : isPrintable c = true) : isAllowed c = true := by
  simp only [isPrintable, isAllowed, Bool.or_eq_true, Bool.and_eq_true, beq_iff_eq,
    decide_eq_true_eq] at h ⊢
  tauto

theorem isAllowed_hexDigit {d : Nat} (h : d < 16) : isAllowed (hexDigit d) = true := by
  revert d
  decide

theorem isAllowed_of_mem_hexDigits {width n : Nat} {c : Char} (h : c ∈ hexDigits width n) :
    isAllowed c = true := by
  induction width generalizing n with
  | zero => cases h
  | succ width ih =>
      rcases List.mem_append.1 h with h | h
      · exact ih h
      · rw [List.mem_singleton.1 h]
        exact isAllowed_hexDigit (Nat.mod_lt n (by decide))

theorem isAllowed_of_mem_escape {c x : Char} (h : x ∈ escape c) : isAllowed x = true := by
  have hdigits {letter : Char} {width : Nat} (hl : isAllowed letter = true)
      (hx : x ∈ letter :: hexDigits width c.toNat) : isAllowed x = true := by
    rcases List.mem_cons.1 hx with rfl | hx
    · exact hl
    · exact isAllowed_of_mem_hexDigits hx
  simp only [escape] at h
  split at h
  case h_15 =>
      simp only [numberedEscape] at h
      split at h
      · exact hdigits (by decide) h
      · split at h <;> exact hdigits (by decide) h
  all_goals
      rw [List.mem_singleton.1 h]
      decide

theorem isAllowed_of_mem_spaces {n : Nat} {c : Char} (h : c ∈ spaces n) : isAllowed c = true := by
  rw [List.eq_of_mem_replicate h]
  decide

theorem isAllowed_of_mem_singleQuotedFrom {indent : Nat} {t : List Char}
    (ht : ∀ c ∈ t, isPrintable c = true) {isAfterBreak : Bool} {x : Char}
    (h : x ∈ singleQuotedFrom indent isAfterBreak t) : isAllowed x = true := by
  have hspaces (b : Bool) (hx : x ∈ if b then spaces indent else []) : isAllowed x = true := by
    cases b with
    | true => exact isAllowed_of_mem_spaces hx
    | false => cases hx
  induction t generalizing isAfterBreak with
  | nil => exact hspaces isAfterBreak h
  | cons c t ih =>
      have hc := isAllowed_of_isPrintable (ht c List.mem_cons_self)
      have ih {b : Bool} := @ih (fun y hy => ht y (List.mem_cons_of_mem c hy)) b
      simp only [singleQuotedFrom] at h
      split at h
      · rcases List.mem_cons.1 h with rfl | h
        · exact hc
        · exact ih h
      · rcases List.mem_append.1 h with h | h
        · rcases List.mem_append.1 h with h | h
          · exact hspaces isAfterBreak h
          · split at h
            · obtain rfl : x = '\'' := by simpa using h
              decide
            · rwa [List.mem_singleton.1 h]
        · exact ih h

theorem isAllowed_of_mem_literalLines {indent : Nat} {t : List Char}
    (ht : ∀ c ∈ t, isPrintable c = true) {isStart : Bool} {x : Char}
    (h : x ∈ literalLines indent isStart t) : isAllowed x = true := by
  induction t generalizing isStart with
  | nil =>
      obtain rfl : x = '\n' := by
        cases isStart with
        | true => cases h
        | false => exact List.mem_singleton.1 h
      decide
  | cons c t ih =>
      have hc := isAllowed_of_isPrintable (ht c List.mem_cons_self)
      have ih {b : Bool} := @ih (fun y hy => ht y (List.mem_cons_of_mem c hy)) b
      simp only [literalLines] at h
      split at h
      · rcases List.mem_cons.1 h with rfl | h
        · exact hc
        · exact ih h
      · rcases List.mem_append.1 h with h | h
        · split at h
          · exact isAllowed_of_mem_spaces h
          · cases h
        · rcases List.mem_cons.1 h with rfl | h
          · exact hc
          · exact ih h

theorem isAllowed_of_mem_literalHeader {t : List Char} {x : Char} (h : x ∈ literalHeader t) :
    isAllowed x = true := by
  have hx : x ∈ ['2', '-', '+'] := by
    rw [Scan.literalHeader_eq] at h
    simp only [Scan.indentationText, Scan.chompingText] at h
    rcases List.mem_append.1 h with h | h
    · split at h <;> simp_all
    · split at h
      · split at h
        · simp_all
        · split at h <;> simp_all
      · simp_all
  have hall : ∀ x ∈ ['2', '-', '+'], isAllowed x = true := List.all_eq_true.1 (by decide)
  exact hall x hx

theorem InlineForm.isAllowed {indent : Nat} {t w : List Char} {style : ScalarStyle}
    (h : InlineForm indent t style w) {x : Char} (hx : x ∈ w) : isAllowed x = true := by
  cases h with
  | plain h => exact isAllowed_of_isPrintable (h.printable x hx)
  | singleQuoted h =>
      have hmem : x = '\'' ∨ x ∈ singleQuotedFrom indent false t := by
        simpa [Writer.singleQuoted, or_comm, or_left_comm] using hx
      rcases hmem with rfl | hmem
      · decide
      · exact isAllowed_of_mem_singleQuotedFrom h.printable hmem
  | doubleQuoted =>
      have hmem : x = '"' ∨ ∃ c ∈ t, x ∈ doubleQuotedCharacter c := by
        simpa [Writer.doubleQuoted, or_comm, or_left_comm] using hx
      rcases hmem with rfl | ⟨c, -, hmem⟩
      · decide
      · simp only [doubleQuotedCharacter] at hmem
        split at hmem
        · rcases List.mem_cons.1 hmem with rfl | hmem
          · decide
          · exact isAllowed_of_mem_escape hmem
        · rename_i hraw
          simp only [Bool.or_eq_true, Bool.not_eq_true', not_or, Bool.not_eq_false] at hraw
          rw [List.mem_singleton.1 hmem]
          exact isAllowed_of_isPrintable hraw.1.1.1

theorem TextForm.isAllowed {indent : Nat} {t w : List Char} {style : ScalarStyle}
    (h : TextForm indent t style w) {x : Char} (hx : x ∈ w) : isAllowed x = true := by
  cases h with
  | inline h =>
      rcases List.mem_append.1 hx with hx | hx
      · exact h.isAllowed hx
      · rw [List.mem_singleton.1 hx]
        decide
  | literal h hne =>
      have hmem : x = '|' ∨ x ∈ literalHeader t ∨ x = '\n' ∨ x ∈ literalLines indent true t := by
        simpa [Writer.literal] using hx
      rcases hmem with rfl | hmem | rfl | hmem
      · decide
      · exact isAllowed_of_mem_literalHeader hmem
      · decide
      · exact isAllowed_of_mem_literalLines h hmem

/-! Keys of one line. -/

theorem isBreak_of_mem_singleQuotedFrom {indent : Nat} {t : List Char}
    (ht : ∀ c ∈ t, isBreak c = false) {x : Char} (h : x ∈ singleQuotedFrom indent false t) :
    isBreak x = false := by
  induction t with
  | nil => cases h
  | cons c t ih =>
      have hc := ht c List.mem_cons_self
      rw [singleQuotedFrom, if_neg (by simp [hc])] at h
      rcases List.mem_append.1 h with h | h
      · rw [if_neg (by decide), List.nil_append] at h
        split at h
        · obtain rfl : x = '\'' := by simpa using h
          decide
        · rwa [List.mem_singleton.1 h]
      · exact ih (fun y hy => ht y (List.mem_cons_of_mem c hy)) h

/-- Text of one line is written on one line. -/
theorem InlineForm.isBreak_eq {indent : Nat} {t w : List Char} {style : ScalarStyle}
    (h : InlineForm indent t style w) (ht : ∀ c ∈ t, isBreak c = false) {x : Char} (hx : x ∈ w) :
    isBreak x = false := by
  cases h with
  | plain h => exact ht x hx
  | singleQuoted h =>
      have hmem : x = '\'' ∨ x ∈ singleQuotedFrom indent false t := by
        simpa [Writer.singleQuoted, or_comm, or_left_comm] using hx
      rcases hmem with rfl | hmem
      · decide
      · exact isBreak_of_mem_singleQuotedFrom ht hmem
  | doubleQuoted =>
      have hmem : x = '"' ∨ x ∈ t.flatMap (Scan.quotedCharacter false) := by
        simpa [Writer.doubleQuoted, Scan.quotedCharacter, or_comm, or_left_comm] using hx
      rcases hmem with rfl | hmem
      · decide
      · exact Scan.isBreak_of_mem_doubleQuoted hmem

theorem length_singleQuotedFrom_le {indent : Nat} {t : List Char}
    (ht : ∀ c ∈ t, isBreak c = false) : (singleQuotedFrom indent false t).length ≤ 2 * t.length := by
  induction t with
  | nil => simp [singleQuotedFrom]
  | cons c t ih =>
      have ih := ih fun y hy => ht y (List.mem_cons_of_mem c hy)
      rw [singleQuotedFrom, if_neg (by simp [ht c List.mem_cons_self])]
      simp only [Bool.false_eq_true, if_false, List.nil_append, List.length_append, List.length_cons]
      split <;> simp <;> omega

theorem length_escape_lt (c : Char) : (escape c).length < 4 * c.utf8Size := by
  have hpos := c.utf8Size_pos
  simp only [escape]
  split
  case h_15 =>
      have hsize : c.utf8Size = if c.toNat ≤ 0x7f then 1 else if c.toNat ≤ 0x7ff then 2 else
          if c.toNat ≤ 0xffff then 3 else 4 := rfl
      simp only [numberedEscape]
      split
      · simp only [List.length_cons, length_hexDigits]
        omega
      · split
        · simp only [List.length_cons, length_hexDigits]
          split at hsize
          · omega
          · split at hsize
            · omega
            · omega
        · simp only [List.length_cons, length_hexDigits]
          rw [if_neg (by omega), if_neg (by omega), if_neg (by omega)] at hsize
          omega
  all_goals
      simp only [List.length_singleton]
      omega

theorem length_doubleQuotedCharacter_le (c : Char) :
    (doubleQuotedCharacter c).length ≤ 4 * c.utf8Size := by
  have hpos := c.utf8Size_pos
  have hescape := length_escape_lt c
  simp only [doubleQuotedCharacter]
  split
  · rw [List.length_cons]
    omega
  · rw [List.length_singleton]
    omega

theorem utf8ByteSize_ofList_cons (c : Char) (t : List Char) :
    (String.ofList (c :: t)).utf8ByteSize = c.utf8Size + (String.ofList t).utf8ByteSize := by
  have h : String.ofList (c :: t) = String.singleton c ++ String.ofList t := by
    rw [← String.toList_inj]
    simp
  rw [h, String.utf8ByteSize_append, String.utf8ByteSize_singleton]

/-- How long a text can get by quotes and escapes. -/
theorem InlineForm.length_le {indent : Nat} {t w : List Char} {style : ScalarStyle}
    (h : InlineForm indent t style w) (ht : ∀ c ∈ t, isBreak c = false) :
    w.length ≤ 4 * (String.ofList t).utf8ByteSize + 2 := by
  have hlength : t.length ≤ (String.ofList t).utf8ByteSize ∧
      (t.flatMap doubleQuotedCharacter).length ≤ 4 * (String.ofList t).utf8ByteSize := by
    clear h ht
    induction t with
    | nil => simp
    | cons c t ih =>
        have hpos := c.utf8Size_pos
        have hc := length_doubleQuotedCharacter_le c
        rw [utf8ByteSize_ofList_cons, List.flatMap_cons, List.length_append, List.length_cons]
        omega
  cases h with
  | plain h => omega
  | singleQuoted h =>
      have := @length_singleQuotedFrom_le indent t ht
      simp only [Writer.singleQuoted, List.length_cons, List.length_append, List.length_nil]
      omega
  | doubleQuoted =>
      simp only [Writer.doubleQuoted, List.length_cons, List.length_append, List.length_nil]
      omega

/-- A key as it is written, between its indentation and its colon. -/
inductive KeyForm (indent : Nat) (t : List Char) : ScalarStyle → List Char → Prop where
  | simple {style : ScalarStyle} {w : List Char}
      (h : InlineForm (indent + indentation) t style w) (ht : ∀ c ∈ t, isBreak c = false)
      (hlength : w.length ≤ Scanner.longestKey) : KeyForm indent t style w
  | marked {style : ScalarStyle} {w : List Char}
      (h : TextForm (indent + indentation) t style w) :
      KeyForm indent t style ('?' :: ' ' :: (w ++ spaces indent))

theorem keyForm (indent : Nat) (s : String) :
    ∃ w, KeyForm indent s.toList (textStyle s) w ∧ key indent s = spaces indent ++ (w ++ [':']) := by
  simp only [key]
  split
  · exact ⟨_, .marked (textForm (indent + indentation) s), by simp⟩
  · rename_i h
    simp only [Bool.or_eq_true, List.any_eq_true, not_or, not_exists, not_and, Bool.not_eq_true,
      decide_eq_false_iff_not, Nat.not_lt] at h
    obtain ⟨hbreak, hsize⟩ := h
    have hsize : s.utf8ByteSize ≤ 128 := hsize
    have hform := inlineForm (indent + indentation) s
    have hlength := hform.length_le hbreak
    rw [String.ofList_toList] at hlength
    have hstyle : textStyle s = inlineStyle s := by
      have hnot : '\n' ∉ s.toList := fun hn => absurd (hbreak _ hn) (by decide)
      simp [textStyle, hnot]
    rw [hstyle]
    refine ⟨_, .simple hform hbreak ?_, (List.append_assoc _ _ _).trans rfl⟩
    simp only [Scanner.longestKey]
    omega

theorem KeyForm.isLineStart {indent : Nat} {t w : List Char} {style : ScalarStyle}
    (h : KeyForm indent t style w) (r : List Char) : IsLineStart (w ++ r) := by
  cases h with
  | simple h => exact h.isLineStart r
  | marked h =>
      intro c hc
      obtain rfl : '?' = c := by simpa using hc
      decide

theorem KeyForm.isAllowed {indent : Nat} {t w : List Char} {style : ScalarStyle}
    (h : KeyForm indent t style w) {x : Char} (hx : x ∈ w) : isAllowed x = true := by
  cases h with
  | simple h => exact h.isAllowed hx
  | marked h =>
      rcases List.mem_cons.1 hx with rfl | hx
      · decide
      · rcases List.mem_cons.1 hx with rfl | hx
        · decide
        · rcases List.mem_append.1 hx with hx | hx
          · exact h.isAllowed hx
          · exact isAllowed_of_mem_spaces hx

/-- No line that a bare key begins is one that begins or ends a document. -/
theorem IsBare.isAtDocument_eq {t : List Char} (h : IsBare t) (r : List Char) (m : Mark) :
    (Cursor.mk (t ++ ':' :: r) m).isAtDocument = false := by
  have hdocument := h.noDocument
  simp only [beginsDocument] at hdocument
  simp only [isAtDocument]
  rw [Bool.and_eq_false_iff]
  refine .inr ?_
  rcases t with _ | ⟨a, _ | ⟨b, _ | ⟨c, t⟩⟩⟩
  · rfl
  · simp
  · simp
  · exact hdocument

end Gauge.Yaml.Writer
