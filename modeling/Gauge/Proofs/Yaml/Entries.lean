import Gauge.Proofs.Yaml.Entry

/-!
What the writer makes of a mapping is scanned to the tokens of the mapping. The columns of nested
mappings show where each of them ends.
-/

namespace Gauge.Yaml

open Cursor Scan Writer Scanner

/-- The entries of a mapping: keys with words, texts, lists of texts, or entries of their own. -/
inductive Entries where
  | nil
  | word (key word : String) (rest : Entries)
  | text (key text : String) (rest : Entries)
  | list (key : String) (items : List String) (rest : Entries)
  | mapping (key : String) (inner rest : Entries)

namespace Entries

def write (indent : Nat) : Entries → List Char
  | nil => []
  | word k w rest => wordEntry indent k w ++ rest.write indent
  | text k s rest => textEntry indent k s ++ rest.write indent
  | list k items rest => listEntry indent k items ++ rest.write indent
  | mapping k inner rest =>
    mappingEntry indent k (inner.write (indent + indentation)) ++ rest.write indent

/-- Whether all words need no quotes. -/
def WordsAreBare : Entries → Prop
  | nil => True
  | word _ w rest => IsBare w.toList ∧ rest.WordsAreBare
  | text _ _ rest => rest.WordsAreBare
  | list _ _ rest => rest.WordsAreBare
  | mapping _ inner rest => inner.WordsAreBare ∧ rest.WordsAreBare

def textLexeme (s : String) : Lexeme := .scalar s (textStyle s)

def itemLexemes : List String → List Lexeme
  | [] => []
  | s :: items => .blockEntry :: textLexeme s :: itemLexemes items

def listLexemes : List String → List Lexeme
  | [] => [.flowSequenceStart, .flowSequenceEnd]
  | s :: items => itemLexemes (s :: items)

/-- The lexemes of a mapping, given those of its entries. -/
def mappingLexemes : List Lexeme → List Lexeme
  | [] => [.flowMappingStart, .flowMappingEnd]
  | l :: entries => .blockMappingStart :: l :: entries ++ [.blockEnd]

def entryLexemes (k : String) (value : List Lexeme) : List Lexeme :=
  .key :: textLexeme k :: .value :: value

def lexemes : Entries → List Lexeme
  | nil => []
  | word k w rest => entryLexemes k [.scalar w .plain] ++ rest.lexemes
  | text k s rest => entryLexemes k [textLexeme s] ++ rest.lexemes
  | list k items rest => entryLexemes k (listLexemes items) ++ rest.lexemes
  | mapping k inner rest => entryLexemes k (mappingLexemes inner.lexemes) ++ rest.lexemes

/-! Values. -/

/-- A value of an entry at a column, in a mapping inside of others, is read up to the next line, which
is not further in. -/
def ReadsValue (column : Nat) (outer : List Nat) (value : List Char) (lexemes : List Lexeme) : Prop :=
  ∀ (k : Nat) (main : List Char) (v : View) (m : Mark), k ≤ column → IsLineStart main →
    column < m.column → v.candidate = none → v.indents = column :: outer →
    ∃ (u : View) (d : Cursor), Reads v ⟨value ++ (List.replicate k ' ' ++ main), m⟩ u d ∧
      AtLine main k u d ∧ (u.closed column).lexemes = v.lexemes ++ lexemes ∧
      (u.closed column).indents = column :: outer

variable {column : Nat} {outer : List Nat}

theorem readsValue_of_form {t w : List Char} {style : ScalarStyle}
    (hw : TextForm (column + indentation) t style w) :
    ReadsValue column outer (' ' :: w) [.scalar (String.ofList t) style] := by
  intro k main v m hk hmain hm hv hindents
  obtain ⟨u, d, hread, hline, hlexemes, hu⟩ := Reads.text hv (by rw [hindents]; rfl) hw hk hmain
    (Nat.le_of_lt hm)
  have hclosed : u.closed column = u := View.closed_eq (by simp [hu, hindents])
  rw [List.cons_append]
  exact ⟨u, d, hread, hline, by rw [hclosed, hlexemes], by rw [hclosed, hu, hindents]⟩

theorem readsValue_text (s : String) :
    ReadsValue column outer (' ' :: Writer.text (column + indentation) s) [textLexeme s] := by
  have := @readsValue_of_form column outer _ _ _ (textForm (column + indentation) s)
  rwa [String.ofList_toList] at this

theorem readsValue_word {w : String} (hw : IsBare w.toList) :
    ReadsValue column outer (' ' :: w.toList ++ ['\n']) [.scalar w .plain] := by
  have := @readsValue_of_form column outer _ _ _ (.inline (.plain hw))
  rwa [String.ofList_toList] at this

theorem readsValue_brackets {x y : Char} {l l' : Lexeme} (hb : IsBrackets x y l l') :
    ReadsValue column outer (' ' :: [x, y] ++ ['\n']) [l, l'] := by
  intro k main v m hk hmain hm hv hindents
  obtain ⟨u, d, hread, hline, hlexemes, hu⟩ := Reads.brackets hv (by rw [hindents]; rfl) hb k main
    (Nat.le_of_lt hm)
  have hclosed : u.closed column = u := View.closed_eq (by simp [hu, hindents])
  exact ⟨u, d, hread, hline, by rw [hclosed, hlexemes], by rw [hclosed, hu, hindents]⟩

/-- An item as it is written. -/
def itemText (indent : Nat) (s : String) : List Char :=
  spaces indent ++ ['-', ' '] ++ Writer.text (indent + indentation) s

theorem reads_item (s : String) {k : Nat} {main : List Char} {v : View} {c : Cursor}
    (hk : k ≤ column) (hmain : IsLineStart main)
    (hline : AtLine ('-' :: ' ' :: (Writer.text (column + indentation) s ++
      (List.replicate k ' ' ++ main))) column v c)
    (hindents : v.indents = column :: outer) :
    ∃ (u : View) (d : Cursor), Reads v c u d ∧ AtLine main k u d ∧
      u.lexemes = v.lexemes ++ [.blockEntry, textLexeme s] ∧ u.indents = column :: outer := by
  obtain ⟨m, hm, hfirst⟩ := hline.reads (isLineStart_cons (by decide) _)
  let atText : View := { v.push .blockEntry with candidate := none, isKeyAllowed := true }
  have hclosed : v.closed column = v := View.closed_eq (by simp [hindents])
  have hdash : Reads v c atText
      ⟨' ' :: (Writer.text (column + indentation) s ++ (List.replicate k ' ' ++ main)),
        m.advance '-'⟩ := by
    refine hfirst _ _ (by simp) fun r hr => ?_
    obtain ⟨t, ht, hread⟩ := hr.blockEntry rfl rfl
      (' ' :: (Writer.text (column + indentation) s ++ (List.replicate k ' ' ++ main))) m
    rw [View.opened_with, hclosed, hm, View.opened_eq (by rw [hindents]; rfl)] at ht
    exact ⟨t, ht, (tokenHere_dash r _ m).trans hread⟩
  have hcolumn : column ≤ (m.advance '-').column := by
    rw [← hm]
    exact Nat.le_succ _
  obtain ⟨u, d, htext, hnext, hlexemes, hu⟩ := @Reads.text atText rfl column
    (congrArg List.head? hindents) _ _ _ (textForm (column + indentation) s) k hk main hmain _ hcolumn
  refine ⟨u, d, hdash.trans htext, hnext, ?_, hu.trans hindents⟩
  rw [hlexemes, String.ofList_toList]
  simp [atText, View.push, textLexeme]

/-- By induction on the items behind the first. -/
theorem reads_items (s : String) (items : List String) {k : Nat} {main : List Char} {v : View}
    {c : Cursor} (hk : k ≤ column) (hmain : IsLineStart main)
    (hline : AtLine ('-' :: ' ' :: (Writer.text (column + indentation) s ++
      (items.flatMap (itemText column) ++ (List.replicate k ' ' ++ main)))) column v c)
    (hindents : v.indents = column :: outer) :
    ∃ (u : View) (d : Cursor), Reads v c u d ∧ AtLine main k u d ∧
      u.lexemes = v.lexemes ++ itemLexemes (s :: items) ∧ u.indents = column :: outer := by
  induction items generalizing s v c with
  | nil => exact reads_item s hk hmain hline hindents
  | cons s' items ih =>
      have hnext : (s' :: items).flatMap (itemText column) ++ (List.replicate k ' ' ++ main) =
          List.replicate column ' ' ++ ('-' :: ' ' :: (Writer.text (column + indentation) s' ++
            (items.flatMap (itemText column) ++ (List.replicate k ' ' ++ main)))) := by
        simp [itemText, spaces]
      rw [hnext] at hline
      obtain ⟨u, d, hread, hline', hlexemes, hu⟩ := reads_item s (Nat.le_refl column)
        (isLineStart_cons (by decide) _) hline hindents
      obtain ⟨w, e, hread', hend, hlexemes', hw⟩ := ih s' hline' hu
      refine ⟨w, e, hread.trans hread', hend, ?_, hw⟩
      rw [hlexemes', hlexemes]
      simp [itemLexemes]

theorem readsValue_items (s : String) (items : List String) :
    ReadsValue column outer ('\n' :: (s :: items).flatMap (itemText column))
      (itemLexemes (s :: items)) := by
  intro k main v m hk hmain hm hv hindents
  have hline : AtLine ('-' :: ' ' :: (Writer.text (column + indentation) s ++
      (items.flatMap (itemText column) ++ (List.replicate k ' ' ++ main)))) column v
      ⟨'\n' :: (s :: items).flatMap (itemText column) ++ (List.replicate k ' ' ++ main), m⟩ := by
    have := @AtLine.before ('-' :: ' ' :: (Writer.text (column + indentation) s ++
      (items.flatMap (itemText column) ++ (List.replicate k ' ' ++ main)))) column v m (by simp [hv])
    simpa [itemText, spaces] using this
  obtain ⟨u, d, hread, hend, hlexemes, hu⟩ := reads_items s items hk hmain hline hindents
  have hclosed : u.closed column = u := View.closed_eq (by simp [hu])
  exact ⟨u, d, hread, hend, by rw [hclosed, hlexemes], by rw [hclosed, hu]⟩

/-! Entries. -/

/-- An entry is read up to the next line, if its value is. -/
theorem reads_entry (name : String) {value : List Char} {lexemes : List Lexeme}
    (hvalue : ReadsValue column outer value lexemes) (hhead : isEnd value.head? = true)
    (hne : value ≠ []) {k : Nat} {main start : List Char} {v : View} {c : Cursor} (hk : k ≤ column)
    (hmain : IsLineStart main)
    (hstart : key column name ++ (value ++ (List.replicate k ' ' ++ main)) =
      List.replicate column ' ' ++ start)
    (hline : AtLine start column v c) (hopen : (v.atKey column).indents = column :: outer) :
    ∃ (u : View) (d : Cursor), Reads v c u d ∧ AtLine main k u d ∧
      (u.closed column).lexemes = (v.atKey column).lexemes ++ entryLexemes name lexemes ∧
      (u.closed column).indents = column :: outer := by
  obtain ⟨w, hform, hkey⟩ := keyForm column name
  obtain rfl : w ++ ':' :: (value ++ (List.replicate k ' ' ++ main)) = start := by
    rw [hkey] at hstart
    simpa [spaces] using hstart
  have hend : isEnd (value ++ (List.replicate k ' ' ++ main)).head? = true := by
    obtain ⟨x, value, rfl⟩ := List.exists_cons_of_ne_nil hne
    exact hhead
  obtain ⟨u, m, hread, hm, hcandidate, hlexemes, hindents⟩ := Reads.key hform hend hline hopen
  obtain ⟨w, d, hread', hend, hlexemes', hclosed⟩ := hvalue k main u m hk hmain hm hcandidate hindents
  refine ⟨w, d, hread.trans hread', hend, ?_, hclosed⟩
  rw [hlexemes', hlexemes, String.ofList_toList]
  simp [entryLexemes, textLexeme]

/-- Entries at a column, in a mapping inside of others, are read up to the next line, which is not
further in. -/
def ReadsEntries (column : Nat) (outer : List Nat) (e : Entries) : Prop :=
  ∀ (k : Nat) (main start : List Char) (v : View) (c : Cursor), k ≤ column → IsLineStart main →
    e.write column ++ (List.replicate k ' ' ++ main) = List.replicate column ' ' ++ start →
    AtLine start column v c → (v.atKey column).indents = column :: outer →
    ∃ (u : View) (d : Cursor), Reads v c u d ∧ AtLine main k u d ∧
      (u.closed column).lexemes = (v.atKey column).lexemes ++ e.lexemes ∧
      (u.closed column).indents = column :: outer

/-- What entries begin with. -/
theorem exists_start {e : Entries} (hne : e ≠ .nil) (indent : Nat) :
    ∃ start, e.write indent = List.replicate indent ' ' ++ start ∧ start ≠ [] ∧
      ∀ r, IsLineStart (start ++ r) := by
  have hkey (name : String) (r : List Char) :
      ∃ start, key indent name ++ r = List.replicate indent ' ' ++ start ∧ start ≠ [] ∧
        ∀ r, IsLineStart (start ++ r) := by
    obtain ⟨w, hform, hkey⟩ := keyForm indent name
    refine ⟨w ++ ':' :: r, by simp [hkey, spaces], by simp, fun r' => ?_⟩
    rw [List.append_assoc]
    exact hform.isLineStart _
  cases e with
  | nil => exact absurd rfl hne
  | word name w rest => simpa [write, wordEntry] using hkey name _
  | text name s rest => simpa [write, textEntry] using hkey name _
  | list name items rest =>
      simp only [write, listEntry]
      split
      · simpa [wordEntry] using hkey name _
      · simpa using hkey name _
  | mapping name inner rest =>
      simp only [write, mappingEntry]
      split
      · simpa [wordEntry] using hkey name _
      · simpa using hkey name _

theorem readsEntries_cons {e rest : Entries} (name : String) {value : List Char}
    {lexemes : List Lexeme} (hvalue : ReadsValue column outer value lexemes)
    (hhead : isEnd value.head? = true) (hne : value ≠ [])
    (hrest : rest ≠ .nil → ReadsEntries column outer rest)
    (hwrite : e.write column = key column name ++ value ++ rest.write column)
    (hlexemes : e.lexemes = entryLexemes name lexemes ++ rest.lexemes) :
    ReadsEntries column outer e := by
  intro k main start v c hk hmain hstart hline hopen
  rw [hwrite, List.append_assoc, List.append_assoc] at hstart
  by_cases hnil : rest = .nil
  · subst hnil
    rw [hlexemes]
    simp only [Entries.lexemes, List.append_nil]
    exact reads_entry name hvalue hhead hne hk hmain hstart hline hopen
  · obtain ⟨next, hnext, -, hnextStart⟩ := exists_start hnil column
    have hnextMain := hnextStart (List.replicate k ' ' ++ main)
    rw [hnext, List.append_assoc] at hstart
    obtain ⟨u, d, hread, hmid, hul, hui⟩ := reads_entry name hvalue hhead hne (Nat.le_refl column)
      hnextMain hstart hline hopen
    have hkey : u.atKey column = u.closed column := View.opened_eq (by rw [hui]; rfl) _
    obtain ⟨w, e', hread', hend, hwl, hwi⟩ := hrest hnil k main _ u d hk hmain
      (by rw [hnext, List.append_assoc]) hmid (by rw [hkey, hui])
    refine ⟨w, e', hread.trans hread', hend, ?_, hwi⟩
    rw [hwl, hkey, hul, hlexemes, List.append_assoc]

theorem lexemes_ne_nil {e : Entries} (hne : e ≠ .nil) : e.lexemes ≠ [] := by
  cases e with
  | nil => exact absurd rfl hne
  | _ => simp [lexemes, entryLexemes]

/-- A mapping inside of another. -/
theorem readsValue_entries {inner : Entries} (hne : inner ≠ .nil)
    (hinner : ReadsEntries (column + indentation) (column :: outer) inner) :
    ReadsValue column outer ('\n' :: inner.write (column + indentation))
      (mappingLexemes inner.lexemes) := by
  intro k main v m hk hmain hm hv hindents
  have hdeeper : ¬ column + indentation ≤ column := by simp [indentation]
  obtain ⟨start, hstart, -, -⟩ := exists_start hne (column + indentation)
  have hline : AtLine (start ++ (List.replicate k ' ' ++ main)) (column + indentation) v
      ⟨'\n' :: inner.write (column + indentation) ++ (List.replicate k ' ' ++ main), m⟩ := by
    rw [hstart, List.cons_append, List.append_assoc]
    exact .before (by simp [hv])
  have hclosed : v.closed (column + indentation) = v := View.closed_eq (by simp [hindents])
  have hkey : v.atKey (column + indentation) =
      { v with
        lexemes := v.lexemes ++ [.blockMappingStart]
        indents := (column + indentation) :: column :: outer } := by
    simp [View.atKey, hclosed, View.opened, hindents, hdeeper]
  obtain ⟨u, d, hread, hend, hlexemes, hu⟩ := hinner k main _ v _ (by omega) hmain
    (by rw [hstart, List.append_assoc]) hline (by rw [hkey])
  refine ⟨u, d, hread, hend, ?_, ?_⟩
  · rw [← View.closed_closed u (show column ≤ column + indentation by omega)]
    obtain ⟨l, more, hl⟩ := List.exists_cons_of_ne_nil (lexemes_ne_nil hne)
    rw [View.closed, hu, hlexemes, hkey, hl]
    simp [hdeeper, mappingLexemes]
  · rw [← View.closed_closed u (show column ≤ column + indentation by omega), View.closed, hu]
    simp [hdeeper]

/-- By induction on the entries. -/
theorem readsEntries (e : Entries) (hne : e ≠ .nil) (hwords : e.WordsAreBare) (column : Nat)
    (outer : List Nat) : ReadsEntries column outer e := by
  induction e generalizing column outer with
  | nil => exact absurd rfl hne
  | word name w rest ih =>
      exact readsEntries_cons name (readsValue_word hwords.1) rfl (by simp)
        (fun h => ih h hwords.2 column outer) (by simp [write, wordEntry]) rfl
  | text name s rest ih =>
      exact readsEntries_cons name (readsValue_text s) rfl (by simp)
        (fun h => ih h hwords column outer) (by simp [write, textEntry]) rfl
  | list name items rest ih =>
      cases items with
      | nil =>
          exact readsEntries_cons name (readsValue_brackets .square) rfl (by simp)
            (fun h => ih h hwords column outer) (by simp [write, listEntry, wordEntry]) rfl
      | cons s items =>
          exact readsEntries_cons name (readsValue_items s items) rfl (by simp)
            (fun h => ih h hwords column outer) rfl rfl
  | mapping name inner rest ihInner ih =>
      by_cases hnil : inner = .nil
      · subst hnil
        exact readsEntries_cons name (readsValue_brackets .curly) rfl (by simp)
          (fun h => ih h hwords.2 column outer)
          (by simp [write, mappingEntry, wordEntry]) rfl
      · obtain ⟨start, hstart, hstartNe, -⟩ := exists_start hnil (column + indentation)
        have hinner : (inner.write (column + indentation)).isEmpty = false := by
          rw [hstart]
          simp [hstartNe]
        exact readsEntries_cons name
          (readsValue_entries hnil (ihInner hnil hwords.1 (column + indentation) (column :: outer)))
          rfl (by simp) (fun h => ih h hwords.2 column outer)
          (by simp [write, mappingEntry, hinner]) rfl

/-! The whole text. -/

theorem isAllowed_of_mem_key {indent : Nat} {name : String} {x : Char} (hx : x ∈ key indent name) :
    isAllowed x = true := by
  obtain ⟨w, hform, hkey⟩ := keyForm indent name
  rw [hkey] at hx
  rcases List.mem_append.1 hx with hx | hx
  · exact isAllowed_of_mem_spaces hx
  · rcases List.mem_append.1 hx with hx | hx
    · exact hform.isAllowed hx
    · rw [List.mem_singleton.1 hx]
      decide

theorem isAllowed_of_mem_wordEntry {indent : Nat} {name w : String}
    (hw : ∀ x ∈ w.toList, isAllowed x = true) {x : Char} (hx : x ∈ wordEntry indent name w) :
    isAllowed x = true := by
  have hmem : x ∈ key indent name ∨ x = ' ' ∨ x ∈ w.toList ∨ x = '\n' := by
    simpa [wordEntry] using hx
  rcases hmem with hmem | rfl | hmem | rfl
  · exact isAllowed_of_mem_key hmem
  · decide
  · exact hw x hmem
  · decide

theorem isAllowed_of_mem_textEntry {indent : Nat} {name s : String} {x : Char}
    (hx : x ∈ textEntry indent name s) : isAllowed x = true := by
  rcases List.mem_append.1 hx with hx | hx
  · exact isAllowed_of_mem_key hx
  · rcases List.mem_cons.1 hx with rfl | hx
    · decide
    · exact (textForm (indent + indentation) s).isAllowed hx

theorem isAllowed_of_mem_listEntry {indent : Nat} {name : String} {items : List String} {x : Char}
    (hx : x ∈ listEntry indent name items) : isAllowed x = true := by
  simp only [listEntry] at hx
  split at hx
  · exact isAllowed_of_mem_wordEntry (List.all_eq_true.1 (by decide)) hx
  · have hmem : x ∈ key indent name ∨ x = '\n' ∨ ∃ s ∈ items, x ∈ spaces indent ∨ x = '-' ∨ x = ' ' ∨
        x ∈ Writer.text (indent + indentation) s := by
      simpa using hx
    rcases hmem with hmem | rfl | ⟨s, -, hmem | rfl | rfl | hmem⟩
    · exact isAllowed_of_mem_key hmem
    · decide
    · exact isAllowed_of_mem_spaces hmem
    · decide
    · decide
    · exact (textForm (indent + indentation) s).isAllowed hmem

theorem isAllowed_of_mem_mappingEntry {indent : Nat} {name : String} {entries : List Char}
    (hentries : ∀ y ∈ entries, isAllowed y = true) {x : Char} (hx : x ∈ mappingEntry indent name entries) :
    isAllowed x = true := by
  simp only [mappingEntry] at hx
  split at hx
  · exact isAllowed_of_mem_wordEntry (List.all_eq_true.1 (by decide)) hx
  · rcases List.mem_append.1 hx with hx | hx
    · exact isAllowed_of_mem_key hx
    · rcases List.mem_cons.1 hx with rfl | hx
      · decide
      · exact hentries x hx

theorem isAllowed_of_mem_write {e : Entries} (hwords : e.WordsAreBare) {indent : Nat} {x : Char}
    (hx : x ∈ e.write indent) : isAllowed x = true := by
  induction e generalizing indent x with
  | nil => cases hx
  | word name w rest ih =>
      rcases List.mem_append.1 hx with hx | hx
      · exact isAllowed_of_mem_wordEntry
          (fun y hy => isAllowed_of_isPrintable (hwords.1.printable y hy)) hx
      · exact ih hwords.2 hx
  | text name s rest ih =>
      rcases List.mem_append.1 hx with hx | hx
      · exact isAllowed_of_mem_textEntry hx
      · exact ih hwords hx
  | list name items rest ih =>
      rcases List.mem_append.1 hx with hx | hx
      · exact isAllowed_of_mem_listEntry hx
      · exact ih hwords hx
  | mapping name inner rest ihInner ih =>
      rcases List.mem_append.1 hx with hx | hx
      · exact isAllowed_of_mem_mappingEntry (fun _ hy => ihInner hwords.1 hy) hx
      · exact ih hwords.2 hx

theorem forbiddenAt?_eq_none {s : List Char} (h : ∀ c ∈ s, isAllowed c = true) :
    forbiddenAt? s = none := by
  simp only [forbiddenAt?]
  rw [List.dropWhile_eq_nil_iff.2 h]

/-- What is written is scanned to the tokens of a mapping. -/
theorem scan_write {e : Entries} (hne : e ≠ .nil) (hwords : e.WordsAreBare) :
    ∃ tokens, Token.scan (String.ofList (e.write 0)) = (tokens, none) ∧
      tokens.map (·.lexeme) = .blockMappingStart :: e.lexemes ++ [.blockEnd, .streamEnd] := by
  obtain ⟨start, hstart, -, hline⟩ := exists_start hne 0
  rw [List.replicate_zero, List.nil_append] at hstart
  have hnil : IsLineStart [] := by simp [IsLineStart]
  have hshows : Scanner.start.Shows ⟨[], [], none, true⟩ := ⟨rfl, rfl, rfl, rfl, rfl, by simp⟩
  obtain ⟨u, d, hread, hend, hlexemes, hindents⟩ := readsEntries e hne hwords 0 [] 0 [] start
    ⟨[], [], none, true⟩ (.start start) (Nat.le_refl 0) hnil (by simp [hstart])
    (.here rfl rfl (by simp)) rfl
  obtain ⟨s, hs, hreaches⟩ := hread Scanner.start hshows
  obtain ⟨m, hm, -, hadvance⟩ := hend.advance hnil
  obtain ⟨t, ht, hstep⟩ := hadvance s hs
  obtain ⟨r, hr, hfinished, hall⟩ := ht.streamEnd rfl hm
  obtain ⟨fuel, hfuel, hrun⟩ := run_of_reaches hreaches (start.length + 2) (by simp [Cursor.start])
  obtain ⟨fuel, rfl⟩ : ∃ n, fuel = n + 2 := ⟨fuel - 2, by omega⟩
  refine ⟨r.tokens.toList, ?_, ?_⟩
  · have hallowed : forbiddenAt? start = none := forbiddenAt?_eq_none fun c hc => by
      rw [← hstart] at hc
      exact isAllowed_of_mem_write hwords hc
    simp only [Token.scan]
    simp only [String.toList_ofList, hstart, hallowed]
    rw [hrun, run_of_advance hs.isFinished_eq (hstep.trans hr), run, hfinished]
    rfl
  · rw [hall]
    simp only []
    rw [hlexemes, hindents]
    simp [View.atKey, View.closed, View.opened]

end Entries

end Gauge.Yaml
