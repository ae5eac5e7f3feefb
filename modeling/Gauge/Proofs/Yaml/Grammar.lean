import Gauge.Proofs.Yaml.Entries
import Gauge.Yaml.Event.Grammar

/-!
The events of entries. Where the tokens of a mapping are, the grammar yields the scalars of its keys
and values in their order, and what is expected behind them is what was expected before.
-/

namespace Gauge.Yaml

namespace Entries

def textHappening (s : String) : Happening := .scalar none ⟨s, Writer.textStyle s, none⟩

def entryHappenings (k : String) (value : List Happening) : List Happening := textHappening k :: value

def happenings : Entries → List Happening
  | nil => []
  | word k w rest => entryHappenings k [.scalar none ⟨w, .plain, none⟩] ++ rest.happenings
  | text k s rest => entryHappenings k [textHappening s] ++ rest.happenings
  | list k items rest =>
    entryHappenings k (.sequenceStart none :: items.map textHappening ++ [.sequenceEnd]) ++
      rest.happenings
  | mapping k inner rest =>
    entryHappenings k (.mappingStart none :: inner.happenings ++ [.mappingEnd]) ++ rest.happenings

end Entries

namespace Parse

/-- Some steps of the grammar and their events. -/
inductive Emits : Grammar → List Event → Grammar → Prop where
  | refl (g : Grammar) : Emits g [] g
  | step {g h i : Grammar} {x : Expectation} {rest : List Expectation} {e : Event} {es : List Event}
      (hexpected : g.expected = x :: rest)
      (hevent : event x { g with expected := rest } = .ok (e, h)) (hmore : Emits h es i) :
      Emits g (e :: es) i

theorem Emits.trans {g h i : Grammar} {es es' : List Event} (h₁ : Emits g es h) (h₂ : Emits h es' i) :
    Emits g (es ++ es') i := by
  induction h₁ with
  | refl => exact h₂
  | step hexpected hevent _ ih => exact .step hexpected hevent (ih h₂)

/-- Steps to the end are the events. -/
theorem events_of_emits {g h : Grammar} {es : List Event} (hemits : Emits g es h)
    (hend : h.expected = []) (fuel : Nat) (hfuel : es.length < fuel) : events fuel g = (es, none) := by
  induction hemits generalizing fuel with
  | refl g =>
      obtain ⟨fuel, rfl⟩ : ∃ n, fuel = n + 1 := ⟨fuel - 1, by simp at hfuel; omega⟩
      rw [events, hend]
  | step hexpected hevent _ ih =>
      obtain ⟨fuel, rfl⟩ : ∃ n, fuel = n + 1 := ⟨fuel - 1, by simp at hfuel; omega⟩
      rw [events, hexpected]
      simp only [hevent]
      rw [ih hend fuel (by simpa using hfuel)]

variable {failure : Option Malformed} {expected : List Expectation} {handles : List (String × String)}

/-- Tokens with the lexemes `ls`, one of which is first. -/
theorem exists_token {ts : List Token} {l : Lexeme} {ls : List Lexeme}
    (h : ts.map (·.lexeme) = l :: ls) :
    ∃ (a b : Mark) (rest : List Token), ts = ⟨l, a, b⟩ :: rest ∧ rest.map (·.lexeme) = ls := by
  obtain ⟨⟨l', a, b⟩, rest, rfl, rfl, hrest⟩ := List.map_eq_cons_iff.1 h
  exact ⟨a, b, rest, rfl, hrest⟩

theorem event_indentlessEntry {l : Lexeme} (hl : l ≠ .blockEntry) (a b : Mark) (ts : List Token) :
    event .indentlessEntry ⟨⟨l, a, b⟩ :: ts, failure, expected, handles⟩ =
      .ok (⟨.sequenceEnd, a⟩, ⟨⟨l, a, b⟩ :: ts, failure, expected, handles⟩) := by
  have hne : (l == .blockEntry) = false := by simpa using hl
  change (if (l == .blockEntry) = true then _ else _ : Parse Event) _ = _
  rw [hne]
  rfl

/-- What follows a value does not go on with items. -/
def GoesOn (ls : List Lexeme) : Prop := ∃ l more, ls = l :: more ∧ l ≠ .blockEntry

/-- The tokens of a part yield events, with `x` expected of them. -/
def Yields (x : Expectation) (ls : List Lexeme) (hs : List Happening) : Prop :=
  ∀ (failure : Option Malformed) (expected : List Expectation) (handles : List (String × String))
    (ts : List Token) (more : List Lexeme), GoesOn more → ts.map (·.lexeme) = ls ++ more →
    ∃ (es : List Event) (ts' : List Token),
      Emits ⟨ts, failure, x :: expected, handles⟩ es ⟨ts', failure, expected, handles⟩ ∧
      es.map (·.happening) = hs ∧ ts'.map (·.lexeme) = more

theorem yields_scalar (s : String) (style : ScalarStyle) :
    Yields .blockValue [.value, .scalar s style] [.scalar none ⟨s, style, none⟩] := by
  intro failure expected handles ts more _ hts
  obtain ⟨a, b, ts, rfl, h₁⟩ := exists_token hts
  obtain ⟨c, d, ts, rfl, h₂⟩ := exists_token h₁
  exact ⟨_, ts, .step rfl rfl (.refl _), rfl, h₂⟩

theorem yields_square :
    Yields .blockValue [.value, .flowSequenceStart, .flowSequenceEnd]
      [.sequenceStart none, .sequenceEnd] := by
  intro failure expected handles ts more _ hts
  obtain ⟨a, b, ts, rfl, h₁⟩ := exists_token hts
  obtain ⟨c, d, ts, rfl, h₂⟩ := exists_token h₁
  obtain ⟨e, f, ts, rfl, h₃⟩ := exists_token h₂
  exact ⟨_, ts, .step rfl rfl (.step rfl rfl (.refl _)), rfl, h₃⟩

theorem yields_curly :
    Yields .blockValue [.value, .flowMappingStart, .flowMappingEnd]
      [.mappingStart none, .mappingEnd] := by
  intro failure expected handles ts more _ hts
  obtain ⟨a, b, ts, rfl, h₁⟩ := exists_token hts
  obtain ⟨c, d, ts, rfl, h₂⟩ := exists_token h₁
  obtain ⟨e, f, ts, rfl, h₃⟩ := exists_token h₂
  exact ⟨_, ts, .step rfl rfl (.step rfl rfl (.refl _)), rfl, h₃⟩

/-- Items end where something else comes, which is left where it is. -/
theorem yields_items (items : List String) :
    Yields .indentlessEntry (Entries.itemLexemes items)
      (items.map Entries.textHappening ++ [.sequenceEnd]) := by
  intro failure expected handles ts more hmore hts
  induction items generalizing ts with
  | nil =>
      obtain ⟨l, more, rfl, hl⟩ := hmore
      obtain ⟨a, b, ts, rfl, hts'⟩ := exists_token hts
      exact ⟨_, _, .step rfl (event_indentlessEntry hl a b ts) (.refl _), rfl, hts⟩
  | cons s items ih =>
      obtain ⟨a, b, ts, rfl, h₁⟩ := exists_token hts
      obtain ⟨c, d, ts, rfl, h₂⟩ := exists_token h₁
      obtain ⟨es, ts', hemits, hes, hts'⟩ := ih ts h₂
      exact ⟨_, ts', .step rfl rfl hemits, by simp [hes, Entries.textHappening], hts'⟩

theorem yields_list (s : String) (items : List String) :
    Yields .blockValue (.value :: Entries.itemLexemes (s :: items))
      (.sequenceStart none :: (s :: items).map Entries.textHappening ++ [.sequenceEnd]) := by
  intro failure expected handles ts more hmore hts
  obtain ⟨a, b, ts, rfl, h₁⟩ := exists_token hts
  obtain ⟨es, ts', hemits, hes, hts'⟩ := yields_items (s :: items) failure expected handles ts more
    hmore h₁
  obtain ⟨c, d, ts, rfl, -⟩ := exists_token h₁
  exact ⟨_, ts', .step rfl rfl hemits, by rw [List.map_cons, hes]; rfl, hts'⟩

/-- The entries of a mapping, between which its next key is expected. -/
def YieldsEntries (e : Entries) : Prop :=
  ∀ (since : Mark) (failure : Option Malformed) (expected : List Expectation)
    (handles : List (String × String)) (ts : List Token) (more : List Lexeme), GoesOn more →
    ts.map (·.lexeme) = e.lexemes ++ more →
    ∃ (es : List Event) (ts' : List Token),
      Emits ⟨ts, failure, .blockKey since :: expected, handles⟩ es
        ⟨ts', failure, .blockKey since :: expected, handles⟩ ∧
      es.map (·.happening) = e.happenings ∧ ts'.map (·.lexeme) = more

theorem goesOn_lexemes {more : List Lexeme} (e : Entries) (h : GoesOn more) :
    GoesOn (e.lexemes ++ more) := by
  cases e with
  | nil => exact h
  | _ => exact ⟨.key, _, rfl, by simp⟩

theorem yieldsEntries_cons {e rest : Entries} (k : String) {ls : List Lexeme} {hs : List Happening}
    (hvalue : Yields .blockValue (.value :: ls) hs) (hrest : YieldsEntries rest)
    (hlexemes : e.lexemes = Entries.entryLexemes k ls ++ rest.lexemes)
    (hhappenings : e.happenings = Entries.entryHappenings k hs ++ rest.happenings) :
    YieldsEntries e := by
  intro since failure expected handles ts more hmore hts
  rw [hlexemes, List.append_assoc] at hts
  obtain ⟨a, b, ts, rfl, h₁⟩ := exists_token hts
  obtain ⟨c, d, ts, rfl, h₂⟩ := exists_token h₁
  obtain ⟨es, ts', hemits, hes, hts'⟩ := hvalue failure (.blockKey since :: expected) handles ts
    (rest.lexemes ++ more) (goesOn_lexemes rest hmore) h₂
  obtain ⟨es', ts'', hemits', hes', hts''⟩ := hrest since failure expected handles ts' more hmore hts'
  refine ⟨_, ts'', .step rfl rfl (hemits.trans hemits'), ?_, hts''⟩
  rw [hhappenings, List.map_cons, List.map_append, hes, hes']
  rfl

/-- A mapping that is not empty, with its beginning and its end. -/
theorem yields_mapping {e : Entries} (hne : e ≠ .nil) (he : YieldsEntries e) :
    Yields .blockValue (.value :: Entries.mappingLexemes e.lexemes)
      (.mappingStart none :: e.happenings ++ [.mappingEnd]) := by
  intro failure expected handles ts more hmore hts
  have hlexemes : Entries.mappingLexemes e.lexemes = .blockMappingStart :: e.lexemes ++ [.blockEnd] := by
    obtain ⟨l, ls, hl⟩ := List.exists_cons_of_ne_nil (Entries.lexemes_ne_nil hne)
    rw [hl]
    rfl
  rw [hlexemes] at hts
  obtain ⟨a, b, ts, rfl, h₁⟩ := exists_token hts
  obtain ⟨c, d, ts, rfl, h₂⟩ := exists_token h₁
  obtain ⟨es, ts', hemits, hes, hts'⟩ := he c failure expected handles ts (.blockEnd :: more)
    ⟨_, _, rfl, by simp⟩ (by simpa using h₂)
  obtain ⟨a', b', ts', rfl, h₃⟩ := exists_token hts'
  refine ⟨_, ts', .step rfl rfl (hemits.trans (.step rfl rfl (.refl _))), ?_, h₃⟩
  simp [hes]

/-- By induction on the entries. -/
theorem yieldsEntries (e : Entries) : YieldsEntries e := by
  induction e with
  | nil =>
      intro since failure expected handles ts more _ hts
      exact ⟨[], ts, .refl _, rfl, hts⟩
  | word k w rest ih => exact yieldsEntries_cons k (yields_scalar w .plain) ih rfl rfl
  | text k s rest ih => exact yieldsEntries_cons k (yields_scalar s _) ih rfl rfl
  | list k items rest ih =>
      cases items with
      | nil => exact yieldsEntries_cons k yields_square ih rfl rfl
      | cons s items => exact yieldsEntries_cons k (yields_list s items) ih rfl rfl
  | mapping k inner rest ihInner ih =>
      by_cases hnil : inner = .nil
      · subst hnil
        exact yieldsEntries_cons k yields_curly ih rfl rfl
      · exact yieldsEntries_cons k (yields_mapping hnil ihInner) ih rfl rfl

theorem length_itemLexemes (items : List String) :
    (Entries.itemLexemes items).length = 2 * items.length := by
  induction items with
  | nil => rfl
  | cons s items ih =>
      simp only [Entries.itemLexemes, List.length_cons, ih]
      omega

theorem length_le_mappingLexemes (ls : List Lexeme) :
    ls.length + 2 ≤ (Entries.mappingLexemes ls).length := by
  cases ls with
  | nil => exact Nat.le_refl _
  | cons l ls => simp [Entries.mappingLexemes]

/-- No more events come of entries than they have tokens. -/
theorem length_happenings_le (e : Entries) : e.happenings.length ≤ e.lexemes.length := by
  have hcons {k : String} {ls : List Lexeme} {hs : List Happening} {rest : Entries}
      (h : hs.length ≤ ls.length + 2) (ih : rest.happenings.length ≤ rest.lexemes.length) :
      (Entries.entryHappenings k hs ++ rest.happenings).length ≤
        (Entries.entryLexemes k ls ++ rest.lexemes).length := by
    simp only [Entries.entryHappenings, Entries.entryLexemes, List.length_append, List.length_cons]
    omega
  induction e with
  | nil => exact Nat.le_refl _
  | word k w rest ih => exact hcons (by simp) ih
  | text k s rest ih => exact hcons (by simp) ih
  | list k items rest ih =>
      refine hcons ?_ ih
      cases items with
      | nil => simp [Entries.listLexemes]
      | cons s items =>
          have := length_itemLexemes (s :: items)
          simp only [Entries.listLexemes, this]
          simp
  | mapping k inner rest ihInner ih =>
      have := length_le_mappingLexemes inner.lexemes
      refine hcons ?_ ih
      simp only [List.length_append, List.length_cons, List.length_nil]
      omega

/-- The happenings of a text that is a mapping. -/
def documentHappenings (e : Entries) : List Happening :=
  [.documentStart, .mappingStart none] ++ e.happenings ++ [.mappingEnd, .documentEnd, .streamEnd]

theorem ofTokens_eq (e : Entries) {ts : List Token}
    (hts : ts.map (·.lexeme) = .blockMappingStart :: e.lexemes ++ [.blockEnd, .streamEnd]) :
    ∃ es, Event.ofTokens ts none = (es, none) ∧ es.map (·.happening) = documentHappenings e := by
  have hlength : ts.length = e.lexemes.length + 3 := by
    rw [← List.length_map (·.lexeme), hts]
    simp
  obtain ⟨a, b, ts, rfl, h₁⟩ := exists_token hts
  obtain ⟨es, ts', hemits, hes, h₂⟩ := yieldsEntries e a none [.documentEnd] standardHandles ts
    [.blockEnd, .streamEnd] ⟨_, _, rfl, by simp⟩ h₁
  obtain ⟨c, d, ts', rfl, h₃⟩ := exists_token h₂
  obtain ⟨c', d', ts', rfl, h₄⟩ := exists_token h₃
  have hend : Emits
      ⟨⟨.blockEnd, c, d⟩ :: ⟨.streamEnd, c', d'⟩ :: ts', none, [.blockKey a, .documentEnd],
        standardHandles⟩
      [⟨.mappingEnd, c⟩, ⟨.documentEnd, c'⟩, ⟨.streamEnd, c'⟩] ⟨ts', none, [], standardHandles⟩ :=
    .step rfl rfl (.step rfl rfl (.step rfl rfl (.refl _)))
  have hall : Emits ⟨⟨.blockMappingStart, a, b⟩ :: ts, none, [.document true], []⟩
      (⟨.documentStart, a⟩ :: ⟨.mappingStart none, a⟩ ::
        (es ++ [⟨.mappingEnd, c⟩, ⟨.documentEnd, c'⟩, ⟨.streamEnd, c'⟩]))
      ⟨ts', none, [], standardHandles⟩ :=
    .step rfl rfl (.step rfl rfl (hemits.trans hend))
  have hcount : es.length ≤ e.lexemes.length := by
    rw [← List.length_map (·.happening), hes]
    exact length_happenings_le e
  refine ⟨_, events_of_emits hall rfl _ ?_, ?_⟩
  · simp only [List.length_cons, List.length_append, List.length_nil] at hlength ⊢
    omega
  · simp [documentHappenings, hes]

end Parse

end Gauge.Yaml
