import Gauge.Environment.File
import Mathlib

/-!
What a file of assignments does to the variables of an environment. A variable that has a value keeps it. Any other
gets the value of the first entry that assigns one to it, unless an entry before makes no sense; that value is read
with the variables as they are when the entry is come to. Which entries make sense, and what they assign to, is in the
text alone.
-/

namespace Gauge.Environment

theorem get?_setDefault (e : Environment) (name value other : String) :
    (e.setDefault name value).get? other = (e.get? other).or (if other = name then some value else none) := by
  rw [setDefault]
  cases h : e.get? name with
  | none =>
      rw [get?_set]
      by_cases hother : other = name
      · simp [hother, h]
      · simp [hother]
  | some v =>
      by_cases hother : other = name
      · simp [hother, h]
      · simp [hother]

namespace File

/-! What is read of an entry. -/

theorem valueFrom_congr {x y : Context} (same : ∀ name, x.value name = y.value name) (mode : Mode)
    (text out : List Char) : valueFrom x mode text out = valueFrom y mode text out := by
  induction text generalizing mode out with
  | nil =>
      cases mode with
      | plain | ended | single | double | braced => rfl
      | escape quoted => cases quoted <;> rfl
      | reference quoted => cases quoted <;> simp only [valueFrom, same]
  | cons c rest ih => cases mode <;> simp only [valueFrom, ih, same]

theorem isSome_ite {c : Prop} [Decidable c] {a b a' b' : Option (List Char)} (h : a.isSome = a'.isSome)
    (h' : b.isSome = b'.isSome) : (if c then a else b).isSome = (if c then a' else b').isSome := by
  split
  · exact h
  · exact h'

/-- Whether a text stands for a value does not depend on the variables. -/
theorem isSome_valueFrom (x y : Context) (mode : Mode) (text out out' : List Char) :
    (valueFrom x mode text out).isSome = (valueFrom y mode text out').isSome := by
  induction text generalizing mode out out' with
  | nil =>
      cases mode with
      | plain | ended | single | double | braced => rfl
      | escape quoted | reference quoted => cases quoted <;> rfl
  | cons c rest ih =>
      cases mode with
      | plain =>
          exact isSome_ite (ih ..) (isSome_ite (ih ..) (isSome_ite (ih ..) (isSome_ite (ih ..)
            (isSome_ite (ih ..) (ih ..)))))
      | single => exact isSome_ite (ih ..) (ih ..)
      | double => exact isSome_ite (ih ..) (isSome_ite (ih ..) (isSome_ite (ih ..) (ih ..)))
      | escape quoted =>
          simp only [valueFrom]
          cases escaped? c with
          | none => rfl
          | some d => exact ih ..
      | reference quoted name =>
          simp only [valueFrom]
          exact isSome_ite (ih ..) (isSome_ite (ih ..) (isSome_ite (ih ..) (ih ..)))
      | braced quoted name => exact isSome_ite (ih ..) (ih ..)
      | ended =>
          refine isSome_ite (ih ..) ?_
          cases c == '#' <;> rfl

/-- What an entry says apart from a value: nothing, a name that it assigns to, or what makes no sense. -/
def Entry.name? : Entry → Option (Option String)
  | .nothing => some none
  | .assignment name _ => some (some name)
  | .malformed => none

theorem entry_congr {x y : Context} (same : ∀ name, x.value name = y.value name) (s : List Char) :
    entry x s = entry y s := by
  have hassignment : ∀ name rest, assignment x name rest = assignment y name rest := by
    intro name rest
    simp only [assignment, valueFrom_congr same]
  simp only [entry, hassignment]

theorem name?_assignment (x y : Context) (name rest : List Char) :
    (assignment x name rest).name? = (assignment y name rest).name? := by
  simp only [assignment]
  split
  · rename_i rest
    split
    · rfl
    · have hsome := isSome_valueFrom x y .plain (Text.trimStart rest) [] []
      cases hx : valueFrom x .plain (Text.trimStart rest) [] <;>
        cases hy : valueFrom y .plain (Text.trimStart rest) [] <;> simp_all [Entry.name?]
  · rfl

theorem name?_entry (x y : Context) (s : List Char) : (entry x s).name? = (entry y s).name? := by
  simp only [entry]
  split
  · rfl
  · split
    · rfl
    · split
      · split
        · rfl
        · exact name?_assignment ..
      · exact name?_assignment ..

/-- An entry that can be carried out. -/
def MakesSense (s : List Char) : Prop := ∀ x, entry x s ≠ .malformed

def AssignsTo (s : List Char) (name : String) : Prop := ∀ x, ∃ value, entry x s = .assignment name value

theorem makesSense_iff (x : Context) (s : List Char) : MakesSense s ↔ entry x s ≠ .malformed := by
  have hname (y : Context) : entry y s ≠ .malformed ↔ (entry y s).name? ≠ none := by
    cases entry y s <;> simp [Entry.name?]
  constructor
  · intro h
    exact h x
  · intro h y
    rwa [hname, name?_entry y x, ← hname]

theorem assignsTo_iff (x : Context) (s : List Char) (name : String) :
    AssignsTo s name ↔ ∃ value, entry x s = .assignment name value := by
  have hname (y : Context) : (∃ value, entry y s = .assignment name value) ↔ (entry y s).name? = some (some name) := by
    cases entry y s <;> simp [Entry.name?]
  constructor
  · intro h
    exact h x
  · intro h y
    rwa [hname, name?_entry y x, ← hname]

/-! Carrying out entries. -/

/-- What is known from the file is also set, so that a reference is to the variable as it is. -/
def Context.Settled (x : Context) : Prop := ∀ name, x.environment.get? name = none → x.known.get? name = none

theorem settled_empty (e : Environment) : Context.Settled ⟨e, .empty⟩ := fun _ _ => rfl

theorem Context.Settled.value_eq {x : Context} (h : x.Settled) (name : List Char) :
    x.value name = ((x.environment.get? (String.ofList name)).getD "").toList := by
  simp only [Context.value]
  cases he : x.environment.get? (String.ofList name) with
  | none => rw [h _ he]
  | some v => rfl

theorem Context.Settled.set {x : Context} (h : x.Settled) (name value : String) :
    Context.Settled ⟨x.environment.setDefault name value, x.known.set name value⟩ := by
  intro other hother
  rw [get?_setDefault, Option.or_eq_none_iff] at hother
  rw [get?_set]
  by_cases hname : other = name
  · simp [hname] at hother
  · rw [if_neg hname]
    exact h other hother.1

theorem apply_congr {x y : Context} (hx : x.Settled) (hy : y.Settled) (same : x.environment = y.environment)
    (entries : List (Option (List Char))) : apply x entries = apply y entries := by
  induction entries generalizing x y with
  | nil => exact same
  | cons first entries ih =>
      cases first with
      | none => exact same
      | some s =>
          have hentry : entry x s = entry y s := by
            apply entry_congr
            intro name
            rw [hx.value_eq, hy.value_eq, same]
          simp only [apply, hentry]
          cases entry y s with
          | nothing => exact ih hx hy same
          | malformed => exact same
          | assignment name value => exact ih (hx.set name value) (hy.set name value) (by rw [same])

end File

open File

/-- The environment after entries have been carried out, as far as they make sense. -/
def after (e : Environment) (entries : List (Option (List Char))) : Environment := apply ⟨e, .empty⟩ entries

def reading (e : Environment) (s : List Char) : Entry := entry ⟨e, .empty⟩ s

section

variable {e : Environment} {s : List Char} {entries : List (Option (List Char))} {name value : String}

theorem makesSense_iff_reading (e : Environment) : MakesSense s ↔ e.reading s ≠ .malformed := makesSense_iff _ s

theorem assignsTo_iff_reading (e : Environment) : AssignsTo s name ↔ ∃ value, e.reading s = .assignment name value :=
  assignsTo_iff _ s name

theorem after_eq (e : Environment) (s : List Char) (entries : List (Option (List Char))) :
    e.after (some s :: entries) =
      match e.reading s with
      | .nothing => e.after entries
      | .malformed => e
      | .assignment name value => (e.setDefault name value).after entries := by
  simp only [after, apply, reading]
  cases entry ⟨e, .empty⟩ s with
  | nothing | malformed => rfl
  | assignment name value => exact apply_congr ((settled_empty e).set name value) (settled_empty _) rfl entries

theorem after_of_malformed (h : ¬ MakesSense s) : e.after (some s :: entries) = e := by
  rw [makesSense_iff_reading e, not_not] at h
  rw [after_eq, h]

theorem after_cons (h : MakesSense s) : e.after (some s :: entries) = (e.after [some s]).after entries := by
  rw [makesSense_iff_reading e] at h
  rw [after_eq, after_eq e s []]
  cases hs : e.reading s with
  | nothing | assignment => rfl
  | malformed => exact absurd hs h

theorem get?_after_other (h : ¬ AssignsTo s name) : (e.after [some s]).get? name = e.get? name := by
  rw [assignsTo_iff_reading e] at h
  rw [after_eq]
  cases hs : e.reading s with
  | nothing | malformed => rfl
  | assignment other value =>
      have hname : name ≠ other := fun hname => h ⟨value, hname ▸ hs⟩
      exact (get?_setDefault e other value name).trans (by rw [if_neg hname, Option.or_none])

theorem get?_after_assignment (unset : e.get? name = none) (h : e.reading s = .assignment name value) :
    (e.after [some s]).get? name = some value := by
  rw [after_eq, h]
  exact (get?_setDefault e name value name).trans (by rw [unset, if_pos rfl, Option.none_or])

end

theorem get?_after_of_set {e : Environment} {name value : String} (h : e.get? name = some value)
    (entries : List (Option (List Char))) : (e.after entries).get? name = some value := by
  induction entries generalizing e with
  | nil => exact h
  | cons first entries ih =>
      cases first with
      | none => exact h
      | some s =>
          rw [after_eq]
          cases e.reading s with
          | nothing => exact ih h
          | malformed => exact h
          | assignment other value' => exact ih (by rw [get?_setDefault, h, Option.some_or])

/-- The first entry that assigns to the name gives it the value, and all entries before make sense. The entry is read
with the variables as those before it have left them. -/
def FirstGiven (e : Environment) (entries : List (Option (List Char))) (name value : String) : Prop :=
  ∃ (before : List (List Char)) (s : List Char) (rest : List (Option (List Char))),
    entries = before.map some ++ some s :: rest ∧
      (∀ s' ∈ before, MakesSense s' ∧ ¬ AssignsTo s' name) ∧
      (e.after (before.map some)).reading s = .assignment name value

theorem not_firstGiven_nil (e : Environment) (name value : String) : ¬ e.FirstGiven [] name value := by
  rintro ⟨before, s, rest, hentries, -⟩
  exact absurd hentries (by simp)

theorem not_firstGiven_none (e : Environment) (entries : List (Option (List Char))) (name value : String) :
    ¬ e.FirstGiven (none :: entries) name value := by
  rintro ⟨before, s, rest, hentries, -⟩
  cases before <;> cases hentries

theorem firstGiven_cons {e : Environment} {s : List Char} {entries : List (Option (List Char))} {name value : String} :
    e.FirstGiven (some s :: entries) name value ↔ e.reading s = .assignment name value ∨
      (MakesSense s ∧ ¬ AssignsTo s name ∧ (e.after [some s]).FirstGiven entries name value) := by
  constructor
  · rintro ⟨before, s', rest, hentries, hbefore, hs'⟩
    cases before with
    | nil =>
        obtain ⟨⟨⟩, -⟩ := List.cons.inj hentries
        exact .inl hs'
    | cons first before =>
        obtain ⟨⟨⟩, hrest⟩ := List.cons.inj hentries
        obtain ⟨⟨sense, other⟩, hbefore⟩ := List.forall_mem_cons.mp hbefore
        rw [List.map_cons, after_cons sense] at hs'
        exact .inr ⟨sense, other, before, s', rest, hrest, hbefore, hs'⟩
  · rintro (hs | ⟨sense, other, before, s', rest, rfl, hbefore, hs'⟩)
    · exact ⟨[], s, entries, rfl, by simp, hs⟩
    · refine ⟨s :: before, s', rest, rfl, List.forall_mem_cons.mpr ⟨⟨sense, other⟩, hbefore⟩, ?_⟩
      rw [List.map_cons, after_cons sense]
      exact hs'

theorem get?_after_iff {e : Environment} {name : String} (unset : e.get? name = none)
    (entries : List (Option (List Char))) (value : String) :
    (e.after entries).get? name = some value ↔ e.FirstGiven entries name value := by
  induction entries generalizing e with
  | nil =>
      rw [show e.after [] = e from rfl, unset]
      simp only [reduceCtorEq, not_firstGiven_nil]
  | cons first entries ih =>
      cases first with
      | none =>
          rw [show e.after (none :: entries) = e from rfl, unset]
          simp only [reduceCtorEq, not_firstGiven_none]
      | some s =>
          rw [firstGiven_cons]
          by_cases assigns : AssignsTo s name
          · obtain ⟨value', hs⟩ := (assignsTo_iff_reading e).mp assigns
            have sense : MakesSense s := (makesSense_iff_reading e).mpr (by simp [hs])
            rw [after_cons sense, get?_after_of_set (get?_after_assignment unset hs)]
            simp [hs, assigns]
          · have hreading : e.reading s ≠ .assignment name value := fun hs =>
              assigns ((assignsTo_iff_reading e).mpr ⟨value, hs⟩)
            by_cases sense : MakesSense s
            · rw [after_cons sense, ih ((get?_after_other assigns).trans unset)]
              simp [hreading, sense, assigns]
            · rw [after_of_malformed sense, unset]
              simp [hreading, sense]

/-- Some entry assigns to the name, and all entries before make sense. -/
def Given (entries : List (Option (List Char))) (name : String) : Prop :=
  ∃ (before : List (List Char)) (s : List Char) (rest : List (Option (List Char))),
    entries = before.map some ++ some s :: rest ∧ (∀ s' ∈ before, MakesSense s') ∧ AssignsTo s name

theorem Given.firstGiven {e : Environment} {entries : List (Option (List Char))} {name : String}
    (h : Given entries name) : ∃ value, e.FirstGiven entries name value := by
  obtain ⟨before, s, rest, rfl, sense, assigns⟩ := h
  induction before generalizing e with
  | nil =>
      obtain ⟨value, hs⟩ := (assignsTo_iff_reading e).mp assigns
      exact ⟨value, firstGiven_cons.mpr (.inl hs)⟩
  | cons first before ih =>
      obtain ⟨hfirst, hbefore⟩ := List.forall_mem_cons.mp sense
      by_cases hassigns : AssignsTo first name
      · obtain ⟨value, hs⟩ := (assignsTo_iff_reading e).mp hassigns
        exact ⟨value, firstGiven_cons.mpr (.inl hs)⟩
      · obtain ⟨value, hvalue⟩ := ih hbefore
        exact ⟨value, firstGiven_cons.mpr (.inr ⟨hfirst, hassigns, hvalue⟩)⟩

theorem get?_after_eq_none_iff {e : Environment} {name : String} (unset : e.get? name = none)
    (entries : List (Option (List Char))) : (e.after entries).get? name = none ↔ ¬ Given entries name := by
  rw [Option.eq_none_iff_forall_ne_some]
  simp only [ne_eq, get?_after_iff unset]
  constructor
  · rintro h hgiven
    obtain ⟨value, hvalue⟩ := hgiven.firstGiven
    exact h value hvalue
  · rintro h value ⟨before, s, rest, hentries, hbefore, hs⟩
    exact h ⟨before, s, rest, hentries, fun s' hs' => (hbefore s' hs').1, (assignsTo_iff_reading _).mpr ⟨value, hs⟩⟩

/-! Files. -/

/-- The entries of a file, the mark at its beginning apart. -/
def entriesOf (file : String) : List (Option (List Char)) :=
  entriesFrom .plain [] <|
    match file.toList with
    | c :: rest => if c == byteOrderMark then rest else c :: rest
    | [] => []

theorem load_eq (e : Environment) (file : String) : e.load file = e.after (entriesOf file) := rfl

end Gauge.Environment
