import Mathlib.Logic.Function.Basic
import Gauge.Loader
import Gauge.Proofs.Rule.Copy
import Gauge.Proofs.Rule.LifeCycle

/-!
Many rules side by side, made out of nothing, out of documents or as copies of one another, and asked in any
order. Each of them goes through what it would go through alone: a copy is a new rule that is given the
numbers and the code that were seen of its source, and nothing that the script of one rule does reaches the
script of another, not even that of its copy.
-/

namespace Gauge.Rule

theorem after_append (r : Rule) (a b : List Operation) : r.after (a ++ b) = (r.after a).after b := by
  induction a generalizing r with
  | nil => rfl
  | cons op a ih => exact ih _

theorem sights_append (r : Rule) (a b : List Operation) :
    r.sights (a ++ b) = r.sights a ++ (r.after a).sights b := by
  induction a generalizing r with
  | nil => rfl
  | cons op a ih => exact congrArg (_ :: ·) (ih _)

/-! One rule alone. -/

/-- What happens to one rule: a new rule is set up by some operations, and then asked others. -/
structure Life where
  name : String
  setUp : List Operation
  asked : List Operation

namespace Life

/-- The rule as it was when it had been set up. -/
def start (l : Life) : Rule := (new l.name).after l.setUp

def rule (l : Life) : Rule := l.start.after l.asked

/-- What is seen of the rule when it is asked. -/
def sights (l : Life) : List Sight := l.start.sights l.asked

def ask (l : Life) (op : Operation) : Life := { l with asked := l.asked ++ [op] }

theorem rule_ask (l : Life) (op : Operation) : (l.ask op).rule = (l.rule.perform op).2 := by
  simp only [rule, ask, start, after_append, after]

theorem sights_ask (l : Life) (op : Operation) :
    (l.ask op).sights = l.sights ++ l.rule.sights [op] := by
  simp only [sights, ask, start, sights_append, rule]

/-- The life of a rule that is not refused when it is set up. -/
def accepted? (l : Life) : Option Life := if l.rule.state = .invalid then none else some l

def ofParts (name : String) (entries : List (String × Float)) (code : String) : Life :=
  ⟨name, [.setGlobals entries, .setCode code], []⟩

/-- A copy starts with the numbers that are seen of its source, and with the code if there is any. -/
def ofCopy (source : Rule) : Life :=
  ⟨source.name,
    .setGlobals source.globals.entries ::
      (if source.state = .unconfigured then [] else [.setCode source.code]), []⟩

end Life

/-! What is made is what the operations of a life alone make. -/

theorem setCode_invalid_iff (r : Rule) (code : String) :
    (r.setCode code).2.state = .invalid ↔ ∃ e, (r.setCode code).1 = .error e := by
  rw [setCode_eq]
  cases configure r.name r.globals code with
  | mk s fault => cases fault <;> simp [state, RuleStatus.state]

theorem setGlobals_new (name : String) (g : Globals) :
    (new name).setGlobals g.entries = { new name with globals := g } := by
  simp only [setGlobals, NameMap.ofList_entries]
  rfl

theorem ofParts_toOption (name : String) (entries : List (String × Float)) (code : String) :
    (ofParts name entries code).toOption = (Life.ofParts name entries code).accepted?.map Life.rule := by
  have hrule : (Life.ofParts name entries code).rule =
      (((new name).setGlobals entries).setCode code).2 := rfl
  have hinvalid := setCode_invalid_iff ((new name).setGlobals entries) code
  simp only [ofParts, prepare, Life.accepted?, hrule]
  cases h : ((new name).setGlobals entries).setCode code with
  | mk result r =>
      rw [h] at hinvalid hrule
      cases result <;> simp_all [Except.toOption]

theorem clone_eq_rule (r : Rule) : r.clone = (Life.ofCopy r).rule := by
  by_cases h : r.state = .unconfigured
  · simp only [clone_of_unconfigured h, Life.ofCopy, h, if_true, Life.rule, Life.start, after, perform,
      setGlobals_new]
  · simp only [clone_of_configured h, Life.ofCopy, h, if_false, Life.rule, Life.start, after, perform,
      setGlobals_new]

/-- A copy is refused exactly if it is not valid although there is code. -/
theorem tryClone_toOption (r : Rule) :
    r.tryClone.toOption = if r.clone.state = .invalid then none else some r.clone := by
  have hinvalid := setCode_invalid_iff { new r.name with globals := r.globals } r.code
  cases hs : r.status with
  | unconfigured => simp only [tryClone, clone, hs]; rfl
  | valid s | invalid s =>
      simp only [tryClone, clone, hs]
      cases h : ({ new r.name with globals := r.globals } : Rule).setCode r.code with
      | mk result copy =>
          rw [h] at hinvalid
          cases result <;> simp_all [Except.toOption]

theorem tryClone_eq_accepted (r : Rule) :
    r.tryClone.toOption = (Life.ofCopy r).accepted?.map Life.rule := by
  rw [tryClone_toOption, clone_eq_rule, Life.accepted?]
  split <;> rfl

/-! Many rules. -/

/-- How a rule comes into being. -/
inductive Making where
  | new (name : String)
  | parts (name : String) (entries : List (String × Float)) (code : String)
  | document (d : RuleDocument) (overrides : List (String × Float))
  | loaded (l : Loader) (id : String)
  | clone (source : String)
  | tryClone (source : String)

/-- Something that happens while there are many rules: one more is put somewhere, unless it is refused, or
one is asked something. -/
inductive Event where
  | make (slot : String) (m : Making)
  | ask (slot : String) (op : Operation)

/-- A rule among others, and what has been seen of it since it was made. -/
structure Resident where
  rule : Rule
  sights : List Sight

/-- Rules side by side, each in a slot of its own. -/
abbrev Pool : Type := String → Option Resident

namespace Pool

def empty : Pool := fun _ => none

def make? (p : Pool) : Making → Option Rule
  | .new name => some (.new name)
  | .parts name entries code => (Rule.ofParts name entries code).toOption
  | .document d overrides => (d.toRuleWith overrides).toOption
  | .loaded l id => (l.build id).toOption
  | .clone source => (p source).map fun e => e.rule.clone
  | .tryClone source => (p source).bind fun e => e.rule.tryClone.toOption

def step (p : Pool) : Event → Pool
  | .make slot m =>
    match p.make? m with
    | some r => Function.update p slot (some ⟨r, []⟩)
    | none => p
  | .ask slot op =>
    match p slot with
    | some e => Function.update p slot (some ⟨(e.rule.perform op).2, e.sights ++ e.rule.sights [op]⟩)
    | none => p

def after (p : Pool) (events : List Event) : Pool := events.foldl step p

end Pool

/-- The lives of many rules, each told by itself. -/
abbrev Lives : Type := String → Option Life

namespace Lives

def empty : Lives := fun _ => none

/-- The life that begins. Of the source of a copy no more is used than what is seen of it. -/
def make? (ls : Lives) : Making → Option Life
  | .new name => some ⟨name, [], []⟩
  | .parts name entries code => (Life.ofParts name entries code).accepted?
  | .document d overrides => (Life.ofParts d.id (d.globals.insertAll overrides).entries d.code).accepted?
  | .loaded l id => (l.get? id).bind fun d => (Life.ofParts d.id d.globals.entries d.code).accepted?
  | .clone source => (ls source).map fun l => Life.ofCopy l.rule
  | .tryClone source => (ls source).bind fun l => (Life.ofCopy l.rule).accepted?

/-- Only the life in the slot itself goes on. -/
def step (ls : Lives) : Event → Lives
  | .make slot m =>
    match ls.make? m with
    | some l => Function.update ls slot (some l)
    | none => ls
  | .ask slot op => Function.update ls slot ((ls slot).map fun l => l.ask op)

def after (ls : Lives) (events : List Event) : Lives := events.foldl step ls

end Lives

/-- What is there of a rule that has had a life by itself. -/
def Life.resident (l : Life) : Resident := ⟨l.rule, l.sights⟩

/-- Rules side by side that each are what their own life makes of them. -/
def Pool.Alone (p : Pool) (ls : Lives) : Prop := ∀ slot, p slot = (ls slot).map Life.resident

theorem build_toOption (l : Loader) (id : String) :
    (l.build id).toOption =
      (l.get? id).bind fun d => (Rule.ofParts d.id d.globals.entries d.code).toOption := by
  simp only [Loader.build]
  cases l.get? id with
  | none => rfl
  | some d =>
      change (d.toRule.mapError LoadError.rule).toOption = d.toRule.toOption
      cases d.toRule <;> rfl

theorem Pool.Alone.make? {p : Pool} {ls : Lives} (h : p.Alone ls) (m : Making) :
    p.make? m = (ls.make? m).map Life.rule := by
  cases m with
  | new name => rfl
  | parts name entries code => exact ofParts_toOption name entries code
  | document d overrides => exact ofParts_toOption _ _ _
  | loaded l id =>
      simp only [Pool.make?, Lives.make?, build_toOption, ofParts_toOption]
      cases l.get? id <;> rfl
  | clone source =>
      simp only [Pool.make?, Lives.make?, h source]
      cases ls source with
      | none => rfl
      | some l => exact congrArg some (clone_eq_rule l.rule)
  | tryClone source =>
      simp only [Pool.make?, Lives.make?, h source]
      cases ls source with
      | none => rfl
      | some l => exact tryClone_eq_accepted l.rule

/-- A rule that has just been made has not been asked anything. -/
theorem Lives.asked_of_make? {ls : Lives} {m : Making} {l : Life} (h : ls.make? m = some l) :
    l.asked = [] := by
  have accepted {l' : Life} (h' : l'.accepted? = some l) (hnone : l'.asked = []) : l.asked = [] := by
    simp only [Life.accepted?] at h'
    split at h'
    · cases h'
    · exact Option.some.inj h' ▸ hnone
  cases m with
  | new name => exact Option.some.inj h ▸ rfl
  | parts name entries code | document d overrides => exact accepted h rfl
  | loaded loader id =>
      obtain ⟨d, -, h⟩ := Option.bind_eq_some_iff.mp h
      exact accepted h rfl
  | clone source =>
      obtain ⟨l', -, rfl⟩ := Option.map_eq_some_iff.mp h
      rfl
  | tryClone source =>
      obtain ⟨l', -, h⟩ := Option.bind_eq_some_iff.mp h
      exact accepted h rfl

theorem Pool.Alone.update {p : Pool} {ls : Lives} (h : p.Alone ls) (slot : String) {e : Option Resident}
    {l : Option Life} (he : e = l.map Life.resident) :
    Pool.Alone (Function.update p slot e) (Function.update ls slot l) := by
  intro slot'
  by_cases hs : slot' = slot
  · subst hs
    simpa using he
  · simpa [hs] using h slot'

theorem Pool.Alone.step {p : Pool} {ls : Lives} (h : p.Alone ls) (e : Event) :
    (p.step e).Alone (ls.step e) := by
  cases e with
  | make slot m =>
      have made := h.make? m
      simp only [Pool.step, Lives.step]
      cases hl : ls.make? m with
      | none => simpa [made, hl] using h
      | some l =>
          have fresh := Lives.asked_of_make? hl
          rw [made, hl]
          refine h.update slot (congrArg some ?_)
          simp [Life.resident, Life.sights, fresh, Rule.sights]
  | ask slot op =>
      simp only [Pool.step, Lives.step, h slot]
      cases hl : ls slot with
      | none =>
          have unchanged : Function.update ls slot none = ls := by rw [← hl, Function.update_eq_self]
          simpa [unchanged] using h
      | some l =>
          refine h.update slot (congrArg some ?_)
          simp only [Life.resident, Life.rule_ask, Life.sights_ask]

theorem Pool.Alone.after {p : Pool} {ls : Lives} (h : p.Alone ls) (events : List Event) :
    (p.after events).Alone (ls.after events) := by
  induction events generalizing p ls with
  | nil => exact h
  | cons e events ih => exact ih (h.step e)

/-! One rule among the others. -/

def Event.slot : Event → String
  | .make slot _ | .ask slot _ => slot

/-- What the rule in a slot is asked, in its order. -/
def asked (slot : String) : List Event → List Operation
  | [] => []
  | .make _ _ :: rest => asked slot rest
  | .ask slot' op :: rest => if slot' = slot then op :: asked slot rest else asked slot rest

namespace Pool

theorem step_of_slot_ne {e : Event} {slot : String} (h : e.slot ≠ slot) (p : Pool) :
    p.step e slot = p slot := by
  cases e with
  | make slot' m =>
      simp only [step]
      cases p.make? m with
      | none => rfl
      | some r => exact Function.update_of_ne (Ne.symm h) _ _
  | ask slot' op =>
      simp only [step]
      cases p slot' with
      | none => rfl
      | some r => exact Function.update_of_ne (Ne.symm h) _ _

/-- Whatever happens to others in between, a rule goes on as what it is asked alone makes it go on. -/
theorem after_of_not_made {p : Pool} {slot : String} {r : Resident} (there : p slot = some r)
    {events : List Event} (not_made : ∀ m, .make slot m ∉ events) :
    p.after events slot =
      some ⟨r.rule.after (asked slot events), r.sights ++ r.rule.sights (asked slot events)⟩ := by
  induction events generalizing p r with
  | nil => simpa [after, asked, Rule.after, Rule.sights] using there
  | cons e events ih =>
      have later : ∀ m, .make slot m ∉ events := fun m hm => not_made m (List.mem_cons_of_mem _ hm)
      by_cases hs : e.slot = slot
      · cases e with
        | make slot' m => exact absurd (hs ▸ List.mem_cons_self) (not_made m)
        | ask slot' op =>
            obtain rfl : slot' = slot := hs
            have stepped : p.step (.ask slot' op) slot' =
                some ⟨(r.rule.perform op).2, r.sights ++ r.rule.sights [op]⟩ := by
              simp only [step, there, Function.update_self]
            refine (ih stepped later).trans ?_
            simp [asked, Rule.after, Rule.sights]
      · refine (ih ((step_of_slot_ne hs p).trans there) later).trans ?_
        cases e with
        | make slot' m => rfl
        | ask slot' op => simp only [asked, if_neg (show ¬ slot' = slot from hs)]

end Pool

/-- Rules that are made, copied and asked in any order. What is there of each of them, and all that has been
seen of it, is what its own life makes of it alone, which uses of the source of a copy only what was seen of
it; what happens to others changes nothing, copies of the rule being taken included; and from any time on the
rule goes through what it is asked itself, in that order. -/
theorem isolated (events : List Event) (slot : String) :
    let p := Pool.empty.after events
    p slot = (Lives.empty.after events slot).map Life.resident ∧
      (∀ e : Event, e.slot ≠ slot → p.step e slot = p slot) ∧
      ∀ r later, p slot = some r → (∀ m, .make slot m ∉ later) →
        p.after later slot =
          some ⟨r.rule.after (asked slot later), r.sights ++ r.rule.sights (asked slot later)⟩ := by
  intro p
  have alone : Pool.empty.Alone Lives.empty := fun _ => rfl
  exact ⟨alone.after events slot, fun e h => Pool.step_of_slot_ne h p,
    fun r later there not_made => Pool.after_of_not_made there not_made⟩

end Gauge.Rule
