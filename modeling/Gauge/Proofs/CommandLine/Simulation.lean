import Gauge.Proofs.CommandLine.Arguments

/-!
Two readings of the same arguments, side by side. If values and flags of some kind, taken one at a time, keep
what the two have in common, so do all arguments without other flags: either both readings refuse them, for one
reason, or they lead both on.
-/

namespace Gauge.CommandLine

/-- Two results that are one error, or two values in a relation. -/
inductive Agree {α ε : Type} (R : α → α → Prop) : Except ε α → Except ε α → Prop
  | error (e : ε) : Agree R (.error e) (.error e)
  | ok {a b : α} (h : R a b) : Agree R (.ok a) (.ok b)

theorem Agree.bind {α β ε : Type} {R : α → α → Prop} {S : β → β → Prop} {x y : Except ε α}
    {f g : α → Except ε β} (h : Agree R x y) (hfg : ∀ a b, R a b → Agree S (f a) (g b)) :
    Agree S (x >>= f) (y >>= g) := by
  cases h with
  | error e => exact .error e
  | ok h => exact hfg _ _ h

theorem Agree.mapError {α ε ε' : Type} {R : α → α → Prop} {x y : Except ε α} (h : Agree R x y)
    (f : ε → ε') : Agree R (x.mapError f) (y.mapError f) := by
  cases h with
  | error e => exact .error (f e)
  | ok h => exact .ok h

theorem Agree.cases {α ε : Type} {R : α → α → Prop} {x y : Except ε α} (h : Agree R x y) :
    (∃ e, x = .error e ∧ y = .error e) ∨ ∃ a b, x = .ok a ∧ y = .ok b ∧ R a b := by
  cases h with
  | error e => exact .inl ⟨e, rfl, rfl⟩
  | ok h => exact .inr ⟨_, _, rfl, rfl, h⟩

/-- A relation of two readings that values and the flags of some kind keep. -/
structure Simulation (flags : Flag → Prop) (R : Progress → Progress → Prop) : Prop where
  flags_help : flags .help
  flags_version : flags .version
  pending_eq {p q : Progress} (h : R p q) : p.pending = q.pending
  flags_of_pending {p q : Progress} (h : R p q) {f : Flag} {texts : List String}
    (hp : q.pending = some (.flag f, texts)) : flags f
  withPending {p q : Progress} (h : R p q) {pending : Option (Slot × List String)}
    (hp : ∀ f texts, pending = some (.flag f, texts) → flags f) :
    R { p with pending := pending } { q with pending := pending }
  takeValue {p q : Progress} (h : R p q) (x : Float) :
    R { p with options := { p.options with values := p.options.values ++ [x] } }
      { q with options := { q.options with values := q.options.values ++ [x] } }
  takeFlag {p q : Progress} (h : R p q) {f : Flag} (hf : flags f) (value : String) :
    Agree R (p.takeFlag f value) (q.takeFlag f value)
  contains_json {p q : Progress} (h : R p q) (hf : flags .json) :
    p.given.contains .json = q.given.contains .json
  giveJson {p q : Progress} (h : R p q) (hf : flags .json) :
    R (p.give .json { p.options with json := true }) (q.give .json { q.options with json := true })

/-- No flag of another kind stands in an argument, unless with a value that it does not take. -/
def IsWithin (flags : Flag → Prop) (s : String) : Prop :=
  ∀ rest, s.toList = '-' :: '-' :: rest → ∀ f, Flag.ofName? (String.ofList (rest.takeWhile (· != '='))) = some f →
    flags f ∨ f.valueName? = none ∧ splitEquals? rest ≠ none

namespace Simulation

variable {flags : Flag → Prop} {R : Progress → Progress → Prop} {p q : Progress}

theorem takeValues (sim : Simulation flags R) (h : R p q) (texts : List String) :
    Agree R (p.takeValues texts) (q.takeValues texts) := by
  induction texts generalizing p q with
  | nil => exact .ok h
  | cons text texts ih =>
      simp only [Progress.takeValues]
      cases Literal.read text with
      | error e => exact .error _
      | ok x => exact ih (sim.takeValue h x)

theorem settle (sim : Simulation flags R) (h : R p q) : Agree R p.settle q.settle := by
  have free : R { p with pending := none } { q with pending := none } := sim.withPending h nofun
  simp only [Progress.settle, sim.pending_eq h]
  cases hq : q.pending with
  | none => exact .ok h
  | some slot =>
      obtain ⟨waiting, texts⟩ := slot
      cases waiting with
      | values => exact sim.takeValues free texts
      | flag f =>
          cases texts with
          | nil => exact .error _
          | cons text texts => exact sim.takeFlag free (sim.flags_of_pending h hq) text

theorem addValue (sim : Simulation flags R) (h : R p q) (s : String) :
    Agree R (p.addValue s) (q.addValue s) := by
  have settled : Agree R (p.settle >>= fun p => pure { p with pending := some (.values, [s]) })
      (q.settle >>= fun q => pure { q with pending := some (.values, [s]) }) :=
    (sim.settle h).bind fun a b hab => .ok (sim.withPending hab (by simp))
  simp only [Progress.addValue, sim.pending_eq h]
  split
  · exact .ok (sim.withPending h (by simp))
  · exact settled

theorem add (sim : Simulation flags R) (h : R p q) (s : String) : Agree R (p.add s) (q.add s) := by
  simp only [Progress.add, sim.pending_eq h]
  split
  · rename_i f hq
    refine .ok (sim.withPending h ?_)
    intro g texts hg
    cases hg
    exact sim.flags_of_pending h hq
  · exact sim.addValue h s

theorem addFlag (sim : Simulation flags R) (h : R p q) {f : Flag} {attached : Option String}
    (hf : flags f ∨ f.valueName? = none ∧ attached ≠ none) :
    Agree R (p.addFlag f attached) (q.addFlag f attached) := by
  have settled := (sim.settle h).mapError Halt.usage
  rcases hf with hf | ⟨hname, hattached⟩
  · simp only [Progress.addFlag]
    split
    · exact settled.bind fun a b hab => (sim.takeFlag hab hf _).mapError _
    · refine settled.bind fun a b hab => .ok (sim.withPending hab ?_)
      intro g texts hg
      cases hg
      exact hf
    · exact .error _
    · refine settled.bind fun a b hab => ?_
      cases f with
      | help | version => exact .error _
      | json =>
          simp only [sim.contains_json hab hf]
          split
          · exact .error _
          · exact .ok (sim.giveJson hab hf)
      | rulesDirectory | rule | file | global =>
          rename_i hname
          cases hname
  · -- refused before what waits is looked at
    obtain ⟨value, rfl⟩ := Option.ne_none_iff_exists'.mp hattached
    simp only [Progress.addFlag, hname]
    exact .error _

theorem take (sim : Simulation flags R) (h : R p q) {s : String}
    (hs : IsWithin flags s) : Agree R (p.take s) (q.take s) := by
  simp only [Progress.take]
  split
  · rename_i rest hrest
    split
    · rename_i f hf
      refine sim.addFlag h ((hs rest hrest f hf).imp_right fun hvalue => ⟨hvalue.1, ?_⟩)
      rw [ne_eq, Option.map_eq_none_iff]
      exact hvalue.2
    · exact .error _
  · split
    · exact (sim.add h s).mapError _
    · split
      · rename_i f hf
        refine sim.addFlag h (.inl ?_)
        rcases Progress.letterFlag?_eq_some hf with rfl | rfl
        · exact sim.flags_help
        · exact sim.flags_version
      · exact .error _
  · exact (sim.add h s).mapError _

theorem takeAll (sim : Simulation flags R) (h : R p q)
    (isSeparated : Bool) {rest : List String} (hrest : ∀ s ∈ rest, IsWithin flags s) :
    Agree R (p.takeAll isSeparated rest) (q.takeAll isSeparated rest) := by
  induction rest generalizing p q isSeparated with
  | nil => exact (sim.settle h).mapError _
  | cons s rest ih =>
      have hs := hrest s List.mem_cons_self
      have hrest := fun s' hs' => hrest s' (List.mem_cons_of_mem _ hs')
      simp only [Progress.takeAll]
      split
      · exact ((sim.addValue h s).mapError _).bind fun a b hab => ih hab true hrest
      · split
        · exact ih h true hrest
        · exact (sim.take h hs).bind fun a b hab => ih hab false hrest

end Simulation

end Gauge.CommandLine
