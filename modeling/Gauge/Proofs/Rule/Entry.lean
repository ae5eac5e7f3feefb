import Gauge.Proofs.Rule.Globals
import Gauge.Proofs.Script.Entry

/-!
Rules whose code defines the function `main`, of any number of arguments, and does nothing else. Such code is accepted
by every rule whose name is one that a script can have; what the rule answers is what a run of the function gives.
-/

namespace Gauge.Rule

open Script (Session Value Activation Machine Code Note Closure)
open Script.Session (keyOf assign)

/-- A text that defines `main` by the given code. -/
structure IsEntry (text : String) (body : Code) : Prop where
  filled : Text.isBlankText text = false
  isText : text.toUTF8.byte 0 ≠ Script.Chunk.binaryMark
  read : ∃ notes, ∀ source, Script.Chunk.read text.toUTF8 source Session.readDepth =
    .ok (.defining entryPoint body notes)
  captures : body.captures = #[.captured 0]
  params : body.params = 0
  isVarargs : body.isVarargs = true

/-- A session in which `main` is the function of the given code, and in which the other global variables are those that
a rule with the given numbers starts with. -/
structure Serves (s : Session) (body : Code) (g : Globals) : Prop where
  main : ∃ c : Closure, c.code = body ∧ s.HasFunction entryPoint c
  others : ∀ name, name ≠ entryPoint → s.globalTable.get (keyOf name) =
    ((g.get? name).map Value.float).getD (Session.start.globalTable.get (keyOf name))

theorem IsEntry.of_read {text : String} {body : Code} (notes : Array Note) (filled : Text.isBlankText text = false)
    (isText : text.toUTF8.byte 0 ≠ Script.Chunk.binaryMark)
    (read : (Script.Function.read text.toUTF8 Session.readDepth).toOption.map Code.ofFunction =
      some (.defining entryPoint body notes))
    (captures : body.captures = #[.captured 0]) (params : body.params = 0) (isVarargs : body.isVarargs = true) :
    IsEntry text body := by
  refine ⟨filled, isText, ⟨notes, fun source => ?_⟩, captures, params, isVarargs⟩
  rw [Script.Chunk.read]
  cases hf : Script.Function.read text.toUTF8 Session.readDepth with
  | error e =>
      rw [hf] at read
      cases read
  | ok f =>
      rw [hf] at read
      exact congrArg Except.ok (Option.some.inj read)

theorem get_pushGlobals (t : Script.Table) (g : Globals) (name : String) :
    (assign t (g.entries.map fun e => (e.1, .float e.2))).get (keyOf name) =
      ((g.get? name).map Value.float).getD (t.get (keyOf name)) := by
  have hvalue : ∀ e ∈ g.entries.map (fun e => (e.1, Value.float e.2)), e.2 = valueIn g e.1 := fun e he =>
    value_of_mem_replacements (show e ∈ replacements .empty g from List.mem_append_right _ he)
  have hnames : name ∈ (g.entries.map (fun e => (e.1, Value.float e.2))).map (·.1) ↔ (g.get? name).isSome := by
    rw [List.map_map]
    exact g.mem_names_iff name
  rw [Script.Session.get_assign hvalue, valueIn]
  simp only [hnames]
  cases g.get? name <;> simp

theorem Serves.get_number {s : Session} {body : Code} {g : Globals} (h : Serves s body g) {name : String}
    (hname : name ≠ entryPoint) {x : Float} (hg : g.get? name = some x) :
    s.globalTable.get (keyOf name) = .float x := by
  rw [h.others name hname, hg]
  rfl

/-- What every script has at hand, a rule's script has, too, where no number takes its name. -/
theorem Serves.get_start {s : Session} {body : Code} {g : Globals} (h : Serves s body g) {name : String} {v : Value}
    (hname : name ≠ entryPoint) (hg : g.get? name = none) (hv : (name, v) ∈ Session.startEntries) :
    s.globalTable.get (keyOf name) = v := by
  rw [h.others name hname, hg, Option.map_none, Option.getD_none]
  exact Script.Session.get_start (e := (name, v)) hv

theorem entryOf_eq {s : Session} {c : Closure} (h : s.HasFunction entryPoint c) :
    ∃ id, entryOf s = (.ok (some (.closure id)), s) ∧ s.heap.closures.getD id default = c := by
  obtain ⟨id, hmain, hid⟩ := h.found
  refine ⟨id, ?_, hid⟩
  rw [entryOf, Script.Session.global_eq h.plain, hmain]
  rfl

theorem configure_entry {name text : String} {body : Code} (g : Globals) (h : IsEntry text body)
    (hname : Session.nameFailure? name.toUTF8 = none) :
    ∃ s, configure name g text = (s, none) ∧ Serves s body g := by
  obtain ⟨notes, hread⟩ := h.read
  let values : List (String × Value) := g.entries.map fun e => (e.1, .float e.2)
  let pushed : Session := Session.start.withGlobals (assign Session.start.globalTable values)
  have hpushed : pushed.Plain := Script.Session.plain_start.withGlobals
    ((Script.Session.metatable_assign _ _).trans Script.Session.plain_start.metatable)
  have hstrings : pushed.heap.ShowsStrings :=
    Script.Session.showsStrings_withGlobals Script.Session.showsStrings_start _
  let source := Script.Chunk.sourceOf ("=".toUTF8 ++ name.toUTF8)
  let s : Session := { pushed with heap := Session.defined pushed.heap entryPoint body notes source }
  have hexec : pushed.exec name.toUTF8 text.toUTF8 = (.ok (), s) :=
    Script.Session.exec_defining hpushed hname h.isText (hread source) h.captures
  have hmain := Script.Session.hasFunction_defined hpushed hstrings entryPoint body notes source
  refine ⟨s, ?_, ⟨⟨_, rfl, hmain⟩, fun n hn => ?_⟩⟩
  · obtain ⟨id, hentry, -⟩ := entryOf_eq hmain
    rw [configure, pushGlobals_eq Script.Session.plain_start]
    simp only [h.filled, Bool.false_eq_true, if_false]
    rw [hexec]
    simp only [s, hentry]
  · rw [Script.Session.globalTable_defined, Script.Table.get_set, if_neg (by simpa [Script.Session.keyOf_inj] using hn),
      Script.Session.globalTable_withGlobals, get_pushGlobals]

theorem ofParts_entry {name text : String} {body : Code} (entries : List (String × Float)) (h : IsEntry text body)
    (hname : Session.nameFailure? name.toUTF8 = none) :
    ∃ s, ofParts name entries text = .ok ⟨name, text, .ofList entries, .valid s⟩ ∧ Serves s body (.ofList entries) := by
  obtain ⟨s, hconfigure, hs⟩ := configure_entry (.ofList entries) h hname
  refine ⟨s, ?_, hs⟩
  have hglobals : ((new name).setGlobals entries).globals = .ofList entries := rfl
  have hrule : ((new name).setGlobals entries).name = name := rfl
  rw [ofParts, prepare, setCode, hrule, hglobals, hconfigure]

/-! Calls of `main`. -/

section

variable {s : Session} {c : Closure} {args : List Float} {n : Nat} {heap : Script.Heap}

theorem evaluateIn_eq (h : s.HasFunction entryPoint c) (args : List Float) :
    ∃ id, s.heap.closures.getD id default = c ∧
      evaluateIn s args = match s.call (.closure id) (args.map Value.float).toArray with
        | (.error f, s) => (.error (.failedCall f.text), s)
        | (.ok values, s) => (numberOf (values.getD 0 .nil), s) := by
  obtain ⟨id, hentry, hid⟩ := entryOf_eq h
  refine ⟨id, hid, ?_⟩
  unfold evaluateIn
  exact hentry ▸ rfl

theorem length_le_maxArguments (hroom : Machine.firstBase + args.length + c.code.stack ≤ Activation.stackLimit) :
    (args.map Value.float).toArray.size ≤ Session.maxArguments := by
  simp only [Machine.firstBase, Machine.stackTop] at hroom
  simp only [Session.maxArguments, List.size_toArray, List.length_map]
  omega

variable (h : s.HasFunction entryPoint c) (hparams : c.code.params = 0) (hvarargs : c.code.isVarargs = true)
  (hroom : Machine.firstBase + args.length + c.code.stack ≤ Activation.stackLimit) (hn : n + 1 < Machine.maxSteps)

include h hparams hvarargs hroom hn

theorem evaluateIn_of_returned {values : Array Value}
    (hrun : Machine.Reaches n (s.entering c (args.map Value.float).toArray)
      (.finished (.ok values) heap s.parked)) :
    evaluateIn s args = (numberOf (values.getD 0 .nil), { s with heap := heap }) := by
  obtain ⟨id, hid, heq⟩ := evaluateIn_eq h args
  have hcall := Machine.call_eq (.enter hid hparams hvarargs (by simpa using hroom) hrun) hn
  rw [heq, Script.Session.call_of_ended h.plain.running (length_le_maxArguments hroom) hcall]

theorem evaluateIn_of_raised {e : ByteArray}
    (hrun : Machine.Reaches n (s.entering c (args.map Value.float).toArray)
      (.finished (.error (.string e)) heap s.parked)) :
    ∃ reason, evaluateIn s args = (.error (.failedCall reason), { s with heap := heap }) := by
  obtain ⟨id, hid, heq⟩ := evaluateIn_eq h args
  have hcall := Machine.call_eq (.enter hid hparams hvarargs (by simpa using hroom) hrun) hn
  obtain ⟨failure, hfailure⟩ :=
    Script.Session.call_of_raised h.plain.running (length_le_maxArguments hroom) hcall
  exact ⟨failure.text, by rw [heq, hfailure]⟩

end

/-- A call without room for its own variables fails and leaves everything as it is. -/
theorem evaluateIn_overflow {s : Session} {c : Closure} (h : s.HasFunction entryPoint c) {args : List Float}
    (hroom : Activation.stackLimit < Machine.firstBase + args.length + c.code.stack) :
    ∃ reason, evaluateIn s args = (.error (.failedCall reason), s) := by
  obtain ⟨id, hid, heq⟩ := evaluateIn_eq h args
  by_cases hargs : (args.map Value.float).toArray.size ≤ Session.maxArguments
  · obtain ⟨e, hrun⟩ := Machine.reaches_enter_overflow h.strings hid
      (args.map Value.float).toArray s.parked (by simpa using hroom)
    obtain ⟨failure, hfailure⟩ :=
      Script.Session.call_of_raised h.plain.running hargs (Machine.call_eq hrun (by decide))
    exact ⟨failure.text, by rw [heq, hfailure]⟩
  · refine ⟨Session.tooManyArguments.text, ?_⟩
    rw [heq, Script.Session.call, h.plain.running, if_neg (by decide), if_pos (Nat.lt_of_not_le hargs)]

/-- A call that does not fit on the stack fails, at once or when it hands on its arguments. -/
theorem evaluateIn_of_not_fits {s : Session} {c : Closure} (h : s.HasFunction entryPoint c)
    (hparams : c.code.params = 0) (hvarargs : c.code.isVarargs = true) {args : List Float} {heap : Script.Heap}
    (hands : (Activation.entered c (args.map Value.float).toArray Machine.firstBase).HandsOn s.heap heap)
    (hh : heap.ShowsStrings) (hfits : ¬ c.code.Fits args.length) :
    ∃ reason, evaluateIn s args = (.error (.failedCall reason), s) ∨
      evaluateIn s args = (.error (.failedCall reason), { s with heap := heap }) := by
  rw [Code.fits_iff, not_and_or, Nat.not_le, Nat.not_le] at hfits
  rcases Nat.lt_or_ge Activation.stackLimit (Machine.firstBase + args.length + c.code.stack) with hroom | hroom
  · exact (evaluateIn_overflow h hroom).imp fun _ => .inl
  · have hlarge := hfits.resolve_left (Nat.not_lt.2 hroom)
    obtain ⟨e, hrun⟩ := Machine.reaches_varargs_overflow hands hh (by
      simp only [Activation.entered, Array.size_replicate, List.size_toArray, List.length_map, Machine.firstBase]
      omega) s.parked
    exact (evaluateIn_of_raised h hparams hvarargs hroom (by decide) hrun).imp fun _ => .inr

end Gauge.Rule
