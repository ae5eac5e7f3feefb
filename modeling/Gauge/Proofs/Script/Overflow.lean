import Gauge.Proofs.Script.Activation

/-!
Errors that no call takes in. The host has them turned into text, by a function of the language, before they reach it.
-/

namespace Gauge.Script

/-- Nothing but the string itself has a say in the text that shows a string. -/
structure Heap.ShowsStrings (h : Heap) : Prop where
  known : h.stringMeta < h.tables.size
  apart : h.stringMeta ≠ h.globals
  tostring : (h.table h.stringMeta).getSlot (.string Event.tostring) = .nil

theorem Base.tostring_string {h : Heap} (hh : h.ShowsStrings) (s : ByteArray) :
    Base.tostring #[.string s] h = .done #[.string s] h := by
  have hmeta : h.metamethod (.string s) Event.tostring = .nil := hh.tostring
  have hany : Args.any #[.string s] 1 h = .done (.string s) h := rfl
  simp only [Base.tostring, Native.toText, Native.metamethod, Bind.bind, Native.bind, Native.read, hany, hmeta]
  rfl

namespace Machine

variable {heap : Heap}

/-- Calls that leave an error to the host: one that is about to begin, or one that has nothing to close. -/
inductive Exposed : List Frame → Prop where
  | bottom : Exposed [.bottom]
  | script {a : Activation} (h : a.toClose = []) : Exposed [.script a, .bottom]

theorem reaches_raised {frames : List Frame} (hexposed : Exposed frames) (hh : heap.ShowsStrings) (owner : Owner)
    (message : ByteArray) (parked : Array (List Frame)) :
    ∃ e, Reaches 5 (.fault owner (.atOperation message) ⟨heap, frames, 0, parked, [], 1⟩)
      (.finished (.error (.string e)) heap parked) := by
  have hhandler (e : ByteArray) : handler? (.string e) frames = some (.builtin (.base .tostring)) := by
    cases hexposed <;> rfl
  have hleave (m : Machine) (hm : m.frames = frames) (e : Value) :
      unwind e m = .finished (.error e) m.heap m.parked := by
    cases hexposed with
    | bottom => simp only [unwind, hm, leaveCalls]
    | script h => simp [unwind, hm, leaveCalls, closersOf, h]
  obtain ⟨e, he⟩ : ∃ e, faultValue owner frames (.atOperation message) = .string e := ⟨_, rfl⟩
  refine ⟨e, .step ?_⟩
  simp only [advance, fault, raise, he, hhandler]
  rw [if_neg (by decide)]
  refine .builtin (f := .base .tostring) (Base.tostring_string hh _) (.step ?_)
  simp only [advance, give]
  refine .step ?_
  simp only [advance, hleave]
  exact .refl 0 _

end Machine

/-- A call comes to the point where it hands on its extra arguments, which are as they were when it began. -/
inductive Activation.HandsOn (a : Activation) (h h' : Heap) : Prop where
  | intro {n dst : Nat} {b : Activation} (hn : n < Machine.slice) (hsteps : a.Steps n h b h')
      (hi : b.Runs (.varargs dst .all)) (base : b.base = a.base) (slots : b.slots.size = a.slots.size)
      (varargs : b.varargs = a.varargs) (toClose : b.toClose = [])

/-- Where there is no room for that, the call fails. -/
theorem Machine.reaches_varargs_overflow {a : Activation} {h h' : Heap} (hands : a.HandsOn h h')
    (hh : h'.ShowsStrings) (hroom : Activation.stackLimit < a.base + a.slots.size + a.varargs.size)
    (parked : Array (List Frame)) :
    ∃ e, Reaches 6 (.go ⟨h, [.script a, .bottom], 0, parked, [], 1⟩) (.finished (.error (.string e)) h' parked) := by
  obtain ⟨hn, hsteps, hi, base, slots, varargs, toClose⟩ := hands
  rename_i n dst b
  rw [← base, ← slots, ← varargs] at hroom
  obtain ⟨e, he⟩ := reaches_raised (.script (a := b.fetched) toClose) hh .operation "stack overflow".toUTF8 parked
  exact ⟨e, .go hsteps (Activation.exec_varargs_overflow hi hroom) rfl hn he⟩

end Gauge.Script
