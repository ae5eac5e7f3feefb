import Gauge.Script.Machine

/-!
Runs of the machine, put together from steps. A run that comes to its end in few enough steps is what a call or a
program of the host answers with.
-/

namespace Gauge.Script.Machine

/-- From one control the machine comes to another in at most so many steps. -/
inductive Reaches : Nat → Control → Control → Prop where
  | refl (n : Nat) (c : Control) : Reaches n c c
  | step {n : Nat} {c last : Control} (h : Reaches n (advance c) last) : Reaches (n + 1) c last

theorem Reaches.mono {m n : Nat} {c last : Control} (h : Reaches m c last) (hle : m ≤ n) : Reaches n c last := by
  induction h generalizing n with
  | refl => exact .refl n _
  | step _ ih =>
      obtain ⟨n, rfl⟩ : ∃ k, n = k + 1 := ⟨n - 1, by omega⟩
      exact .step (ih (by omega))

theorem Reaches.trans {m n : Nat} {c middle last : Control} (h : Reaches m c middle) (h' : Reaches n middle last) :
    Reaches (m + n) c last := by
  induction h with
  | refl m => exact h'.mono (by omega)
  | step _ ih => exact (Reaches.step (ih h')).mono (by omega)

theorem Reaches.run_eq {n fuel : Nat} {c : Control} {r : Except Value (Array Value)} {h : Heap}
    {parked : Array (List Frame)} (hreach : Reaches n c (.finished r h parked)) (hfuel : n < fuel) :
    run fuel c = .ended r h parked := by
  generalize hlast : Control.finished r h parked = last at hreach
  induction hreach generalizing fuel with
  | refl n =>
      obtain ⟨fuel, rfl⟩ : ∃ k, fuel = k + 1 := ⟨fuel - 1, by omega⟩
      subst hlast
      rfl
  | @step n c last _ ih =>
      obtain ⟨fuel, rfl⟩ : ∃ k, fuel = k + 2 := ⟨fuel - 2, by omega⟩
      have hrun := ih (by omega : n < fuel + 1) hlast
      cases c with
      | finished => exact hrun
      | exited => cases hrun
      | _ => exact hrun

theorem call_eq {n : Nat} {f : Value} {args : Array Value} {parked parked' : Array (List Frame)} {h h' : Heap}
    {r : Except Value (Array Value)}
    (hreach : Reaches n (.apply f args ⟨h, [.bottom], 0, parked, [], 1⟩) (.finished r h' parked'))
    (hn : n < maxSteps) : call f args parked h = .ended r h' parked' :=
  hreach.run_eq hn

/-- A program that asks for nothing is done at once. -/
theorem perform_of_done {p : Native (Array Value)} {values : Array Value} {h h' : Heap}
    (hp : p h = .done values h') (parked : Array (List Frame)) :
    perform p parked h = .ended (.ok values) h' parked := by
  rw [perform, hp]
  exact Reaches.run_eq (n := 2) (.step (.step (.refl 0 _))) (by decide)

end Gauge.Script.Machine
