import Gauge.Rule

/-!
What rules' scripts leave behind on the streams. The output of transcripts one after another is their output
one after another, however it is held back, and those that leave the output alone make no difference to it.
A script that has ended the program has no success to show.
-/

namespace Gauge.Script

namespace Streams

theorem output_write (s : Streams) (text : ByteArray) : (s.write text).output = s.output ++ text := by
  simp only [write]
  split
  · rfl
  · split <;> rfl
  · split <;> rfl

theorem output_setBuffering (s : Streams) (b : Buffering) : (s.setBuffering b).output = s.output := by
  simp only [setBuffering]
  split <;> rfl

/-- Output that was there before stays in front of what acts put out. -/
theorem output_foldl_after {s s' : Streams} {before : ByteArray} (h : s.output = before ++ s'.output)
    (acts : List StreamAct) :
    (acts.foldl after s).output = before ++ (acts.foldl after s').output := by
  induction acts generalizing s s' with
  | nil => exact h
  | cons a acts ih =>
      refine ih ?_
      cases a with
      | write text => simp only [after, output_write, h, ByteArray.append_assoc]
      | setBuffering b => simp only [after, output_setBuffering, h]
      | release | complain text => exact h

/-- Nothing is different but the complaints. -/
structure SameOutput (s s' : Streams) : Prop where
  output : s.output = s'.output
  released : s.released = s'.released
  buffering : s.buffering = s'.buffering

theorem SameOutput.after {s s' : Streams} (h : SameOutput s s') (a : StreamAct) :
    SameOutput (s.after a) (s'.after a) := by
  obtain ⟨output, released, buffering, complaints⟩ := s
  obtain ⟨output', released', buffering', complaints'⟩ := s'
  obtain ⟨rfl, rfl, rfl⟩ := h
  cases a with
  | release | complain text => exact ⟨rfl, rfl, rfl⟩
  | setBuffering b =>
      simp only [Streams.after, setBuffering]
      split <;> exact ⟨rfl, rfl, rfl⟩
  | write text =>
      cases buffering <;> simp only [Streams.after, write]
      case never => exact ⟨rfl, rfl, rfl⟩
      case byLine => cases afterLastLine? text <;> exact ⟨rfl, rfl, rfl⟩
      case bySize => split <;> exact ⟨rfl, rfl, rfl⟩

theorem SameOutput.foldl_after {s s' : Streams} (h : SameOutput s s') (acts : List StreamAct) :
    SameOutput (acts.foldl Streams.after s) (acts.foldl Streams.after s') := by
  induction acts generalizing s s' with
  | nil => exact h
  | cons a acts ih => exact ih (h.after a)

theorem SameOutput.trans {s s' s'' : Streams} (h : SameOutput s s') (h' : SameOutput s' s'') :
    SameOutput s s'' :=
  ⟨h.output.trans h'.output, h.released.trans h'.released, h.buffering.trans h'.buffering⟩

/-- Complaints alone leave the output as it is. -/
theorem sameOutput_foldl_complain {acts : List StreamAct}
    (complaints : ∀ a ∈ acts, ∃ text, a = .complain text) (s : Streams) :
    SameOutput (acts.foldl after s) s := by
  induction acts generalizing s with
  | nil => exact ⟨rfl, rfl, rfl⟩
  | cons a acts ih =>
      obtain ⟨text, rfl⟩ := complaints a List.mem_cons_self
      obtain ⟨output, released, buffering⟩ :=
        ih (fun a ha => complaints a (List.mem_cons_of_mem _ ha)) (s.after (.complain text))
      exact ⟨output, released, buffering⟩

end Streams

namespace Transcript

theorem streams_eq (t : Transcript) : t.streams = t.acts.toList.foldl Streams.after .start :=
  (Array.foldl_toList _).symm

@[simp]
theorem exit_append (t u : Transcript) : (t.append u).exit = t.exit.or u.exit := by
  cases h : t.exit <;> simp [append, h]

theorem streams_append {t : Transcript} (running : t.exit = none) (u : Transcript) :
    (t.append u).streams = u.acts.toList.foldl Streams.after t.streams := by
  simp [streams_eq, append, running]

theorem output_append {t : Transcript} (running : t.exit = none) (u : Transcript) :
    (t.append u).streams.output = t.streams.output ++ u.streams.output := by
  rw [streams_append running, streams_eq u]
  exact Streams.output_foldl_after (by simp [Streams.start]) _

@[simp]
theorem empty_append (t : Transcript) : empty.append t = t := by
  simp [append, empty]

/-- Two transcripts make the same of the output, and of the program. -/
structure Matches (t u : Transcript) : Prop where
  exit : t.exit = u.exit
  output : ∀ s s' : Streams, s.SameOutput s' →
    (t.acts.toList.foldl Streams.after s).SameOutput (u.acts.toList.foldl Streams.after s')

theorem Matches.refl (t : Transcript) : t.Matches t :=
  ⟨rfl, fun _ _ h => h.foldl_after _⟩

theorem Matches.append {t u : Transcript} (h : t.Matches u) (v : Transcript) :
    (t.append v).Matches (u.append v) := by
  cases hu : u.exit with
  | some code => simpa [Transcript.append, h.exit, hu] using h
  | none =>
      refine ⟨by simp [h.exit], fun s s' hs => ?_⟩
      simpa [Transcript.append, h.exit, hu] using (h.output s s' hs).foldl_after v.acts.toList

/-- The script has let the program run on and has left its output alone: it has written nothing to it, let
nothing out, and not changed how it is held back. -/
structure IsQuiet (t : Transcript) : Prop where
  running : t.exit = none
  complaints : ∀ a ∈ t.acts, ∃ text, a = .complain text

theorem Matches.append_quiet {t u q : Transcript} (h : t.Matches u) (quiet : q.IsQuiet) :
    (t.append q).Matches u := by
  cases hu : u.exit with
  | some code => simpa [Transcript.append, h.exit, hu] using h
  | none =>
      refine ⟨by simp [h.exit, hu, quiet.running], fun s s' hs => ?_⟩
      have hsame := Streams.sameOutput_foldl_complain
        (fun a ha => quiet.complaints a (Array.mem_toList_iff.mp ha))
        (t.acts.toList.foldl Streams.after s)
      simpa [Transcript.append, h.exit, hu] using hsame.trans (h.output s s' hs)

end Transcript

/-! The end of the program. -/

namespace Session

variable {s s' : Session}

theorem exit_of_finish {e : Machine.Ending} {values : Array Value}
    (h : s.finish e = (.ok values, s')) : s'.exit = none := by
  cases e with
  | exited code heap | outOfFuel => cases h
  | ended r heap parked =>
      cases r with
      | error v => cases h
      | ok v => cases h; rfl

theorem exit_of_perform {p : Native (Array Value)} {values : Array Value}
    (h : s.perform p = (.ok values, s')) : s'.exit = none := by
  simp only [perform] at h
  split at h
  · cases h
  · exact exit_of_finish h

theorem exit_of_call {f : Value} {args : Array Value} {values : Array Value}
    (h : s.call f args = (.ok values, s')) : s'.exit = none := by
  simp only [call] at h
  split at h
  · cases h
  · split at h
    · cases h
    · exact exit_of_finish h

theorem exit_of_global {name : String} {v : Value} (h : s.global name = (.ok v, s')) :
    s'.exit = none := by
  simp only [global] at h
  generalize hp : s.perform _ = p at h
  obtain ⟨r, s''⟩ := p
  cases r with
  | error f => cases h
  | ok values => cases h; exact exit_of_perform hp

end Session

end Gauge.Script

namespace Gauge.Rule

theorem exit_of_entryOf {s s' : Script.Session} {main : Option Script.Value}
    (h : entryOf s = (.ok main, s')) : s'.exit = none := by
  simp only [entryOf] at h
  cases hg : s.global entryPoint with
  | mk r s'' =>
      rw [hg] at h
      cases r with
      | error f => cases h
      | ok v => cases h; exact Script.Session.exit_of_global hg

theorem exit_of_configure {name code : String} {g : Globals} {s : Script.Session}
    (h : configure name g code = (s, none)) : s.exit = none := by
  simp only [configure] at h
  split at h
  · cases h
  · split at h
    · cases h
    · split at h
      · cases h
      · cases h
      · rename_i he
        cases h
        exact exit_of_entryOf he

theorem exit_of_prepare {name code : String} {entries : List (String × Float)} {r : Rule}
    (h : prepare name entries code = (.ok (), r)) : r.transcript.exit = none := by
  simp only [prepare, setCode] at h
  split at h
  · rename_i hc
    cases h
    exact exit_of_configure hc
  · cases h

theorem exit_of_evaluateIn {s s' : Script.Session} {args : List Float} {x : Float}
    (h : evaluateIn s args = (.ok x, s')) : s'.exit = none := by
  simp only [evaluateIn] at h
  split at h
  · cases h
  · cases h
  · split at h
    · cases h
    · rename_i hc
      obtain ⟨-, rfl⟩ := Prod.mk.inj h
      exact Script.Session.exit_of_call hc

theorem exit_of_evaluate {r : Rule} {args : List Float} {x : Float}
    (h : (r.evaluate args).1 = .ok x) : (r.evaluate args).2.transcript.exit = none := by
  cases hs : r.status with
  | unconfigured | invalid s => simp [evaluate, hs] at h
  | valid s =>
      simp only [evaluate, hs] at h ⊢
      cases he : evaluateIn s args with
      | mk result s' =>
          rw [he] at h
          cases result with
          | error fault => cases h
          | ok y => exact exit_of_evaluateIn he

end Gauge.Rule
