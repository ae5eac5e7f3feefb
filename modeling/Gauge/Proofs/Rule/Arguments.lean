import Gauge.Proofs.Rule.Entry
import Gauge.Proofs.Script.Base
import Gauge.Proofs.Script.Whole

/-!
Numbers that are handed to a rule's function and come back. The function sees each of them, at its place and as it is,
and it sees how many there are, for as many of them as fit on the stack.
-/

namespace Gauge.Rule

open Script (Session Value Activation Machine Code Closure)
open Script.Session (keyOf)

/-- The code of a function that gives the argument whose place is in the variable `k`. -/
def picking : Code :=
  { params := 0, isVarargs := true, slots := 2, cells := 0, stack := 3
    instrs := #[.index 0 (.captured 0) (.constant (.ofString "select")),
      .index 1 (.captured 0) (.constant (.ofString "k")), .varargs 0 .all, .call 0 ⟨1, 1, true⟩ (.exactly 1),
      .return ⟨0, 1, false⟩, .return ⟨0, 0, false⟩]
    notes := #[⟨1, #[.captured "_ENV".toUTF8]⟩, ⟨1, #[.captured "_ENV".toUTF8]⟩, ⟨0, #[]⟩,
      ⟨1, #[.global "select".toUTF8]⟩, ⟨1, #[]⟩, ⟨0, #[]⟩]
    captures := #[.captured 0]
    inner := #[] }

def pickingText : String := "function main(...) return (select(k, ...)) end"

theorem isEntry_picking : IsEntry pickingText picking :=
  .of_read #[⟨0, #[]⟩, ⟨1, #[.captured "_ENV".toUTF8]⟩, ⟨0, #[]⟩] (by decide +kernel) (by decide +kernel)
    (by decide +kernel) rfl rfl rfl

section

variable {s : Session} {c : Closure} (h : s.HasFunction entryPoint c)
  (hselect : s.globalTable.get (keyOf "select") = .builtin (.base .select))

include h hselect

theorem steps_picking (hc : c.code = picking) {x : Float} (hk : s.globalTable.get (keyOf "k") = .float x)
    (args : Array Value) :
    (Activation.entered c args Machine.firstBase).Steps 2 s.heap
      { Activation.entered c args Machine.firstBase with slots := #[.builtin (.base .select), .float x], pc := 2 }
      s.heap := by
  obtain ⟨code, captured, source⟩ := c
  subst hc
  refine .next (h.exec_index "select" (d := 0) rfl rfl) ?_
  rw [hselect]
  refine .next (h.exec_index "k" (d := 1) rfl rfl) ?_
  rw [hk]
  exact .refl _ _

theorem reaches_picking (hc : c.code = picking) {x : Float} (hk : s.globalTable.get (keyOf "k") = .float x)
    {n : Int64} (hx : Script.Numeral.float? x = some n) (hn : 1 ≤ n.toInt) {args : Array Value}
    (hroom : Machine.firstBase + args.size + 2 + args.size ≤ Activation.stackLimit) :
    Machine.Reaches 10 (s.entering c args)
      (.finished (.ok #[args.getD (n.toInt.toNat - 1) .nil]) s.heap s.parked) := by
  have hsteps := steps_picking h hselect hc hk args
  obtain ⟨code, captured, source⟩ := c
  subst hc
  obtain ⟨results, hresults, hfirst⟩ := Script.Base.select_integer s.heap hx hn args
  rw [← hfirst]
  refine .go (hsteps.trans (.next (Activation.exec_varargs rfl hroom) (.refl _ _))) (Activation.exec_call rfl rfl) rfl
    (by decide) ?_
  refine .builtin (f := .base .select) hresults (.deliver rfl ?_)
  refine .go (n := 0) (.refl _ _) (Activation.exec_return rfl rfl rfl) rfl (by decide) ?_
  exact Machine.reaches_finished.mono (by decide)

theorem handsOn_picking (hc : c.code = picking) {x : Float} (hk : s.globalTable.get (keyOf "k") = .float x)
    (args : Array Value) : (Activation.entered c args Machine.firstBase).HandsOn s.heap s.heap := by
  have hsteps := steps_picking h hselect hc hk args
  obtain ⟨code, captured, source⟩ := c
  subst hc
  exact .intro (by decide) hsteps rfl rfl rfl rfl rfl

end

/-- The code of a function that gives the number of its arguments. -/
def counting : Code :=
  { params := 0, isVarargs := true, slots := 2, cells := 0, stack := 3
    instrs := #[.index 0 (.captured 0) (.constant (.ofString "select")), .move 1 (.constant (.ofString "#")),
      .varargs 0 .all, .tailCall 0 ⟨1, 1, true⟩, .return ⟨0, 0, false⟩]
    notes := #[⟨1, #[.captured "_ENV".toUTF8]⟩, ⟨0, #[]⟩, ⟨0, #[]⟩, ⟨1, #[.global "select".toUTF8]⟩, ⟨0, #[]⟩]
    captures := #[.captured 0]
    inner := #[] }

def countingText : String := "function main(...) return select('#', ...) end"

theorem isEntry_counting : IsEntry countingText counting :=
  .of_read #[⟨0, #[]⟩, ⟨1, #[.captured "_ENV".toUTF8]⟩, ⟨0, #[]⟩] (by decide +kernel) (by decide +kernel)
    (by decide +kernel) rfl rfl rfl

section

variable {s : Session} {c : Closure} (h : s.HasFunction entryPoint c)
  (hselect : s.globalTable.get (keyOf "select") = .builtin (.base .select)) (hc : c.code = counting)

include h hselect hc

theorem steps_counting (args : Array Value) :
    (Activation.entered c args Machine.firstBase).Steps 2 s.heap
      { Activation.entered c args Machine.firstBase with
        slots := #[.builtin (.base .select), .ofString "#"], pc := 2 } s.heap := by
  obtain ⟨code, captured, source⟩ := c
  subst hc
  refine .next (h.exec_index "select" (d := 0) rfl rfl) ?_
  rw [hselect]
  exact .next (Activation.exec_move (d := 1) rfl) (.refl _ _)

theorem reaches_counting {args : Array Value}
    (hroom : Machine.firstBase + args.size + 2 + args.size ≤ Activation.stackLimit) :
    Machine.Reaches 10 (s.entering c args)
      (.finished (.ok #[.ofNat args.size]) s.heap s.parked) := by
  have hsteps := steps_counting h hselect hc args
  obtain ⟨code, captured, source⟩ := c
  subst hc
  refine .go (hsteps.trans (.next (Activation.exec_varargs rfl hroom) (.refl _ _)))
    (Activation.exec_tailCall rfl rfl) rfl (by decide) ?_
  refine .builtin (f := .base .select) (Script.Base.select_count s.heap args) (.deliver_tailCall rfl rfl ?_)
  exact Machine.reaches_finished.mono (by decide)

theorem handsOn_counting (args : Array Value) :
    (Activation.entered c args Machine.firstBase).HandsOn s.heap s.heap := by
  have hsteps := steps_counting h hselect hc args
  obtain ⟨code, captured, source⟩ := c
  subst hc
  exact .intro (by decide) hsteps rfl rfl rfl rfl rfl

end

/-! What a rule answers. -/

/-- The answer of a rule whose function gives a value and leaves the session as it is: an error where there is no room
for the call. -/
theorem evaluate_eq_of_runs {r : Rule} {s : Session} (hr : r.status = .valid s) {c : Closure} {body : Code}
    (hc : c.code = body) (h : s.HasFunction entryPoint c) (hparams : body.params = 0)
    (hvarargs : body.isVarargs = true) {m : List Float} {args : Array Value}
    (hargs : args = (m.map Value.float).toArray) {value : Value}
    (hruns : Machine.firstBase + args.size + body.slots + args.size ≤ Activation.stackLimit →
      Machine.Reaches 10 (s.entering c args) (.finished (.ok #[value]) s.heap s.parked))
    (hands : (Activation.entered c args Machine.firstBase).HandsOn s.heap s.heap) :
    if body.Fits m.length then (r.evaluate m).1 = (numberOf value).mapError r.error
    else ∃ reason, (r.evaluate m).1 = .error (r.error (.failedCall reason)) := by
  subst hc hargs
  have hsize : (m.map Value.float).toArray.size = m.length := by simp
  simp only [evaluate, hr]
  split
  · rename_i hfits
    rw [Code.fits_iff] at hfits
    rw [evaluateIn_of_returned h hparams hvarargs hfits.1 (by decide) (hruns (hsize.symm ▸ hfits.2))]
    rfl
  · rename_i hfits
    obtain ⟨reason, heq | heq⟩ := evaluateIn_of_not_fits h hparams hvarargs hands h.strings hfits <;>
      exact ⟨reason, by rw [heq]; rfl⟩

theorem numberOf_getD (m : List Float) (i : Nat) :
    numberOf ((m.map Value.float).toArray.getD i .nil) =
      match m[i]? with
      | some x => .ok x
      | none => .error (.notANumber "nil") := by
  rw [Array.getD_eq_getD_getElem?, List.getElem?_toArray, List.getElem?_map]
  cases m[i]? <;> rfl

theorem numberOf_ofNat {n : Nat} (h : n < 2 ^ 63) : numberOf (.ofNat n) = .ok n.toUInt64.toFloat :=
  congrArg Except.ok (Script.Numeral.ofInt64_ofNat h)

/-- Arguments come through as they are. For every place the function that picks the argument there answers with the
very number that was handed in at this place, or with nil where there are fewer; and the function that counts its
arguments gives their number. Where the arguments do not fit on the stack the call fails. -/
theorem arguments_cross {k : Nat} (hk : 1 ≤ k) (hmax : k ≤ 2 ^ 53) (m : List Float) :
    (∃ r, ofParts "r" [("k", k.toUInt64.toFloat)] pickingText = .ok r ∧
      if picking.Fits m.length then
        (r.evaluate m).1 = match m[k - 1]? with
          | some x => .ok x
          | none => .error ⟨"r", .notANumber "nil"⟩
      else ∃ reason, (r.evaluate m).1 = .error ⟨"r", .failedCall reason⟩) ∧
    ∃ r, ofParts "r" [] countingText = .ok r ∧
      if counting.Fits m.length then (r.evaluate m).1 = .ok m.length.toUInt64.toFloat
      else ∃ reason, (r.evaluate m).1 = .error ⟨"r", .failedCall reason⟩ := by
  have hstart : ("select", .builtin (.base .select)) ∈ Session.startEntries := by decide +kernel
  have hname : Session.nameFailure? "r".toUTF8 = none := by decide +kernel
  constructor
  · have hfloat := Script.Numeral.float?_toFloat hmax
    generalize k.toUInt64.toFloat = x at hfloat ⊢
    obtain ⟨s, hr, hs⟩ := ofParts_entry [("k", x)] isEntry_picking hname
    have hselect := hs.get_start (by decide) ((get?_ofList _ _).trans rfl) hstart
    have hplace : s.globalTable.get (keyOf "k") = .float x := hs.get_number (by decide) ((get?_ofList _ _).trans rfl)
    obtain ⟨c, hc, h⟩ := hs.main
    have hk63 : (Int64.ofNat k).toInt = k := Int64.toInt_ofNat_of_lt (by omega)
    have hone : 1 ≤ (Int64.ofNat k).toInt := by omega
    refine ⟨_, hr, ?_⟩
    have hanswer := evaluate_eq_of_runs (r := ⟨"r", pickingText, .ofList [("k", x)], .valid s⟩) rfl hc h rfl rfl rfl
      (reaches_picking h hselect hc hplace hfloat hone)
      (handsOn_picking h hselect hc hplace (m.map Value.float).toArray)
    rw [hk63, Int.toNat_natCast, numberOf_getD] at hanswer
    cases hm : m[k - 1]? <;> rw [hm] at hanswer <;> exact hanswer
  · obtain ⟨s, hr, hs⟩ := ofParts_entry [] isEntry_counting hname
    have hselect := hs.get_start (by decide) rfl hstart
    obtain ⟨c, hc, h⟩ := hs.main
    refine ⟨_, hr, ?_⟩
    have hanswer := evaluate_eq_of_runs (r := ⟨"r", countingText, .ofList [], .valid s⟩) rfl hc h rfl rfl rfl
      (reaches_counting h hselect hc) (handsOn_counting h hselect hc (m.map Value.float).toArray)
    split
    · rename_i hfits
      have hsmall : m.length < 2 ^ 63 := by
        have := Code.fits_iff.1 hfits
        rw [Activation.stackLimit] at this
        omega
      rw [if_pos hfits, List.size_toArray, List.length_map, numberOf_ofNat hsmall] at hanswer
      exact hanswer
    · rename_i hfits
      rw [if_neg hfits] at hanswer
      exact hanswer

theorem arguments_cross_second :
    1 ≤ 2 ∧ 2 ≤ 2 ^ 53 ∧
      (∃ r, ofParts "r" [("k", (2 : Nat).toUInt64.toFloat)] pickingText = .ok r ∧
        (r.evaluate [1.5, -0.0, 7]).1 = .ok (-0.0)) ∧
      ∃ r, ofParts "r" [] countingText = .ok r ∧ (r.evaluate [1.5, -0.0, 7]).1 = .ok (3 : Nat).toUInt64.toFloat := by
  obtain ⟨⟨r, hr, hpicked⟩, r', hr', hcounted⟩ := arguments_cross (k := 2) (by decide) (by decide) [1.5, -0.0, 7]
  rw [if_pos (by decide)] at hpicked hcounted
  exact ⟨by decide, by decide, ⟨r, hr, hpicked⟩, r', hr', hcounted⟩

end Gauge.Rule
