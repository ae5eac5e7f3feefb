import Gauge.Proofs.Rule.Entry
import Gauge.Proofs.Rule.History
import Gauge.Proofs.Script.Base

/-!
A function that puts its arguments into a table and adds them up one after another. What it makes is gone when it
returns but for the table, which nothing refers to any more; so that each call answers for its own arguments alone.
-/

namespace Gauge.Rule

open Script (Session Value Activation Machine Code Closure Table Control)
open Script.Session (keyOf)
open Script.Machine (Reaches)

/-- The code of a function that adds up its arguments. -/
def summing : Code :=
  { params := 0, isVarargs := true, slots := 8, cells := 0, stack := 8
    instrs := #[.move 0 (.constant (.int 0)), .index 1 (.captured 0) (.constant (.ofString "ipairs")),
      .newTable 2 0 0, .varargs 0 .all, .setList 2 ⟨3, 0, true⟩ 1, .call 1 ⟨2, 1, false⟩ (.exactly 4),
      .markToBeClosed 4 "(for state)".toUTF8, .jump 9, .arith .add 0 (.slot 0) (.slot 6), .eachCall 1 2,
      .eachNext 1 8, .closeFrom 4, .move 1 (.slot 0), .return ⟨1, 1, false⟩, .return ⟨0, 0, false⟩]
    notes := #[⟨0, #[]⟩, ⟨4, #[.captured "_ENV".toUTF8]⟩, ⟨4, #[]⟩, ⟨0, #[]⟩, ⟨4, #[]⟩,
      ⟨4, #[.global "ipairs".toUTF8]⟩, ⟨4, #[]⟩, ⟨0, #[]⟩, ⟨5, #[.local "sum".toUTF8, .local "v".toUTF8]⟩,
      ⟨4, #[.loopIterator]⟩, ⟨0, #[]⟩, ⟨0, #[]⟩, ⟨0, #[]⟩, ⟨7, #[]⟩, ⟨0, #[]⟩]
    captures := #[.captured 0]
    inner := #[] }

def summingText : String :=
  "\nfunction main(...)\n    local sum = 0\n    for _, v in ipairs(\x7b...\x7d) do\n" ++
    "        sum = sum + v\n    end\n    return sum\nend\n"

theorem isEntry_summing : IsEntry summingText summing :=
  .of_read #[⟨0, #[]⟩, ⟨2, #[.captured "_ENV".toUTF8]⟩, ⟨0, #[]⟩] (by decide +kernel) (by decide +kernel)
    (by decide +kernel) rfl rfl rfl

/-- The value that a sum is kept as: the integer 0 before anything has been added, then a float. -/
inductive IsSum : Value → Float → Prop where
  | start : IsSum (.int 0) 0
  | float (x : Float) : IsSum (.float x) x

theorem IsSum.numberOf_eq {v : Value} {x : Float} (h : IsSum v x) : numberOf v = .ok x := by
  cases h with
  | start => exact congrArg Except.ok (by decide +kernel)
  | float => rfl

section

variable (c : Closure) (args : Array Value) (list : Nat)

/-- The call in the loop: its sum, how far it is in the list, and the two variables of the loop. -/
def looping (sum : Value) (i : Int64) (k v : Value) (pc : Nat) (d : Script.Delivery) : Activation :=
  { Activation.entered c args Machine.firstBase with
    slots := #[sum, .builtin (.base .ipairsNext), .table list, .int i, .nil, k, v, .nil], pc := pc, delivery := d }

/-- The loop asks for the next entry of the list. -/
def asking (sum : Value) (i : Int64) (k v : Value) (heap : Script.Heap) (parked : Array (List Script.Frame)) :
    Control :=
  .work .operation (.call (.builtin (.base .ipairsNext)) #[.table list, .int i] heap .done)
    ⟨.empty, [.script (looping c args list sum i k v 10 (.slots 5 2)), .bottom], 0, parked, [], 1⟩

variable {c args list} (hc : c.code = summing) {sum : Value} {i : Int64} {k v : Value} {heap : Script.Heap}
  {parked : Array (List Script.Frame)}

include hc

/-- At the end of the list the function returns the sum. -/
theorem reaches_end (hmeta : (heap.table list).metatable = none) (hend : (heap.table list).get (.int (i + 1)) = .nil) :
    Reaches 10 (asking c args list sum i k v heap parked) (.finished (.ok #[sum]) heap parked) := by
  obtain ⟨code, captured, source⟩ := c
  subst hc
  have hnext := Script.Base.ipairsNext_table hmeta i
  rw [hend, if_pos (show Value.nil.isNil = true from rfl)] at hnext
  refine .call_builtin hnext (by decide) (.deliver rfl ?_)
  refine .go (n := 3) (.next (Activation.exec_eachNext_end (b := 1) rfl rfl) (.next (Activation.exec_closeFrom rfl rfl)
    (.next (Activation.exec_move rfl) (.refl _ _)))) (Activation.exec_return rfl rfl rfl) rfl (by decide) ?_
  exact Machine.reaches_finished.mono (by decide)

theorem exec_looping_next {j : Int64} (d : Script.Delivery) :
    (looping c args list sum i (.int j) v 10 d).exec heap = .next (looping c args list sum j (.int j) v 8 d) heap := by
  obtain ⟨code, captured, source⟩ := c
  subst hc
  exact Activation.exec_eachNext (a := looping ⟨summing, captured, source⟩ args list sum i (.int j) v 10 d) (b := 1)
    rfl rfl

theorem exec_looping_add {y x : Float} (d : Script.Delivery) :
    (looping c args list (.float y) i k (.float x) 8 d).exec heap =
      .next (looping c args list (.float (y + x)) i k (.float x) 9 d) heap := by
  obtain ⟨code, captured, source⟩ := c
  subst hc
  exact Activation.exec_arith (a := looping ⟨summing, captured, source⟩ args list (.float y) i k (.float x) 8 d) rfl rfl

/-- An integer and a float are not added by the instruction itself. -/
theorem exec_looping_ask {x : Float} (d : Script.Delivery) :
    (looping c args list (.int 0) i k (.float x) 8 d).exec heap =
      .perform (looping c args list (.int 0) i k (.float x) 9 (.slots 0 1)) (.done #[.float (0 + x)] heap) := by
  obtain ⟨code, captured, source⟩ := c
  subst hc
  exact Activation.exec_arith_asking (a := looping ⟨summing, captured, source⟩ args list (.int 0) i k (.float x) 8 d)
    rfl rfl

/-- When the call has come to the head of the loop, the next entry is asked for. -/
theorem reaches_asking {n : Nat} {a : Activation} {d : Script.Delivery} {h : Script.Heap}
    (hsteps : a.Steps n h (looping c args list sum i k v 9 d) heap) (hn : n < Machine.slice) :
    Reaches 1 (.go ⟨h, [.script a, .bottom], 0, parked, [], 1⟩) (asking c args list sum i k v heap parked) := by
  obtain ⟨code, captured, source⟩ := c
  subst hc
  exact .goEach hsteps (show Activation.Runs _ (.eachCall 1 2) from rfl) rfl rfl hn (.refl 0 _)

/-- An entry is added to what the sum is kept as. -/
theorem reaches_next {y x : Float} (hsum : IsSum sum y) (hmeta : (heap.table list).metatable = none)
    (hentry : (heap.table list).get (.int (i + 1)) = .float x) :
    Reaches 12 (asking c args list sum i k v heap parked)
      (asking c args list (.float (y + x)) (i + 1) (.int (i + 1)) (.float x) heap parked) := by
  have hnext := Script.Base.ipairsNext_table hmeta i
  rw [hentry, if_neg (show ¬ (Value.float x).isNil = true by simp [Value.isNil])] at hnext
  refine .call_builtin hnext (by decide) (.deliver rfl ?_)
  change Reaches 6 (.go ⟨heap, [.script (looping c args list sum i (.int (i + 1)) (.float x) 10 (.slots 5 2)), .bottom],
    0, parked, [], 1⟩) _
  cases hsum with
  | start =>
      refine .go (n := 1) (.next (exec_looping_next hc _) (.refl _ _)) (exec_looping_ask hc _) rfl (by decide) ?_
      refine .deliver rfl ?_
      exact (reaches_asking hc (.refl _ _) (by decide)).mono (by decide)
  | float =>
      refine (reaches_asking hc (n := 2) (d := .slots 5 2) ?_ (by decide)).mono (by decide)
      exact .next (exec_looping_next hc _) (.next (exec_looping_add hc _) (.refl _ _))

/-- The loop adds up the rest of the list from left to right, in so many steps for each entry. -/
theorem reaches_sum {m before rest : List Float} (hm : m = before ++ rest)
    (hmeta : (heap.table list).metatable = none)
    (hentry : ∀ j, j ≤ m.length →
      (heap.table list).get (.int (Int64.ofNat (j + 1))) = (m[j]?.map Value.float).getD .nil)
    {y : Float} (hsum : IsSum sum y) :
    ∃ total, IsSum total (rest.foldl (· + ·) y) ∧
      Reaches (12 * rest.length + 10) (asking c args list sum (Int64.ofNat before.length) k v heap parked)
        (.finished (.ok #[total]) heap parked) := by
  -- on what is still to be added; what has been added is kept as the place in the list
  induction rest generalizing before sum k v y with
  | nil =>
      have hnil := hentry before.length (by simp [hm])
      rw [Int64.ofNat_add] at hnil
      refine ⟨sum, hsum, (reaches_end hc hmeta (hnil.trans ?_)).mono (by omega)⟩
      simp [hm]
  | cons x rest ih =>
      have hx := hentry before.length (by simp [hm])
      rw [Int64.ofNat_add] at hx
      let i := Int64.ofNat before.length
      have hstep : Reaches 12 (asking c args list sum i k v heap parked)
          (asking c args list (.float (y + x)) (i + 1) (.int (i + 1)) (.float x) heap parked) :=
        reaches_next hc hsum hmeta (hx.trans (by simp [hm]))
      have happend : m = (before ++ [x]) ++ rest := by simp [hm]
      obtain ⟨total, htotal, hreach⟩ := ih happend (.float (y + x))
      rw [List.length_append, Int64.ofNat_add] at hreach
      exact ⟨total, htotal, (hstep.trans hreach).mono (by simp only [List.length_cons]; omega)⟩

end

section

variable {s : Session} {c : Closure} (h : s.HasFunction entryPoint c)
  (hipairs : s.globalTable.get (keyOf "ipairs") = .builtin (.base .ipairs)) (hc : c.code = summing)

include h hipairs hc

/-- A table is made before the arguments are handed on. -/
theorem steps_summing (args : Array Value) :
    (Activation.entered c args Machine.firstBase).Steps 3 s.heap
      { Activation.entered c args Machine.firstBase with
        slots := #[.int 0, .builtin (.base .ipairs), .table s.heap.tables.size, .nil, .nil, .nil, .nil, .nil], pc := 3 }
      (s.heap.newTable (Table.ofSizes 0 0)).2 := by
  obtain ⟨code, captured, source⟩ := c
  subst hc
  refine .next (Activation.exec_move (d := 0) rfl) ?_
  refine .next (h.exec_index "ipairs" (d := 1) rfl rfl) ?_
  rw [hipairs]
  exact .next (Activation.exec_newTable (d := 2) rfl) (.refl _ _)

theorem handsOn_summing (args : Array Value) :
    (Activation.entered c args Machine.firstBase).HandsOn s.heap (s.heap.newTable (Table.ofSizes 0 0)).2 := by
  have hsteps := steps_summing h hipairs hc args
  obtain ⟨code, captured, source⟩ := c
  subst hc
  exact .intro (by decide) hsteps rfl rfl rfl rfl rfl

/-- The table of the arguments. -/
def listed (args : Array Value) : Table := (Table.ofSizes 0 0).setList 1 args

/-- The table with all of them in it. -/
theorem steps_summing_setList {args : Array Value}
    (hroom : Machine.firstBase + args.size + 8 + args.size ≤ Activation.stackLimit) :
    (Activation.entered c args Machine.firstBase).Steps 5 s.heap
      { Activation.entered c args Machine.firstBase with
        slots := #[.int 0, .builtin (.base .ipairs), .table s.heap.tables.size, .nil, .nil, .nil, .nil, .nil], pc := 5 }
      (s.heap.newTable (listed args)).2 := by
  have hsteps := steps_summing h hipairs hc args
  obtain ⟨code, captured, source⟩ := c
  subst hc
  refine hsteps.trans (.next (Activation.exec_varargs rfl hroom) ?_)
  refine .next (Activation.exec_setList rfl (show _ = args from Array.empty_append) rfl) ?_
  rw [Script.Heap.modifyTable_newTable]
  exact .refl _ _

/-- All of them are put into the table, and the loop begins. -/
theorem reaches_loop {args : Array Value}
    (hroom : Machine.firstBase + args.size + 8 + args.size ≤ Activation.stackLimit) {n : Nat} {last : Control}
    (hlast : Reaches n
      (asking c args s.heap.tables.size (.int 0) 0 .nil .nil (s.heap.newTable (listed args)).2 s.parked) last) :
    Reaches (n + 10) (s.entering c args) last := by
  have hsteps := steps_summing_setList h hipairs hc hroom
  obtain ⟨code, captured, source⟩ := c
  subst hc
  refine .go hsteps (Activation.exec_call rfl rfl) rfl (by decide) ?_
  refine .builtin (f := .base .ipairs) (Script.Base.ipairs_table _ _) (.deliver rfl ?_)
  refine ((reaches_asking rfl (n := 2) (d := .slots 1 4) ?_ (by decide)).trans hlast).mono (by omega)
  exact .next (Activation.exec_markToBeClosed rfl rfl) (.next (Activation.exec_jump rfl) (.refl _ _))

end

theorem get_listed {m : List Float} (hm : m.length + 1 < 2 ^ 63) {j : Nat} (hj : j ≤ m.length) :
    (listed (m.map Value.float).toArray).get (.int (Int64.ofNat (j + 1))) = (m[j]?.map Value.float).getD .nil := by
  have hint : (Int64.ofNat (j + 1)).toInt = (j + 1 : Nat) := Int64.toInt_ofNat_of_lt (by omega)
  rw [listed, Table.get_setList _ (by simp; omega), hint]
  by_cases hlt : j < m.length
  · rw [if_pos (by simp; omega)]
    simp [hlt]
  · rw [if_neg (by simp; omega), Table.get_ofSizes, List.getElem?_eq_none (by omega)]
    rfl

/-! The session that a call leaves has one table more at most. -/

theorem Serves.newTable {s : Session} {body : Code} {g : Globals} (h : Serves s body g) (t : Table) :
    Serves { s with heap := (s.heap.newTable t).2 } body g where
  main := by
    obtain ⟨c, hc, hmain⟩ := h.main
    exact ⟨c, hc, (hmain.newTable t).1⟩
  others name hname := by
    obtain ⟨c, -, hmain⟩ := h.main
    rw [(hmain.newTable t).2, h.others name hname]

/-- One call gives the sum of its arguments, from the left, and leaves a session that serves as well. -/
theorem evaluateIn_summing {s : Session} {g : Globals} (h : Serves s summing g) (hg : g.get? "ipairs" = none)
    (m : List Float) :
    ∃ answer s', evaluateIn s m = (answer, s') ∧ Serves s' summing g ∧
      if summing.Fits m.length then answer = .ok (m.foldl (· + ·) 0)
      else ∃ reason, answer = .error (.failedCall reason) := by
  have hipairs := h.get_start (by decide) hg (v := .builtin (.base .ipairs)) (by decide +kernel)
  obtain ⟨c, hc, hmain⟩ := h.main
  split
  · rename_i hfits
    rw [Code.fits_iff] at hfits
    have hsmall : m.length ≤ 1000000 := by
      have := hfits.2
      rw [Activation.stackLimit] at this
      omega
    let args := (m.map Value.float).toArray
    have hsize : args.size = m.length := by simp [args]
    have htable : (s.heap.newTable (listed args)).2.table s.heap.tables.size = listed args := by
      simp [Script.Heap.newTable, Script.Heap.table]
    have hmeta : (listed args).metatable = none := Table.metatable_setList _ _ _
    let heap := (s.heap.newTable (listed args)).2
    obtain ⟨total, htotal, hreach⟩ : ∃ total, IsSum total (m.foldl (· + ·) 0) ∧
        Reaches (12 * m.length + 10) (asking c args s.heap.tables.size (.int 0) 0 .nil .nil heap s.parked)
          (.finished (.ok #[total]) heap s.parked) :=
      reaches_sum hc (List.nil_append m).symm (htable.symm ▸ hmeta)
        (fun j hj => htable.symm ▸ get_listed (by omega) hj) .start
    have hrun := reaches_loop hmain hipairs hc (hsize.symm ▸ hfits.2) hreach
    have heq := evaluateIn_of_returned hmain (hc ▸ rfl) (hc ▸ rfl) (hc ▸ hfits.1) (by rw [Machine.maxSteps]; omega) hrun
    exact ⟨_, _, heq, h.newTable _, htotal.numberOf_eq⟩
  · rename_i hfits
    have hands := handsOn_summing hmain hipairs hc (m.map Value.float).toArray
    obtain ⟨reason, heq | heq⟩ := evaluateIn_of_not_fits hmain (hc ▸ rfl) (hc ▸ rfl) hands
      (hmain.newTable _).1.strings (hc ▸ hfits)
    · exact ⟨_, _, heq, h, reason, rfl⟩
    · exact ⟨_, _, heq, h.newTable _, reason, rfl⟩

theorem sights_summing {r : Rule} {s : Session} (hr : r.status = .valid s) (hs : Serves s summing r.globals)
    (hg : r.globals.get? "ipairs" = none) (lists : List (List Float)) :
    List.Forall₂ (fun m sight => sight.state = .valid ∧ sight.code = r.code ∧ sight.globals = r.globals ∧
        if summing.Fits m.length then sight.answer = .evaluated (.ok (m.foldl (· + ·) 0))
        else ∃ reason, sight.answer = .evaluated (.error (r.error (.failedCall reason))))
      lists (r.sights (lists.map .evaluate)) := by
  induction lists generalizing r s with
  | nil => exact .nil
  | cons m lists ih =>
      obtain ⟨answer, s', heq, hs', hanswer⟩ := evaluateIn_summing hs hg m
      have hperform : r.perform (.evaluate m) =
          (.evaluated (answer.mapError r.error), { r with status := .valid s' }) := by
        simp only [perform, evaluate, hr, heq]
      simp only [List.map_cons, sights, hperform]
      refine .cons ⟨rfl, rfl, rfl, ?_⟩ (ih (r := { r with status := .valid s' }) rfl hs' hg)
      split
      · rename_i hfits
        rw [if_pos hfits] at hanswer
        rw [hanswer]
        rfl
      · rename_i hfits
        rw [if_neg hfits] at hanswer
        obtain ⟨reason, rfl⟩ := hanswer
        exact ⟨reason, rfl⟩

/-- Whatever lists of numbers a rule that adds up its arguments is evaluated on, one after another: the answer to each
is its sum, from the left and starting with 0, if the list fits on the stack and an error otherwise; and after each the
rule is valid and has the code and the numbers that it was given. -/
theorem summing_forgets {name : String} (hname : Session.nameFailure? name.toUTF8 = none)
    {entries : List (String × Float)} (hentries : "ipairs" ∉ entries.map (·.1)) (lists : List (List Float)) :
    ∃ r, ofParts name entries summingText = .ok r ∧
      List.Forall₂ (fun m sight => sight.state = .valid ∧ sight.code = summingText ∧
          sight.globals = .ofList entries ∧
          if summing.Fits m.length then sight.answer = .evaluated (.ok (m.foldl (· + ·) 0))
          else ∃ reason, sight.answer = .evaluated (.error ⟨name, .failedCall reason⟩))
        lists (r.sights (lists.map .evaluate)) := by
  obtain ⟨s, hr, hs⟩ := ofParts_entry entries isEntry_summing hname
  refine ⟨_, hr, sights_summing (r := ⟨name, summingText, .ofList entries, .valid s⟩) rfl hs ?_ lists⟩
  rw [get?_ofList, lastGiven, Option.map_eq_none_iff, List.find?_eq_none]
  rintro e he heq
  exact hentries (List.mem_map.2 ⟨e, List.mem_reverse.1 he, by simpa using heq⟩)

theorem summing_forgets_earlier :
    Session.nameFailure? "test".toUTF8 = none ∧ "ipairs" ∉ ([] : List (String × Float)).map (·.1) ∧
      ∃ r, ofParts "test" [] summingText = .ok r ∧
        (r.sights ([[1, 2], [], [1, 2]].map .evaluate)).map (·.answer) =
          [.evaluated (.ok 3), .evaluated (.ok 0), .evaluated (.ok 3)] := by
  have hname : Session.nameFailure? "test".toUTF8 = none := by decide +kernel
  have hentries : "ipairs" ∉ ([] : List (String × Float)).map (·.1) := by simp
  have hthree : ([1, 2] : List Float).foldl (· + ·) 0 = 3 := by decide +kernel
  obtain ⟨r, hr, hsights⟩ := summing_forgets hname hentries [[1, 2], [], [1, 2]]
  refine ⟨hname, hentries, r, hr, ?_⟩
  generalize r.sights _ = sights at hsights ⊢
  obtain _ | ⟨⟨-, -, -, hfirst⟩, _ | ⟨⟨-, -, -, hsecond⟩, _ | ⟨⟨-, -, -, hthird⟩, _ | _⟩⟩⟩ := hsights
  rw [if_pos (by decide), hthree] at hfirst hthird
  rw [if_pos (by decide), List.foldl_nil] at hsecond
  simp only [List.map_cons, List.map_nil, hfirst, hsecond, hthird]

end Gauge.Rule
