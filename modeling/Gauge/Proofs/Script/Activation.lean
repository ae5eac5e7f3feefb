import Gauge.Proofs.Script.Run

/-!
Calls of a script's functions, instruction by instruction: one rule for each instruction, for the case that no
metatable has a say in it. A stretch of instructions that concern the call alone is carried out in one go.
-/

namespace Gauge.Script

/-- Whether an instruction concerns the call alone that it belongs to. -/
def Effect.isNext : Effect → Bool
  | .next _ _ => true
  | _ => false

namespace Activation

variable {a : Activation} {h : Heap}

/-- The instruction that comes next. -/
def Runs (a : Activation) (i : Instr) : Prop := a.code.instrs.getD a.pc (.return ⟨0, 0, false⟩) = i

/-- The call while its next instruction is under way. -/
def fetched (a : Activation) : Activation := { a with pc := a.pc + 1 }

theorem exec_move {d : Nat} {src : Operand} (hi : a.Runs (.move d src)) :
    a.exec h = .next (a.fetched.put d (a.read h src)) h := by
  unfold exec
  rw [hi]
  cases src <;> rfl

/-- A function is made that captures one variable, which the function that makes it has captured, too. -/
theorem exec_closure {d i j : Nat} {code : Code} (hi : a.Runs (.closure d j))
    (hcode : a.code.inner.getD j default = code) (hcaptures : code.captures = #[.captured i]) :
    a.exec h = .next (a.fetched.put d (.closure h.closures.size))
      (h.newClosure ⟨code, #[a.captured.getD i 0], a.source⟩).2 := by
  unfold exec
  rw [hi]
  simp only [makeClosure, hcode, hcaptures, List.map_toArray, List.map_cons, List.map_nil]
  rfl

theorem exec_newTable {d items others : Nat} (hi : a.Runs (.newTable d items others)) :
    a.exec h = .next (a.fetched.put d (.table h.tables.size)) (h.newTable (Table.ofSizes items others)).2 := by
  unfold exec
  rw [hi]
  rfl

theorem exec_setList {table first id : Nat} {run : Run} {values : Array Value} (hi : a.Runs (.setList table run first))
    (hvalues : (a.fetched.take run).1 = values) (hid : (a.fetched.take run).2.slots.getD table .nil = .table id) :
    a.exec h = .next (a.fetched.take run).2 (h.modifyTable id (·.setList first values)) := by
  subst hvalues
  unfold exec
  rw [hi]
  simp only [fetched] at hid
  simp only [hid, fetched]

theorem exec_index {d : Nat} {o k : Operand} {v : Value} (hi : a.Runs (.index d o k))
    (hv : plainIndex? h (a.read h o) (a.read h k) = some v) : a.exec h = .next (a.fetched.put d v) h := by
  unfold exec
  rw [hi]
  cases o <;> cases k <;> simp only [read] at hv ⊢ <;> rw [hv] <;> rfl

theorem exec_setIndex {o k v : Operand} {id : Nat} {key : Key} (hi : a.Runs (.setIndex o k v))
    (htarget : plainTarget? h (a.read h o) (a.read h k) = some (id, key)) :
    a.exec h = .next a.fetched (h.modifyTable id (·.set key (a.read h v))) := by
  unfold exec
  rw [hi]
  cases o <;> cases k <;> simp only [read] at htarget ⊢ <;> rw [htarget] <;> cases v <;> rfl

theorem exec_arith {op : ArithOp} {d : Nat} {x y : Operand} {v : Value} (hi : a.Runs (.arith op d x y))
    (hv : plainArith? op (a.read h x) (a.read h y) = some v) : a.exec h = .next (a.fetched.put d v) h := by
  unfold exec
  rw [hi]
  cases x <;> cases y <;> simp only [read] at hv ⊢ <;> rw [hv] <;> rfl

theorem exec_arith_asking {op : ArithOp} {d : Nat} {x y : Operand} (hi : a.Runs (.arith op d x y))
    (hv : plainArith? op (a.read h x) (a.read h y) = none) :
    a.exec h = a.fetched.ask h (.slots d 1) (single (Native.arith op (a.read h x) (a.read h y))) := by
  unfold exec
  rw [hi]
  cases x <;> cases y <;> simp only [read] at hv ⊢ <;> rw [hv] <;> rfl

theorem exec_jump {target : Nat} (hi : a.Runs (.jump target)) : a.exec h = .next (a.fetched.goto target) h := by
  unfold exec
  rw [hi]
  rfl

theorem exec_call {base n : Nat} {run : Run} {args : Array Value} {b : Activation}
    (hi : a.Runs (.call base run (.exactly n))) (hrun : a.fetched.take run = (args, b)) :
    a.exec h = .enter { b with delivery := .slots base n } (b.slots.getD base .nil) args h := by
  unfold exec
  rw [hi]
  simp only [fetched] at hrun
  simp only [hrun]

theorem exec_tailCall {base : Nat} {run : Run} {args : Array Value} {b : Activation}
    (hi : a.Runs (.tailCall base run)) (hrun : a.fetched.take run = (args, b)) :
    a.exec h = .become { b with delivery := .leaving #[] } (b.slots.getD base .nil) args h := by
  unfold exec
  rw [hi]
  simp only [fetched] at hrun
  simp only [hrun]

theorem exec_return {run : Run} {values : Array Value} {b : Activation} (hi : a.Runs (.return run))
    (hrun : a.fetched.take run = (values, b)) (hclose : b.toClose = []) : a.exec h = .leave values h := by
  unfold exec
  rw [hi]
  simp only [fetched] at hrun
  simp only [hrun, leave, closeNext, hclose]

theorem exec_varargs {d : Nat} (hi : a.Runs (.varargs d .all))
    (hroom : a.base + a.slots.size + a.varargs.size ≤ stackLimit) :
    a.exec h = .next { a.fetched with kept := a.varargs } h := by
  unfold exec
  rw [hi]
  exact if_neg (Nat.not_lt.2 hroom)

theorem exec_varargs_overflow {d : Nat} (hi : a.Runs (.varargs d .all))
    (hroom : stackLimit < a.base + a.slots.size + a.varargs.size) :
    a.exec h = .raise a.fetched (.atOperation "stack overflow".toUTF8) h := by
  unfold exec
  rw [hi]
  exact if_pos hroom

theorem exec_eachCall {base wanted : Nat} (hi : a.Runs (.eachCall base wanted)) :
    a.exec h = a.fetched.ask h (.slots (base + 4) wanted)
      (Native.call (a.slots.getD base .nil) (a.slots.extract (base + 1) (base + 3))) := by
  unfold exec
  rw [hi]
  rfl

theorem exec_eachNext {b target : Nat} (hi : a.Runs (.eachNext b target))
    (hcontrol : (a.slots.getD (b + 4) .nil).isNil = false) :
    a.exec h = .next ((a.fetched.put (b + 2) (a.slots.getD (b + 4) .nil)).goto target) h := by
  unfold exec
  rw [hi]
  exact if_neg (by simp only [hcontrol]; decide)

theorem exec_eachNext_end {b target : Nat} (hi : a.Runs (.eachNext b target))
    (hcontrol : (a.slots.getD (b + 4) .nil).isNil = true) : a.exec h = .next a.fetched h := by
  unfold exec
  rw [hi]
  exact if_pos hcontrol

theorem exec_markToBeClosed {slot : Nat} {name : ByteArray} (hi : a.Runs (.markToBeClosed slot name))
    (hslot : (a.slots.getD slot .nil).isTruthy = false) : a.exec h = .next a.fetched h := by
  unfold exec
  rw [hi]
  exact if_pos (by simp only [hslot]; decide)

theorem exec_closeFrom {from_ : Nat} (hi : a.Runs (.closeFrom from_)) (hclose : a.toClose = []) :
    a.exec h = .next a.fetched h := by
  unfold exec
  rw [hi]
  simp only [closeFrom, closeNext, hclose, fetched]

/-- From one state of a call and the heap to another in so many instructions that concern the call alone. -/
inductive Steps : Nat → Activation → Heap → Activation → Heap → Prop where
  | refl (a : Activation) (h : Heap) : Steps 0 a h a h
  | next {n : Nat} {a b c : Activation} {h k l : Heap} (hexec : a.exec h = .next b k) (hrest : Steps n b k c l) :
      Steps (n + 1) a h c l

theorem Steps.trans {m n : Nat} {a b c : Activation} {h k l : Heap} (hsteps : Steps m a h b k)
    (hmore : Steps n b k c l) : Steps (n + m) a h c l := by
  induction hsteps with
  | refl => exact hmore
  | next hexec _ ih => exact .next hexec (ih hmore)

theorem Steps.run_eq {n fuel : Nat} {a b : Activation} {h k : Heap} (hsteps : Steps n a h b k) {e : Effect}
    (hexec : b.exec k = e) (he : e.isNext = false) (hfuel : n < fuel) : a.run fuel h = e := by
  induction hsteps generalizing fuel with
  | refl a h =>
      obtain ⟨fuel, rfl⟩ : ∃ m, fuel = m + 1 := ⟨fuel - 1, by omega⟩
      rw [run, hexec]
      cases e <;> first | rfl | cases he
  | next hnext _ ih =>
      obtain ⟨fuel, rfl⟩ : ∃ m, fuel = m + 1 := ⟨fuel - 1, by omega⟩
      rw [run, hnext]
      exact ih hexec (by omega)

end Activation

/-! What the machine makes of a call's instructions and of the functions of the language that they lead to. -/

namespace Machine

variable {k depth thread : Nat} {a b : Activation} {heap h : Heap} {rest : List Frame} {parked : Array (List Frame)}
  {resumers : List Resumer} {values args : Array Value} {last : Control}

theorem Reaches.go {n : Nat} {e : Effect} (hsteps : a.Steps n heap b h) (hexec : b.exec h = e)
    (he : e.isNext = false) (hn : n < slice)
    (hlast : Reaches k (take e (fun h fs => ⟨h, fs, thread, parked, resumers, depth⟩) rest) last) :
    Reaches (k + 1) (.go ⟨heap, .script a :: rest, thread, parked, resumers, depth⟩) last := by
  refine .step ?_
  rw [advance, Machine.go, hsteps.run_eq hexec he hn]
  exact hlast

/-- The instructions end with the call of the iterator of a loop. -/
theorem Reaches.goEach {n base wanted : Nat} {f : Value} (hsteps : a.Steps n heap b h)
    (hi : b.Runs (.eachCall base wanted)) (hf : b.slots.getD base .nil = f)
    (hargs : b.slots.extract (base + 1) (base + 3) = args) (hn : n < slice)
    (hlast : Reaches k (.work .operation (.call f args h .done) ⟨.empty,
      .script { b.fetched with delivery := .slots (base + 4) wanted } :: rest, thread, parked, resumers, depth⟩) last) :
    Reaches (k + 1) (.go ⟨heap, .script a :: rest, thread, parked, resumers, depth⟩) last := by
  subst hf hargs
  exact .go hsteps (Activation.exec_eachCall hi) rfl hn hlast

/-- The results of a call go into slots. -/
theorem Reaches.deliver {first count : Nat} (hd : a.delivery = .slots first count)
    (hlast : Reaches k (.go ⟨heap, .script (a.putFrom first count values) :: rest, thread, parked, resumers, depth⟩)
      last) :
    Reaches (k + 1) (.give values ⟨heap, .script a :: rest, thread, parked, resumers, depth⟩) last := by
  refine .step ?_
  simp only [advance, give, hd, Activation.deliver, take]
  exact hlast

/-- A call that was made in place of another gives its results to what called that one. -/
theorem Reaches.deliver_tailCall {base : Nat} {run : Run} {left : Array Value} (hd : a.delivery = .leaving left)
    (hi : a.code.instrs.getD (a.pc - 1) (.jump 0) = .tailCall base run)
    (hlast : Reaches k (.give values ⟨heap, rest, thread, parked, resumers, depth⟩) last) :
    Reaches (k + 1) (.give values ⟨heap, .script a :: rest, thread, parked, resumers, depth⟩) last := by
  refine .step ?_
  simp only [advance, give, hd, hi]
  exact hlast

theorem reaches_finished : Reaches 1 (.give values ⟨heap, .bottom :: rest, thread, parked, resumers, depth⟩)
    (.finished (.ok values) heap parked) := .step (.refl 0 _)

/-- A function of the language that asks for nothing. -/
theorem Reaches.builtin {f : Builtin} (hf : f.run args heap = .done values h) {frames : List Frame}
    (hlast : Reaches k (.give values ⟨h, frames, thread, parked, resumers, depth⟩) last) :
    Reaches (k + 2) (.apply (.builtin f) args ⟨heap, frames, thread, parked, resumers, depth⟩) last := by
  refine .step (.step ?_)
  change Reaches k (work _ (f.run args heap) _) last
  rw [hf]
  exact hlast

/-- The call of such a function by an operation. -/
theorem Reaches.call_builtin {f : Builtin} (hf : f.run args heap = .done values h) (hdepth : depth + 1 < maxDepth)
    (hlast : Reaches k (.give values ⟨h, .script a :: rest, thread, parked, resumers, depth⟩) last) :
    Reaches (k + 5) (.work .operation (.call (.builtin f) args heap .done)
      ⟨.empty, .script a :: rest, thread, parked, resumers, depth⟩) last := by
  have hdeep : tooDeep? ⟨heap, .script a :: rest, thread, parked, resumers, depth⟩ = none := by
    rw [maxDepth] at hdepth
    rw [tooDeep?, if_neg, if_neg] <;> simp [maxDepth, maxHandlingDepth] <;> omega
  refine .step ?_
  simp only [advance, work, hdeep]
  exact .builtin hf (.step (.step hlast))

end Machine

end Gauge.Script
