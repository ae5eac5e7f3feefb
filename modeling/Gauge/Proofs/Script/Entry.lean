import Gauge.Proofs.Script.Overflow
import Gauge.Proofs.Script.Session

/-!
Scripts that do nothing but define one function. Running such a script puts the function under its name and leaves all
else as it was; calling the function starts a run of its code.
-/

namespace Gauge.Script

/-- The code of a script that defines a function under a name. -/
def Code.defining (name : String) (body : Code) (notes : Array Note) : Code :=
  { params := 0, isVarargs := true, slots := 1, cells := 0, stack := 2
    instrs := #[.closure 0 0, .setIndex (.captured 0) (.constant (.ofString name)) (.slot 0), .return ⟨0, 0, false⟩]
    notes := notes
    captures := #[.captured 0]
    inner := #[body] }

namespace Activation

/-- A call of a function that takes any number of arguments, before its first instruction. -/
def entered (c : Closure) (args : Array Value) (base : Nat) : Activation :=
  { code := c.code, captured := c.captured, source := c.source
    slots := Array.replicate c.code.slots .nil, cells := Array.replicate c.code.cells 0
    pc := 0, varargs := args, kept := #[], toClose := [], delivery := .dropped
    base := base + args.size }

theorem start_eq {c : Closure} (hparams : c.code.params = 0) (hvarargs : c.code.isVarargs = true)
    (args : Array Value) (base : Nat) : start c args base = entered c args base := by
  simp [start, entered, hparams, hvarargs]

end Activation

/-- A call from outside with so many arguments has room on the stack, also for handing all of them on. -/
def Code.Fits (body : Code) (n : Nat) : Prop :=
  Machine.stackTop [.bottom] + 1 + n + max body.stack (body.slots + n) ≤ Activation.stackLimit

instance (body : Code) (n : Nat) : Decidable (body.Fits n) := inferInstanceAs (Decidable (_ ≤ _))

theorem Code.fits_iff {body : Code} {n : Nat} :
    body.Fits n ↔ Machine.stackTop [.bottom] + 1 + n + body.stack ≤ Activation.stackLimit ∧
      Machine.stackTop [.bottom] + 1 + n + body.slots + n ≤ Activation.stackLimit := by
  rw [Fits]
  omega

namespace Machine

variable {k thread depth : Nat} {heap : Heap} {parked : Array (List Frame)} {resumers : List Resumer}
  {args : Array Value} {last : Control}

/-- Where the stack begins for the call that comes from outside. -/
def firstBase : Nat := stackTop [.bottom] + 1

theorem Reaches.enter {id : Nat} {c : Closure} (hid : heap.closures.getD id default = c)
    (hparams : c.code.params = 0) (hvarargs : c.code.isVarargs = true)
    (hroom : firstBase + args.size + c.code.stack ≤ Activation.stackLimit)
    (hlast : Reaches k (.go ⟨heap, [.script (.entered c args firstBase), .bottom], thread, parked, resumers, depth⟩)
      last) :
    Reaches (k + 1) (.apply (.closure id) args ⟨heap, [.bottom], thread, parked, resumers, depth⟩) last := by
  refine .step ?_
  have hfits : ¬ firstBase + args.size + c.code.stack > Activation.stackLimit := Nat.not_lt.2 hroom
  rw [firstBase] at hfits hlast
  simp only [advance, maxCallChain, apply, enterClosure, hid, if_neg hfits, Activation.start_eq hparams hvarargs]
  exact hlast

theorem reaches_enter_overflow (hh : heap.ShowsStrings) {id : Nat} {c : Closure}
    (hid : heap.closures.getD id default = c) (args : Array Value) (parked : Array (List Frame))
    (hroom : Activation.stackLimit < firstBase + args.size + c.code.stack) :
    ∃ e, Reaches 6 (.apply (.closure id) args ⟨heap, [.bottom], 0, parked, [], 1⟩)
      (.finished (.error (.string e)) heap parked) := by
  obtain ⟨e, he⟩ := reaches_raised .bottom hh (ownerOfCall [.bottom]) "stack overflow".toUTF8 parked
  refine ⟨e, .step ?_⟩
  rw [firstBase] at hroom
  simp only [advance, maxCallChain, apply, enterClosure, hid, gt_iff_lt, if_pos hroom]
  exact he

end Machine

namespace Session

/-- A call from outside before its first instruction. -/
def entering (s : Session) (c : Closure) (args : Array Value) : Control :=
  .go ⟨s.heap, [.script (.entered c args Machine.firstBase), .bottom], 0, s.parked, [], 1⟩

theorem call_of_ended {s : Session} (running : s.exit = none) {f : Value} {args values : Array Value} {h : Heap}
    (hargs : args.size ≤ maxArguments)
    (hcall : Machine.call f args s.parked s.heap = .ended (.ok values) h s.parked) :
    s.call f args = (.ok values, { s with heap := h }) := by
  rw [call, running, if_neg (by decide), if_neg (Nat.not_lt.2 hargs), hcall]
  rfl

theorem call_of_raised {s : Session} (running : s.exit = none) {f : Value} {args : Array Value} {e : ByteArray}
    {h : Heap} (hargs : args.size ≤ maxArguments)
    (hcall : Machine.call f args s.parked s.heap = .ended (.error (.string e)) h s.parked) :
    ∃ failure, s.call f args = (.error failure, { s with heap := h }) := by
  rw [call, running, if_neg (by decide), if_neg (Nat.not_lt.2 hargs), hcall]
  exact ⟨_, rfl⟩

/-- What a script leaves in the heap that defines a function under a name. -/
def defined (h : Heap) (name : String) (body : Code) (notes : Array Note) (source : ByteArray) : Heap :=
  let captured := #[h.cells.size]
  let h := (h.newCell (.table h.globals)).2
  let h := (h.newClosure ⟨.defining name body notes, captured, source⟩).2
  let (id, h) := h.newClosure ⟨body, captured, source⟩
  h.modifyTable h.globals (·.set (keyOf name) (.closure id))

theorem call_defining {h : Heap} {name : String} {body : Code} {notes : Array Note} {source : ByteArray}
    (hmeta : (h.table h.globals).metatable = none) (hcaptures : body.captures = #[.captured 0])
    (parked : Array (List Frame)) :
    let ready := ((h.newCell (.table h.globals)).2.newClosure ⟨.defining name body notes, #[h.cells.size], source⟩).2
    Machine.call (.closure h.closures.size) #[] parked ready =
      .ended (.ok #[]) (defined h name body notes source) parked := by
  intro ready
  let c : Closure := ⟨.defining name body notes, #[h.cells.size], source⟩
  let a : Activation := .entered c #[] Machine.firstBase
  let h' := (ready.newClosure ⟨body, #[h.cells.size], source⟩).2
  have hid : ready.closures.getD h.closures.size default = c := by simp [ready, c, Heap.newClosure, Heap.newCell]
  have hroom : Machine.firstBase + (#[] : Array Value).size + c.code.stack ≤ Activation.stackLimit := by
    change 5 + 0 + 2 ≤ 1000000
    decide
  have hclosure : a.exec ready = .next (a.fetched.put 0 (.closure ready.closures.size)) h' :=
    Activation.exec_closure (a := a) (j := 0) rfl rfl hcaptures
  have hcell : h'.cell h.cells.size = .table h.globals := by
    simp [h', ready, Heap.newClosure, Heap.newCell, Heap.cell]
  have htarget : Activation.plainTarget? h' (h'.cell h.cells.size) (.ofString name) = some (h.globals, keyOf name) := by
    have hready : (h'.table h.globals).metatable = none := hmeta
    rw [hcell]
    simp only [Activation.plainTarget?, hready]
    rfl
  refine Machine.call_eq (n := 3) (.enter hid rfl rfl hroom ?_) (by decide)
  refine .go (n := 2) (.next hclosure (.next (Activation.exec_setIndex rfl htarget) (.refl _ _)))
    (Activation.exec_return rfl rfl rfl) rfl (by decide) ?_
  exact Machine.reaches_finished

/-- Under a name there is a function of a script, which finds the global variables, too. -/
structure HasFunction (s : Session) (name : String) (c : Closure) : Prop where
  plain : s.Plain
  strings : s.heap.ShowsStrings
  found : ∃ id, s.globalTable.get (keyOf name) = .closure id ∧ s.heap.closures.getD id default = c
  environment : s.heap.cell (c.captured.getD 0 0) = .table s.heap.globals

/-- The function reads a global variable. -/
theorem HasFunction.exec_index {s : Session} {function : String} {c : Closure} (h : s.HasFunction function c)
    (name : String) {a : Activation} (hcaptured : a.captured = c.captured) {d : Nat}
    (hi : a.Runs (.index d (.captured 0) (.constant (.ofString name)))) :
    a.exec s.heap = .next (a.fetched.put d (s.globalTable.get (keyOf name))) s.heap := by
  refine Activation.exec_index hi ?_
  have htable : a.read s.heap (.captured 0) = .table s.heap.globals := by
    rw [Activation.read, hcaptured, h.environment]
  have hmeta : (s.heap.table s.heap.globals).metatable = none := h.plain.metatable
  have hget : s.globalTable.get (keyOf name) = (s.heap.table s.heap.globals).getValue (.ofString name) := rfl
  rw [htable, hget]
  simp only [Activation.read, Activation.plainIndex?, hmeta]
  split
  · rename_i hnil
    rw [Value.eq_nil_of_isNil hnil]
  · rfl

theorem globalTable_defined (s : Session) (name : String) (body : Code) (notes : Array Note) (source : ByteArray) :
    ({ s with heap := defined s.heap name body notes source } : Session).globalTable =
      s.globalTable.set (keyOf name) (.closure (s.heap.closures.size + 1)) := by
  simp only [globalTable, defined]
  rw [Heap.table_modifyTable _ _ _ (Heap.globals_lt _)]
  simp [Heap.newClosure, Heap.newCell, Heap.modifyTable, Heap.table]

theorem showsStrings_defined {h : Heap} (hh : h.ShowsStrings) (name : String) (body : Code) (notes : Array Note)
    (source : ByteArray) : (defined h name body notes source).ShowsStrings where
  known := by simpa [defined, Heap.newClosure, Heap.newCell, Heap.modifyTable] using hh.known
  apart := hh.apart
  tostring := by
    simp only [defined]
    rw [Heap.table_modifyTable _ _ _ (Heap.globals_lt _)]
    exact (congrArg (Table.getSlot · _) (if_neg hh.apart)).trans hh.tostring

theorem hasFunction_defined {s : Session} (h : s.Plain) (hh : s.heap.ShowsStrings) (name : String) (body : Code)
    (notes : Array Note) (source : ByteArray) :
    ({ s with heap := defined s.heap name body notes source } : Session).HasFunction name
      ⟨body, #[s.heap.cells.size], source⟩ where
  plain := ⟨h.running, by rw [globalTable_defined, Table.metatable_set, h.metatable]⟩
  strings := showsStrings_defined hh name body notes source
  found := by
    refine ⟨s.heap.closures.size + 1, ?_, ?_⟩
    · rw [globalTable_defined, Table.get_set, if_pos rfl]
    · simp [defined, Heap.newClosure, Heap.newCell, Heap.modifyTable, Array.getElem_push]
  environment := by simp [defined, Heap.newClosure, Heap.newCell, Heap.modifyTable, Heap.cell]

theorem exec_defining {s : Session} (h : s.Plain) {name code : ByteArray} {function : String} {body : Code}
    {notes : Array Note} (hname : nameFailure? name = none) (htext : code.byte 0 ≠ Chunk.binaryMark)
    (hread : Chunk.read code (Chunk.sourceOf ("=".toUTF8 ++ name)) readDepth = .ok (.defining function body notes))
    (hcaptures : body.captures = #[.captured 0]) :
    s.exec name code =
      (.ok (), { s with
        heap := defined s.heap function body notes (Chunk.sourceOf ("=".toUTF8 ++ name)) }) := by
  have hbinary : ¬ (code.byte 0 == Chunk.binaryMark && code.size > 0) = true := by simp [htext]
  let source := Chunk.sourceOf ("=".toUTF8 ++ name)
  let ready := ((s.heap.newCell (.table s.heap.globals)).2.newClosure
    ⟨.defining function body notes, #[s.heap.cells.size], source⟩).2
  have hclosure : (do
      let f ← Base.closureOf (.defining function body notes) source (.table (← Native.read (·.globals)))
      return #[f] : Native (Array Value)) s.heap = .done #[.closure s.heap.closures.size] ready := rfl
  have hcall : ({ s with heap := ready } : Session).call (#[Value.closure s.heap.closures.size].getD 0 .nil) #[] =
      (.ok #[], { s with heap := defined s.heap function body notes source }) :=
    call_of_ended (s := { s with heap := ready }) h.running (Nat.zero_le _)
      (call_defining h.metatable hcaptures s.parked)
  simp only [exec, hname, if_neg hbinary, hread]
  rw [perform_of_done h.running hclosure]
  dsimp only
  rw [hcall]
  rfl

theorem showsStrings_start : start.heap.ShowsStrings := ⟨by decide +kernel, by decide, by decide +kernel⟩

theorem showsStrings_withGlobals {s : Session} (hh : s.heap.ShowsStrings) (t : Table) :
    (s.withGlobals t).heap.ShowsStrings where
  known := by simpa [withGlobals, Heap.modifyTable] using hh.known
  apart := hh.apart
  tostring := by
    change ((s.heap.modifyTable s.heap.globals fun _ => t).table s.heap.stringMeta).getSlot _ = _
    rw [Heap.table_modifyTable _ _ _ s.heap.globals_lt, if_neg hh.apart, hh.tostring]

/-- The function is still there when a table has been made. -/
theorem HasFunction.newTable {s : Session} {name : String} {c : Closure} (h : s.HasFunction name c) (t : Table) :
    ({ s with heap := (s.heap.newTable t).2 } : Session).HasFunction name c ∧
      ({ s with heap := (s.heap.newTable t).2 } : Session).globalTable = s.globalTable := by
  have htable {id : Nat} (hid : id < s.heap.tables.size) : (s.heap.newTable t).2.table id = s.heap.table id := by
    simp [Heap.newTable, Heap.table, Array.getElem?_push, Nat.ne_of_lt hid]
  have hglobals : ({ s with heap := (s.heap.newTable t).2 } : Session).globalTable = s.globalTable :=
    htable s.heap.globals_lt
  refine ⟨⟨⟨h.plain.running, ?_⟩, ⟨?_, h.strings.apart, ?_⟩, ?_, h.environment⟩, hglobals⟩
  · rw [hglobals, h.plain.metatable]
  · change s.heap.stringMeta < (s.heap.tables.push t).size
    rw [Array.size_push]
    exact Nat.lt_succ_of_lt h.strings.known
  · exact (congrArg (Table.getSlot · _) (htable h.strings.known)).trans h.strings.tostring
  · rw [hglobals]
    exact h.found

end Session

end Gauge.Script
