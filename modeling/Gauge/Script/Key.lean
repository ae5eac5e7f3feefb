import Gauge.Script.Value

/-!
The order in which tables look for keys. Scripts never see it: all that it has to do is to tell any two keys
apart.
-/

namespace Gauge.Script

/-! Functions of the language by number. -/

def StringFunction.code : StringFunction → Nat
  | .arith op => 19 + op.ctorIdx
  | f => f.ctorIdx

def Utf8Function.code : Utf8Function → Nat
  | .codesNext strict => 6 + strict.toNat
  | f => f.ctorIdx

/-- Each function has a number of its own. -/
def Builtin.code : Builtin → Nat
  | .base f => 13 * f.ctorIdx
  | .string f => 13 * f.code + 1
  | .table f => 13 * f.ctorIdx + 2
  | .math f => 13 * f.ctorIdx + 3
  | .utf8 f => 13 * f.code + 4
  | .coroutine f => 13 * f.ctorIdx + 5
  | .os f => 13 * f.ctorIdx + 6
  | .io f => 13 * f.ctorIdx + 7
  | .stream f => 13 * f.ctorIdx + 8
  | .package f => 13 * f.ctorIdx + 9
  | .matches n => 13 * n + 10
  | .resumes n => 13 * n + 11
  | .reads n => 13 * n + 12

theorem eq_of_ctorIdx {α : Type} {index : α → Nat} {of : Nat → α} (hof : ∀ a, of (index a) = a) {a b : α}
    (h : index a = index b) : a = b := by
  rw [← hof a, h, hof]

theorem boolean_inj {a b : Bool} (h : a.toNat = b.toNat) : a = b := by
  cases a <;> cases b <;> first | rfl | cases h

theorem StringFunction.code_inj {f g : StringFunction} (h : f.code = g.code) : f = g := by
  cases f <;> cases g
  case arith.arith op op' => exact congrArg _ (eq_of_ctorIdx ArithOp.ofNat_ctorIdx (Nat.add_left_cancel h))
  all_goals first | rfl | (simp only [code, StringFunction.ctorIdx] at h; omega)

theorem Utf8Function.code_inj {f g : Utf8Function} (h : f.code = g.code) : f = g := by
  cases f <;> cases g
  case codesNext.codesNext b b' => exact congrArg _ (boolean_inj (Nat.add_left_cancel h))
  all_goals first | rfl | (simp only [code, Utf8Function.ctorIdx] at h; omega)

theorem Builtin.code_inj {f g : Builtin} (h : f.code = g.code) : f = g := by
  have cancel {m n r : Nat} (h : 13 * m + r = 13 * n + r) : m = n := by omega
  cases f <;> cases g <;> simp only [Builtin.code] at h <;> try omega
  case base.base f g => 
    exact congrArg _ (eq_of_ctorIdx BaseFunction.ofNat_ctorIdx (cancel (congrArg (· + 0) h)))
  case string.string f g => exact congrArg _ (StringFunction.code_inj (cancel h))
  case table.table f g => exact congrArg _ (eq_of_ctorIdx TableFunction.ofNat_ctorIdx (cancel h))
  case math.math f g => exact congrArg _ (eq_of_ctorIdx MathFunction.ofNat_ctorIdx (cancel h))
  case utf8.utf8 f g => exact congrArg _ (Utf8Function.code_inj (cancel h))
  case coroutine.coroutine f g => exact congrArg _ (eq_of_ctorIdx CoroutineFunction.ofNat_ctorIdx (cancel h))
  case os.os f g => exact congrArg _ (eq_of_ctorIdx OsFunction.ofNat_ctorIdx (cancel h))
  case io.io f g => exact congrArg _ (eq_of_ctorIdx IoFunction.ofNat_ctorIdx (cancel h))
  case stream.stream f g => exact congrArg _ (eq_of_ctorIdx StreamMethod.ofNat_ctorIdx (cancel h))
  case package.package f g => exact congrArg _ (eq_of_ctorIdx PackageFunction.ofNat_ctorIdx (cancel h))
  case matches.matches m n | resumes.resumes m n | reads.reads m n => exact congrArg _ (cancel h)

namespace Key

/-- The number that a key of its kind is told by, if it is told by one. -/
def number : Key → Nat
  | .bool b => b.toNat
  | .int n => n.toUInt64.toNat
  | .float bits => bits.toNat
  | .table id | .closure id | .thread id | .stream id => id
  | .builtin f => f.code
  | .string _ | .failure _ => 0

/-- The bytes that a key of its kind is told by, if it is told by them. -/
def bytes : Key → ByteArray
  | .string s | .failure s => s
  | _ => .empty

theorem eq_of_number {k l : Key} (kind : k.ctorIdx = l.ctorIdx) (number : k.number = l.number)
    (bytes : k.bytes = l.bytes) : k = l := by
  cases k <;> cases l <;> try cases kind
  case bool.bool b b' => exact congrArg _ (boolean_inj number)
  case int.int m n => exact congrArg (fun u => Key.int (.ofUInt64 u)) (UInt64.toNat_inj.1 number)
  case float.float x y => exact congrArg _ (UInt64.toNat_inj.1 number)
  case builtin.builtin f g => exact congrArg _ (Builtin.code_inj number)
  case string.string s t | failure.failure s t => exact congrArg _ bytes
  all_goals exact congrArg _ number

/-- Keys of different kinds go by the number of their kind. -/
def order : Key → Key → Ordering :=
  compareLex (compareOn Key.ctorIdx) (compareLex (compareOn number) (compareOn bytes))

instance : Ord Key := ⟨order⟩

instance : Std.TransOrd Key :=
  inferInstanceAs (Std.TransCmp
    (compareLex (compareOn Key.ctorIdx) (compareLex (compareOn number) (compareOn bytes))))

theorem eq_of_order {k l : Key} (h : order k l = .eq) : k = l := by
  obtain ⟨kind, h⟩ := compareLex_eq_eq.1 h
  obtain ⟨number, bytes⟩ := compareLex_eq_eq.1 h
  exact eq_of_number (Std.LawfulEqOrd.eq_of_compare kind) (Std.LawfulEqOrd.eq_of_compare number)
    (Std.LawfulEqOrd.eq_of_compare bytes)

instance : Std.LawfulEqOrd Key where
  compare_self := Std.ReflOrd.compare_self
  eq_of_compare := eq_of_order

end Key

end Gauge.Script
