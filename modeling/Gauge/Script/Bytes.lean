import Gauge.Instances

/-!
Byte strings, the text of scripts: order, search and the classes of ASCII characters.
-/

namespace ByteArray

/-- The byte at a position, 0 past the end. -/
@[inline] def byte (b : ByteArray) (i : Nat) : UInt8 :=
  if h : i < b.size then b[i] else 0

def ofList (l : List UInt8) : ByteArray := ⟨l.toArray⟩

def singleton (x : UInt8) : ByteArray := ByteArray.empty.push x

def replicate (n : Nat) (x : UInt8) : ByteArray := ⟨Array.replicate n x⟩

/-- Compares from position `i` on: byte by byte, a proper beginning before the longer string. -/
def compareFrom (a b : ByteArray) (i : Nat) : Ordering :=
  if ha : i < a.size then
    if hb : i < b.size then
      if a[i] == b[i] then compareFrom a b (i + 1)
      else if a[i] < b[i] then .lt else .gt
    else .gt
  else if i < b.size then .lt else .eq
termination_by a.size - i

/-- Lexicographic order of unsigned bytes. -/
def order (a b : ByteArray) : Ordering := compareFrom a b 0

instance instOrdByteArray : Ord ByteArray := ⟨order⟩

theorem compareFrom_eq (a b : ByteArray) (i : Nat) :
    compareFrom a b i = compare (a.data.toList.drop i) (b.data.toList.drop i) := by
  have drop_eq (s : ByteArray) {j : Nat} (h : j < s.size) :
      s.data.toList.drop j = s[j] :: s.data.toList.drop (j + 1) :=
    List.drop_eq_getElem_cons (l := s.data.toList) (by simpa using h)
  have drop_nil (s : ByteArray) {j : Nat} (h : ¬ j < s.size) : s.data.toList.drop j = [] :=
    List.drop_of_length_le (by simpa using Nat.le_of_not_lt h)
  fun_induction compareFrom a b i with
  | case1 i ha hb heq ih =>
    rw [ih, drop_eq a ha, drop_eq b hb, List.compare_cons_cons, eq_of_beq heq,
      Std.ReflOrd.compare_self]
    rfl
  | case2 i ha hb hne hlt =>
    rw [drop_eq a ha, drop_eq b hb, List.compare_cons_cons, Std.compare_eq_lt.2 hlt]
    rfl
  | case3 i ha hb hne hlt =>
    have hgt : b[i] < a[i] :=
      UInt8.lt_of_le_of_ne (UInt8.not_lt.1 hlt) fun h => hne (by simp [h])
    rw [drop_eq a ha, drop_eq b hb, List.compare_cons_cons, Std.compare_eq_gt.2 hgt]
    rfl
  | case4 i ha hb => rw [drop_eq a ha, drop_nil b hb]; rfl
  | case5 i ha hb => rw [drop_nil a ha, drop_eq b hb]; rfl
  | case6 i ha hb => rw [drop_nil a ha, drop_nil b hb]; rfl

theorem compare_eq (a b : ByteArray) : compare a b = compare a.data.toList b.data.toList :=
  compareFrom_eq a b 0

instance instTransOrdByteArray : Std.TransOrd ByteArray where
  eq_swap := by
    intro a b
    rw [compare_eq, compare_eq]
    exact Std.OrientedCmp.eq_swap
  isLE_trans := by
    intro a b c
    rw [compare_eq, compare_eq, compare_eq]
    exact Std.TransCmp.isLE_trans

instance instLawfulEqOrdByteArray : Std.LawfulEqOrd ByteArray where
  compare_self := by
    intro a
    rw [compare_eq]
    exact Std.ReflOrd.compare_self
  eq_of_compare := by
    intro a b h
    rw [compare_eq] at h
    exact ByteArray.ext (Array.toList_inj.1 (Std.LawfulEqOrd.eq_of_compare h))

/-- Whether `part` stands in `b` at position `i`, its first `k` bytes taken as checked. -/
def matchesAtFrom (b part : ByteArray) (i k : Nat) : Bool :=
  if h : k < part.size then
    if h' : i + k < b.size then
      if b[i + k] == part[k] then matchesAtFrom b part i (k + 1) else false
    else false
  else true
termination_by part.size - k

def matchesAt (b part : ByteArray) (i : Nat) : Bool := matchesAtFrom b part i 0

/-- The first position from `i` on where `part` stands. -/
def find? (b part : ByteArray) (i : Nat) : Option Nat :=
  if i + part.size ≤ b.size then
    if matchesAt b part i then some i else find? b part (i + 1)
  else none
termination_by b.size + 1 - i

def findByte? (b : ByteArray) (x : UInt8) (i : Nat) : Option Nat :=
  if h : i < b.size then
    if b[i] == x then some i else findByte? b x (i + 1)
  else none
termination_by b.size - i

/-- The bytes before the first NUL. -/
def untilNul (b : ByteArray) : ByteArray :=
  match b.findByte? 0 0 with
  | some i => b.extract 0 i
  | none => b

def mapBytes (f : UInt8 → UInt8) (b : ByteArray) : ByteArray :=
  ⟨b.data.map f⟩

def reversed (b : ByteArray) : ByteArray := ⟨b.data.reverse⟩

end ByteArray

namespace UInt8

@[inline] def isSpace (b : UInt8) : Bool := b == 32 || (9 ≤ b && b ≤ 13)
@[inline] def isDigit (b : UInt8) : Bool := 48 ≤ b && b ≤ 57
@[inline] def isUpper (b : UInt8) : Bool := 65 ≤ b && b ≤ 90
@[inline] def isLower (b : UInt8) : Bool := 97 ≤ b && b ≤ 122
@[inline] def isLetter (b : UInt8) : Bool := isUpper b || isLower b
@[inline] def isAlphanumeric (b : UInt8) : Bool := isLetter b || isDigit b
@[inline] def isHexDigit (b : UInt8) : Bool := isDigit b || (65 ≤ b && b ≤ 70) || (97 ≤ b && b ≤ 102)
@[inline] def isControl (b : UInt8) : Bool := b < 32 || b == 127
@[inline] def isPrint (b : UInt8) : Bool := 32 ≤ b && b < 127
@[inline] def isGraph (b : UInt8) : Bool := 32 < b && b < 127
@[inline] def isPunct (b : UInt8) : Bool := isGraph b && !isAlphanumeric b

@[inline] def toLower (b : UInt8) : UInt8 := if isUpper b then b + 32 else b
@[inline] def toUpper (b : UInt8) : UInt8 := if isLower b then b - 32 else b

/-- The value of a digit in bases up to thirty-six; letters of either case count from ten. -/
def digitValue (b : UInt8) : Nat :=
  if isDigit b then (b - 48).toNat
  else if isLetter b then (toLower b - 87).toNat
  else 36

end UInt8
