import Gauge.Script.Key
import Std.Data.TreeMap

/-!
Tables: a map from keys to values. Keys from 1 on may live in an array; the others are kept in the
order in which they came in. How much room there is decides when keys move to the array, and with it
which border `length` finds in a sequence with holes.
-/

namespace Gauge.Script

/-- What is stored under a key outside the array: its value, nil once it is removed, and its place in
the order of keys. -/
structure Slot where
  value : Value
  position : Nat
deriving Inhabited

/-- The place of a key in an array of so many items, if it lives there. -/
@[inline] def Key.place? (size : Nat) : Key → Option Nat
  | .int n =>
    let i := (n - 1).toUInt64.toNat
    if i < size then some i else none
  | _ => none

/-- The most items that an array has room for, so that each of them is under a key of its own. -/
def Table.maxItems : Nat := 2 ^ 63

structure Table where
  items : Array Value
  slots : Std.TreeMap Key Slot
  order : Array Key
  /-- How many keys fit outside the array. -/
  capacity : Nat
  metatable : Option Nat
  /-- Every key outside the array has its place in the order. -/
  listed : ∀ k ∈ slots, k ∈ order
  /-- What belongs to the array is not kept outside it. -/
  apart : ∀ k ∈ slots, k.place? items.size = none
  fits : items.size ≤ Table.maxItems

namespace Table

/-- A table with nothing outside its array. -/
def ofItems (items : Array Value) (capacity : Nat) (metatable : Option Nat)
    (fits : items.size ≤ maxItems) : Table :=
  ⟨items, ∅, #[], capacity, metatable, fun _ h => absurd h Std.TreeMap.not_mem_emptyc,
    fun _ h => absurd h Std.TreeMap.not_mem_emptyc, fits⟩

def empty : Table := ofItems #[] 0 none (Nat.zero_le _)

instance : Inhabited Table := ⟨empty⟩

/-- The least power of two that is not less than `n`, and nothing for nothing. -/
def roomFor (n : Nat) : Nat := if n == 0 then 0 else if n == 1 then 1 else 2 ^ (Nat.log2 (n - 1) + 1)

/-- An empty table with room for so many items and so many other keys. -/
def ofSizes (items others : Nat) : Table :=
  ofItems (Array.replicate (min items maxItems) .nil) (roomFor others) none
    (by rw [Array.size_replicate]; exact Nat.min_le_right items maxItems)

/-- The place in the array of an integer key, if it lives there. -/
@[inline] def itemIndex? (t : Table) (n : Int64) : Option Nat := (Key.int n).place? t.items.size

def getSlot (t : Table) (k : Key) : Value :=
  match t.slots[k]? with
  | some s => s.value
  | none => .nil

def getInt (t : Table) (n : Int64) : Value :=
  match t.itemIndex? n with
  | some i => t.items.getD i .nil
  | none => t.getSlot (.int n)

def get (t : Table) (k : Key) : Value :=
  match k with
  | .int n => t.getInt n
  | k => t.getSlot k

/-- The value under any value as a key; nothing is stored under nil or NaN. -/
def getValue (t : Table) (v : Value) : Value :=
  match v with
  | .int n => t.getInt n
  | .string s => t.getSlot (.string s)
  | v =>
    match v.key? with
    | some k => t.get k
    | none => .nil

/-! Room is made by counting, for each power of two, the integer keys up to it: the array becomes the
largest one that is more than half full. -/

/-- Among `counts`, of keys in `(2 ^ (i - 1), 2 ^ i]`, finds the best size of the array and how many
keys go there. -/
def bestSize (total : Nat) : List Nat → Nat → Nat → Nat × Nat → Nat × Nat
  | [], _, _, best => best
  | c :: rest, power, below, best =>
    if total > power / 2 then
      let below := below + c
      bestSize total rest (2 * power) below (if below > power / 2 then (power, below) else best)
    else best

/-- The number of the power-of-two range that an integer key is in. -/
def rangeOf (n : Int64) : Option Nat :=
  if 0 < n then
    let m := n.toInt.toNat
    if m == 1 then some 0 else some (Nat.log2 (m - 1) + 1)
  else none

def countKey (counts : Array Nat) (k : Key) : Array Nat :=
  match k with
  | .int n =>
    match rangeOf n with
    | some i => counts.modify i (· + 1)
    | none => counts
  | _ => counts

/-- Counts the integer keys in use, by ranges. -/
def keyCounts (t : Table) (extra : Key) : Array Nat :=
  let counts := countKey (Array.replicate 64 0) extra
  let counts := t.items.size.fold (fun i _ counts =>
    if (t.items.getD i .nil).isNil then counts
    else countKey counts (.int (Int64.ofNat (i + 1)))) counts
  t.order.foldl (fun counts k => if (t.getSlot k).isNil then counts else countKey counts k) counts

/-- Stores in the array. -/
def putItem (t : Table) (i : Nat) (v : Value) : Table :=
  { t with
    items := t.items.setIfInBounds i v
    apart := by simpa using t.apart
    fits := by simpa using t.fits }

/-- A slot for a key comes in addition to those that are there. -/
theorem mem_insert {slots : Std.TreeMap Key Slot} {k l : Key} {s : Slot} (h : l ∈ slots.insert k s) :
    l = k ∨ l ∈ slots :=
  (Std.TreeMap.mem_insert.1 h).imp_left fun h => (Std.LawfulEqOrd.eq_of_compare h).symm

/-- Puts another slot in place of that of a key. -/
def putSlot (t : Table) (k : Key) (s : Slot) (h : k ∈ t.slots) : Table :=
  { t with
    slots := t.slots.insert k s
    listed := fun l hl => t.listed l ((mem_insert hl).elim (· ▸ h) id)
    apart := fun l hl => t.apart l ((mem_insert hl).elim (· ▸ h) id) }

/-- Stores under a key that is known to be new outside the array. -/
def append (t : Table) (k : Key) (v : Value) (h : k.place? t.items.size = none) : Table :=
  { t with
    slots := t.slots.insert k ⟨v, t.order.size⟩
    order := t.order.push k
    listed := fun l hl =>
      Array.mem_push.2 ((mem_insert hl).symm.imp_left (t.listed l))
    apart := fun l hl => (mem_insert hl).elim (· ▸ h) (t.apart l) }

/-- Moves a key to where it belongs in the table `into`. -/
def move (into : Table) (k : Key) (v : Value) : Table :=
  if v.isNil then into
  else
    match h : k.place? into.items.size with
    | some i => into.putItem i v
    | none => into.append k v h

/-- The array of a table with room for so many items, and nothing outside it. -/
def cut (t : Table) (items others : Nat) (h : items ≤ maxItems) : Table :=
  let kept := t.items.extract 0 (min items t.items.size)
  ofItems (kept ++ Array.replicate (items - kept.size) .nil) (roomFor others) t.metatable
    (by simp only [kept, Array.size_append, Array.size_replicate, Array.size_extract]; omega)

/-- The same contents in a table with other room. -/
def resize (t : Table) (items others : Nat) : Table :=
  let items := min items maxItems
  let fresh := t.cut items others (Nat.min_le_right _ _)
  let fresh := (t.items.size - items).fold (fun i _ into =>
    into.move (.int (Int64.ofNat (items + i + 1))) (t.items.getD (items + i) .nil)) fresh
  t.order.foldl (fun into k => into.move k (t.getSlot k)) fresh

/-- Makes room for one more key. -/
def makeRoom (t : Table) (extra : Key) : Table :=
  let counts := t.keyCounts extra
  let integers := counts.foldl (· + ·) 0
  let (size, moved) := bestSize integers counts.toList 1 0 (0, 0)
  let inItems := t.items.foldl (fun n v => if v.isNil then n else n + 1) 0
  let others := t.order.foldl (fun n k => if (t.getSlot k).isNil then n else n + 1) 0
  t.resize size (inItems + others + 1 - moved)

/-- Stores under a key outside the array, nil to remove it. -/
def setSlot (t : Table) (k : Key) (v : Value) (h : k.place? t.items.size = none) : Table :=
  match there : t.slots[k]? with
  | some s =>
    t.putSlot k { s with value := v } (Std.TreeMap.mem_iff_isSome_getElem?.2 (by rw [there]; rfl))
  | none =>
    if v.isNil then t
    else if t.order.size < t.capacity then t.append k v h
    else (t.makeRoom k).move k v

def set (t : Table) (k : Key) (v : Value) : Table :=
  match h : k.place? t.items.size with
  | some i => t.putItem i v
  | none => t.setSlot k v h

def setInt (t : Table) (n : Int64) (v : Value) : Table := t.set (.int n) v

/-- A key that holds a value such that the next one does not, between `low`, which does, and `high`,
which does not. -/
def borderBetween (t : Table) : Nat → Nat → Nat → Nat
  | 0, low, _ => low
  | fuel + 1, low, high =>
    if high - low > 1 then
      let middle := (low + high) / 2
      if (t.getInt (Int64.ofNat middle)).isNil then borderBetween t fuel low middle
      else borderBetween t fuel middle high
    else low

/-- Looks for a key that holds nothing by doubling, from `low`, which holds a value. -/
def borderAbove (t : Table) : Nat → Nat → Nat
  | 0, low => low
  | fuel + 1, low =>
    let high := if low == 0 then 1 else 2 * low
    if high ≥ 2 ^ 63 then low
    else if (t.getInt (Int64.ofNat high)).isNil then borderBetween t 64 low high
    else borderAbove t fuel high

/-- A border: a key that holds a value, or 0, such that the next one does not. -/
def length (t : Table) : Nat :=
  let n := t.items.size
  if n > 0 && (t.items.getD (n - 1) .nil).isNil then
    if n > 1 && !(t.items.getD (n - 2) .nil).isNil then n - 1 else borderBetween t 64 0 n
  else if t.order.isEmpty || (t.getInt (Int64.ofNat (n + 1))).isNil then n
  else borderAbove t 64 (n + 1)

/-- The first item from position `i` on that holds a value. -/
def nextItem (t : Table) (i : Nat) : Option (Value × Value) :=
  if h : i < t.items.size then
    if t.items[i].isNil then nextItem t (i + 1)
    else some (.int (Int64.ofNat (i + 1)), t.items[i])
  else none
termination_by t.items.size - i

/-- The first key from position `i` of the order on that holds a value. -/
def nextSlot (t : Table) (i : Nat) : Option (Value × Value) :=
  if h : i < t.order.size then
    let v := t.getSlot t.order[i]
    if v.isNil then nextSlot t (i + 1) else some (Value.ofKey t.order[i], v)
  else none
termination_by t.order.size - i

/-- What comes after a key when a table is gone through. -/
inductive Following where
  | entry (key value : Value)
  | finished
  | unknownKey

def followingOf : Option (Value × Value) → Following
  | some (k, v) => .entry k v
  | none => .finished

def next (t : Table) (v : Value) : Following :=
  let fromItem (i : Nat) : Following :=
    match t.nextItem i with
    | some (k, v) => .entry k v
    | none => followingOf (t.nextSlot 0)
  let fromSlot (k : Key) : Following :=
    match t.slots[k]? with
    | some s => followingOf (t.nextSlot (s.position + 1))
    | none => .unknownKey
  match v with
  | .nil => fromItem 0
  | v =>
    match v.key? with
    | none => .unknownKey
    | some (.int n) =>
      match t.itemIndex? n with
      | some i => fromItem (i + 1)
      | none => fromSlot (.int n)
    | some k => fromSlot k

/-- Stores values under consecutive integers, making room in the array for all of them. -/
def setList (t : Table) (first : Nat) (values : Array Value) : Table :=
  let last := first + values.size - 1
  let t := if last > t.items.size && values.size > 0 then t.resize last t.capacity else t
  values.size.fold (fun i _ t => t.setInt (Int64.ofNat (first + i)) (values.getD i .nil)) t

/-- A table of the given values under 1, 2, … -/
def ofArray (values : Array Value) : Table := empty.setList 1 values

end Table

end Gauge.Script
