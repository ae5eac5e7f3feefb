import Gauge.Script.Table
import Mathlib.Tactic.ByContra

/-!
Tables as maps. What is stored under a key is found under it, and everything else is found where it was, also when
room is made on the way and keys move between the slots and the array. Storing again what is there changes nothing
at all, not even the tree in which slots are kept.
-/

namespace Gauge.Script

theorem Value.eq_nil_of_isNil {v : Value} (h : v.isNil = true) : v = .nil := by
  cases v <;> first | rfl | cases h

/-! Places in the array. -/

theorem Key.place?_int (size : Nat) (n : Int64) :
    (Key.int n).place? size = if (n - 1).toUInt64.toNat < size then some (n - 1).toUInt64.toNat else none := rfl

theorem Key.place?_eq_some_iff {k : Key} {size i : Nat} :
    k.place? size = some i ↔ i < size ∧ ∃ n : Int64, k = .int n ∧ (n - 1).toUInt64.toNat = i := by
  cases k with
  | int n =>
      rw [place?_int]
      split <;> grind
  | _ => simp [place?]

theorem Key.place?_inj {k l : Key} {size size' i : Nat} (h : k.place? size = some i)
    (h' : l.place? size' = some i) : k = l := by
  obtain ⟨-, m, rfl, hm⟩ := place?_eq_some_iff.1 h
  obtain ⟨-, n, rfl, hn⟩ := place?_eq_some_iff.1 h'
  have h : (m - 1).toUInt64 = (n - 1).toUInt64 := UInt64.toNat_inj.1 (hm.trans hn.symm)
  have h : m - 1 = n - 1 := congrArg Int64.ofUInt64 h
  rw [← Int64.sub_add_cancel m 1, h, Int64.sub_add_cancel]

/-- A key has the same place in any array that is long enough. -/
theorem Key.place?_of_lt {k : Key} {size size' i : Nat} (h : k.place? size = some i) (hi : i < size') :
    k.place? size' = some i :=
  place?_eq_some_iff.2 ⟨hi, (place?_eq_some_iff.1 h).2⟩

theorem Key.place?_of_le {k : Key} {size size' i : Nat} (h : k.place? size = some i) (hi : size' ≤ i) :
    k.place? size' = none := by
  obtain ⟨-, n, rfl, hn⟩ := place?_eq_some_iff.1 h
  rw [place?_int, hn, if_neg (by omega)]

theorem Key.place?_ofNat {i size : Nat} (h : i < 2 ^ 63) :
    (Key.int (Int64.ofNat (i + 1))).place? size = if i < size then some i else none := by
  have hi : (Int64.ofNat (i + 1) - 1).toUInt64.toNat = i := by
    rw [Int64.ofNat_add, show Int64.ofNat 1 = 1 from rfl, Int64.add_sub_cancel, Int64.toUInt64_ofNat',
      UInt64.toNat_ofNat', Nat.mod_eq_of_lt (by omega)]
  rw [place?_int, hi]

theorem Key.eq_of_place? {k : Key} {size i : Nat} (h : k.place? size = some i) (hi : i < 2 ^ 63) :
    k = .int (Int64.ofNat (i + 1)) :=
  place?_inj h ((place?_ofNat hi).trans (if_pos (place?_eq_some_iff.1 h).1))

/-! Slots. -/

open Std.DTreeMap.Internal in
/-- A tree in which the entry is already does not change: nothing of it has to be balanced again. -/
theorem impl_insert_eq_self {δ : Type} {k : Key} {d : δ} {t : Impl Key fun _ => δ} (balanced : t.Balanced)
    (h : Impl.Const.get? t k = some d) : (t.insert k d balanced).impl = t := by
  have rebalanced {size : Nat} {k' : Key} {d' : δ} {l r l' r' : Impl Key fun _ => δ}
      (balanced : (Impl.inner size k' d' l r).Balanced) (hl : l' = l) (hr : r' = r) :
      (∀ hl' hr' hsize, Impl.balanceL k' d' l' r' hl' hr' hsize = .inner size k' d' l r) ∧
        ∀ hl' hr' hsize, Impl.balanceR k' d' l' r' hl' hr' hsize = .inner size k' d' l r := by
    subst hl hr
    exact ⟨fun _ _ _ => by rw [Impl.balanceL_eq_balance, Impl.balance_eq_inner balanced],
      fun _ _ _ => by rw [Impl.balanceR_eq_balance, Impl.balance_eq_inner balanced]⟩
  induction t with
  | leaf => cases h
  | inner size k' d' l r ihl ihr =>
      simp only [Impl.Const.get?] at h
      simp only [Impl.insert]
      split
      · rename_i hlt
        simp only [hlt] at h
        exact (rebalanced balanced (ihl balanced.left h) rfl).1 _ _ _
      · rename_i hgt
        simp only [hgt] at h
        exact (rebalanced balanced rfl (ihr balanced.right h)).2 _ _ _
      · rename_i heq
        simp only [heq] at h
        obtain rfl := Std.LawfulEqOrd.eq_of_compare heq
        obtain rfl := Option.some.inj h
        rfl

theorem insert_eq_self {δ : Type} {t : Std.TreeMap Key δ} {k : Key} {d : δ} (h : t[k]? = some d) :
    t.insert k d = t := by
  obtain ⟨⟨t, wf⟩⟩ := t
  have := impl_insert_eq_self wf.balanced h
  simp only [Std.TreeMap.insert, Std.DTreeMap.insert, Std.TreeMap.mk.injEq, Std.DTreeMap.mk.injEq]
  exact this

theorem getElem?_insert {δ : Type} (t : Std.TreeMap Key δ) (k l : Key) (d : δ) :
    (t.insert k d)[l]? = if l = k then some d else t[l]? := by
  rw [Std.TreeMap.getElem?_insert]
  simp only [Std.LawfulEqOrd.compare_eq_iff_eq, eq_comm (a := k)]

namespace Table

theorem get_eq (t : Table) (k : Key) :
    t.get k = match k.place? t.items.size with
      | some i => t.items.getD i .nil
      | none => t.getSlot k := by
  cases k <;> rfl

theorem get_of_place?_eq_none {t : Table} {k : Key} (h : k.place? t.items.size = none) : t.get k = t.getSlot k := by
  rw [get_eq, h]

theorem getSlot_of_not_mem {t : Table} {k : Key} (h : k ∉ t.slots) : t.getSlot k = .nil := by
  rw [getSlot, Std.TreeMap.getElem?_eq_none h]

theorem mem_of_getSlot {t : Table} {k : Key} (h : (t.getSlot k).isNil = false) : k ∈ t.slots := by
  by_contra hk
  rw [getSlot_of_not_mem hk] at h
  cases h

theorem getD_items (t : Table) {i : Nat} (hi : i < t.items.size) :
    t.items.getD i .nil = t.get (.int (Int64.ofNat (i + 1))) := by
  have hfits := t.fits
  rw [maxItems] at hfits
  rw [get_eq, Key.place?_ofNat (by omega), if_pos hi]

theorem get_ofSizes (items others : Nat) (l : Key) : (ofSizes items others).get l = .nil := by
  rw [get_eq]
  split
  · rename_i i _
    by_cases hi : i < min items maxItems <;> simp [ofSizes, ofItems, hi]
  · exact getSlot_of_not_mem Std.TreeMap.not_mem_emptyc

/-! Storing in one place. -/

theorem get_putItem {t : Table} {k : Key} {i : Nat} (h : k.place? t.items.size = some i) (v : Value) (l : Key) :
    (t.putItem i v).get l = if l = k then v else t.get l := by
  obtain ⟨hi, -⟩ := Key.place?_eq_some_iff.1 h
  rw [get_eq, get_eq]
  simp only [putItem, Array.size_setIfInBounds]
  cases hl : l.place? t.items.size with
  | none =>
      rw [if_neg (fun heq => by rw [heq, h] at hl; cases hl)]
      rfl
  | some j =>
      by_cases hij : i = j
      · subst hij
        rw [if_pos (Key.place?_inj hl h)]
        simp [hi]
      · rw [if_neg (fun heq => hij (by rw [heq, h] at hl; exact Option.some.inj hl))]
        simp [Array.getElem?_setIfInBounds_ne hij]

theorem get_putSlot (t : Table) {k : Key} (s : Slot) (h : k ∈ t.slots) (l : Key) :
    (t.putSlot k s h).get l = if l = k then s.value else t.get l := by
  have outside := t.apart k h
  rw [get_eq, get_eq]
  simp only [putSlot]
  cases hl : l.place? t.items.size with
  | some j => rw [if_neg (fun heq => by rw [heq, outside] at hl; cases hl)]
  | none =>
      simp only [getSlot, getElem?_insert]
      by_cases heq : l = k <;> simp [heq]

theorem get_append (t : Table) {k : Key} (v : Value) (h : k.place? t.items.size = none) (l : Key) :
    (t.append k v h).get l = if l = k then v else t.get l := by
  rw [get_eq, get_eq]
  simp only [append]
  cases hl : l.place? t.items.size with
  | some j => rw [if_neg (fun heq => by rw [heq, h] at hl; cases hl)]
  | none =>
      simp only [getSlot, getElem?_insert]
      by_cases heq : l = k <;> simp [heq]

theorem get_move (t : Table) (k : Key) (v : Value) (l : Key) :
    (t.move k v).get l = if l = k ∧ v.isNil = false then v else t.get l := by
  simp only [move]
  split
  · rename_i hnil
    simp [hnil]
  · rename_i hnil
    simp only [hnil, and_true]
    split
    · exact get_putItem ‹_› v l
    · exact get_append t v _ l

/-! Making room. -/

/-- What is moved is found under the keys that it is moved to. -/
theorem get_foldl_move {ι : Type} (is : List ι) {key : ι → Key} {value : ι → Value} {f : Key → Value}
    (h : ∀ i ∈ is, value i = f (key i)) (t : Table) (l : Key) :
    (is.foldl (fun into i => into.move (key i) (value i)) t).get l =
      if (∃ i ∈ is, l = key i) ∧ (f l).isNil = false then f l else t.get l := by
  induction is generalizing t with
  | nil => simp
  | cons i is ih =>
      rw [List.foldl_cons, ih (fun j hj => h j (List.mem_cons_of_mem i hj)), get_move, h i List.mem_cons_self]
      by_cases hl : l = key i
      · by_cases hnil : (f l).isNil = true <;> simp [← hl, hnil]
      · simp [hl]

theorem get_cut (t : Table) {items : Nat} (others : Nat) (h : items ≤ maxItems) (l : Key) :
    (t.cut items others h).get l = match l.place? items with
      | some i => t.items.getD i .nil
      | none => .nil := by
  have size : (t.cut items others h).items.size = items := by
    simp only [cut, ofItems, Array.size_append, Array.size_replicate, Array.size_extract]
    omega
  rw [get_eq, size]
  cases hl : l.place? items with
  | none => exact getSlot_of_not_mem Std.TreeMap.not_mem_emptyc
  | some i =>
      have hi := (Key.place?_eq_some_iff.1 hl).1
      by_cases hkept : i < t.items.size
      · have : i < min items t.items.size := by omega
        simp [cut, ofItems, Array.getElem?_append, this, hkept]
      · have : ¬ i < min items t.items.size := by omega
        have hreplicated : i - min items t.items.size < items - min items t.items.size := by omega
        simp [cut, ofItems, Array.getElem?_append, this, hkept, hreplicated]

theorem resize_eq (t : Table) (items others : Nat) :
    t.resize items others =
      let items := min items maxItems
      t.order.toList.foldl (fun into k => into.move k (t.getSlot k))
        ((List.finRange (t.items.size - items)).foldl
          (fun into i => into.move (.int (Int64.ofNat (items + i + 1))) (t.items.getD (items + i) .nil))
          (t.cut items others (Nat.min_le_right _ _))) := by
  simp only [resize, ← Array.foldl_toList, Nat.fold_eq_finRange_foldl]

/-- Other room makes no difference to what is found: what the new array does not hold is moved to the slots, and
what stands in slots, to where it belongs now. -/
theorem get_resize (t : Table) (items others : Nat) (l : Key) : (t.resize items others).get l = t.get l := by
  have hfits := t.fits
  rw [maxItems] at hfits
  rw [resize_eq, get_foldl_move (f := t.getSlot) _ (fun _ _ => rfl),
    get_foldl_move (f := t.get) _ fun i _ => t.getD_items (by omega), get_cut]
  generalize min items maxItems = items
  split
  · -- it stood in a slot
    rename_i hslot
    exact (get_of_place?_eq_none (t.apart l (mem_of_getSlot hslot.2))).symm
  rename_i hslot
  split
  · -- it stood in the array, beyond the end of the new one
    rfl
  -- it stays where it is in the array, or there is nothing under the key
  rename_i hmoved
  cases hl : l.place? t.items.size with
  | some i =>
      have hlt := (Key.place?_eq_some_iff.1 hl).1
      rcases Nat.lt_or_ge i items with hi | hi
      · rw [Key.place?_of_lt hl hi, get_eq, hl]
      · have hmoves : ∃ j ∈ List.finRange (t.items.size - items), l = .int (Int64.ofNat (items + j + 1)) := by
          refine ⟨⟨i - items, by omega⟩, List.mem_finRange _, ?_⟩
          rw [Nat.add_sub_cancel' hi]
          exact Key.eq_of_place? hl (by omega)
        have hnil := Value.eq_nil_of_isNil (Bool.of_not_eq_false fun h => hmoved ⟨hmoves, h⟩)
        rw [Key.place?_of_le hl hi, hnil]
  | none =>
      have hnil := Value.eq_nil_of_isNil (Bool.of_not_eq_false fun h =>
        hslot ⟨⟨l, by simpa using t.listed l (mem_of_getSlot h), rfl⟩, h⟩)
      rw [get_of_place?_eq_none hl, hnil]
      cases hl' : l.place? items with
      | none => rfl
      | some j =>
          have hj : ¬ j < t.items.size := fun h => by rw [Key.place?_of_lt hl' h] at hl; cases hl
          simp [hj]

theorem get_makeRoom (t : Table) (extra l : Key) : (t.makeRoom extra).get l = t.get l := get_resize t _ _ l

/-- A table is a map: what is stored under a key is found there, and nothing else is found elsewhere than before. -/
theorem get_set (t : Table) (k : Key) (v : Value) (l : Key) :
    (t.set k v).get l = if l = k then v else t.get l := by
  simp only [set]
  split
  · exact get_putItem ‹_› v l
  rename_i outside
  simp only [setSlot]
  split
  · exact get_putSlot t _ _ l
  rename_i absent
  split
  · rename_i hnil
    split
    · rename_i heq
      rw [heq, get_of_place?_eq_none outside, getSlot, absent, Value.eq_nil_of_isNil hnil]
    · rfl
  · rename_i hnil
    split
    · exact get_append t v outside l
    · rw [get_move, get_makeRoom]
      simp [hnil]

/-- Storing again what is there changes nothing. -/
theorem set_get (t : Table) (k : Key) : t.set k (t.get k) = t := by
  simp only [set]
  split
  · rename_i i hi
    have hlt := (Key.place?_eq_some_iff.1 hi).1
    have : t.items.setIfInBounds i (t.get k) = t.items := by
      have hget : t.get k = t.items[i] := by
        rw [get_eq, hi]
        simp [hlt]
      rw [hget, Array.setIfInBounds_def, dif_pos hlt, Array.set_getElem_self]
    simp [putItem, this]
  rename_i outside
  rw [get_of_place?_eq_none outside, setSlot]
  split
  · rename_i slot there
    have hvalue : t.getSlot k = slot.value := by rw [getSlot, there]
    have : t.slots.insert k { slot with value := t.getSlot k } = t.slots :=
      insert_eq_self (by rw [there, hvalue])
    simp [putSlot, this]
  · rename_i absent
    have hnil : t.getSlot k = .nil := by rw [getSlot, absent]
    rw [hnil]
    rfl

theorem metatable_move (t : Table) (k : Key) (v : Value) : (t.move k v).metatable = t.metatable := by
  simp only [move]
  split
  · rfl
  · split <;> rfl

theorem metatable_foldl_move {ι : Type} (is : List ι) (key : ι → Key) (value : ι → Value) (t : Table) :
    (is.foldl (fun into i => into.move (key i) (value i)) t).metatable = t.metatable := by
  induction is generalizing t with
  | nil => rfl
  | cons i is ih => rw [List.foldl_cons, ih, metatable_move]

theorem metatable_resize (t : Table) (items others : Nat) : (t.resize items others).metatable = t.metatable := by
  rw [resize_eq, metatable_foldl_move, metatable_foldl_move]
  rfl

@[simp]
theorem metatable_set (t : Table) (k : Key) (v : Value) : (t.set k v).metatable = t.metatable := by
  simp only [set]
  split
  · rfl
  simp only [setSlot]
  split
  · rfl
  split
  · rfl
  split
  · rfl
  · exact (metatable_move _ _ _).trans (metatable_resize _ _ _)

/-! Storing one after another. -/

/-- Where a key comes more than once it is given the same value each time. -/
theorem get_foldl_set {ι : Type} (is : List ι) {key : ι → Key} {value : ι → Value} {l : Key} {v : Value}
    (h : ∀ i ∈ is, key i = l → value i = v) (t : Table) :
    (is.foldl (fun t i => t.set (key i) (value i)) t).get l = if l ∈ is.map key then v else t.get l := by
  induction is generalizing t with
  | nil => simp
  | cons i is ih =>
      rw [List.foldl_cons, ih (fun j hj => h j (List.mem_cons_of_mem i hj)), get_set]
      by_cases hl : l = key i
      · simp [hl, h i List.mem_cons_self hl.symm]
      · simp [hl]

theorem metatable_foldl_set {ι : Type} (is : List ι) (key : ι → Key) (value : ι → Value) (t : Table) :
    (is.foldl (fun t i => t.set (key i) (value i)) t).metatable = t.metatable := by
  induction is generalizing t with
  | nil => rfl
  | cons i is ih => rw [List.foldl_cons, ih, metatable_set]

theorem setList_eq (t : Table) (first : Nat) (values : Array Value) :
    ∃ t', (∀ l, t'.get l = t.get l) ∧ t'.metatable = t.metatable ∧
      t.setList first values = (List.finRange values.size).foldl
        (fun t i => t.set (.int (Int64.ofNat (first + i))) (values.getD i .nil)) t' := by
  simp only [setList, Nat.fold_eq_finRange_foldl]
  split
  · exact ⟨_, t.get_resize _ _, t.metatable_resize _ _, rfl⟩
  · exact ⟨t, fun _ => rfl, rfl, rfl⟩

/-- Values stored under consecutive integers are found there, and what is elsewhere stays. -/
theorem get_setList (t : Table) {first : Nat} {values : Array Value} (h : first + values.size ≤ 2 ^ 63) (l : Int64) :
    (t.setList first values).get (.int l) =
      if first ≤ l.toInt ∧ l.toInt < first + values.size then values.getD (l.toInt.toNat - first) .nil
      else t.get (.int l) := by
  obtain ⟨t', hget, -, heq⟩ := setList_eq t first values
  have hmem : Key.int l ∈ (List.finRange values.size).map (fun i => Key.int (Int64.ofNat (first + i.val))) ↔
      first ≤ l.toInt ∧ l.toInt < first + values.size := by
    simp only [List.mem_map, List.mem_finRange, true_and, Key.int.injEq]
    constructor
    · rintro ⟨i, rfl⟩
      rw [Int64.toInt_ofNat_of_lt (by omega)]
      omega
    · intro hl
      refine ⟨⟨l.toInt.toNat - first, by omega⟩, Int64.toInt_inj.1 ?_⟩
      rw [Int64.toInt_ofNat_of_lt (by simp only; omega)]
      simp only
      omega
  have hvalue : ∀ i ∈ List.finRange values.size, Key.int (Int64.ofNat (first + i)) = .int l →
      values.getD i .nil = values.getD (l.toInt.toNat - first) .nil := by
    rintro i - hi
    obtain rfl := Key.int.inj hi
    rw [Int64.toInt_ofNat_of_lt (by omega)]
    congr 1
    omega
  rw [heq, get_foldl_set _ hvalue, hget]
  simp only [hmem]

theorem metatable_setList (t : Table) (first : Nat) (values : Array Value) :
    (t.setList first values).metatable = t.metatable := by
  obtain ⟨t', -, hmeta, heq⟩ := setList_eq t first values
  rw [heq, metatable_foldl_set, hmeta]

end Table

end Gauge.Script
