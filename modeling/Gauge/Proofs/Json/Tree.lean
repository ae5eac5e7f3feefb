import Gauge.Proofs.Json.Record

/-!
JSON values of any kind, and the value that a text is. Numbers are read as the doubles nearest to what their
digits stand for, whatever becomes of them where a record is read. Every text that is written for a value, in
which numbers are finite, is that value.
-/

namespace Gauge.Json

inductive Tree where
  | null
  | boolean (b : Bool)
  | number (x : Float)
  | string (s : String)
  | list (items : List Tree)
  | object (members : List (String × Tree))

namespace Reader

variable {α : Type}

/-- The digits of a number, of which the sign has been read, and the double that they are nearest to. -/
def exactNumber (negative : Bool) : Reader Float := do
  let before ← get
  skipNumber
  let after ← get
  let digits := before.rest.take (before.rest.length - after.rest.length)
  match Literal.read (String.ofList (if negative then '-' :: digits else digits)) with
  | .ok x => return x
  | .error _ => failAhead .invalidNumber

def namedItems (item : Reader α) : Nat → Bool → List (String × α) → Reader (List (String × α))
  | 0, _, acc => return acc.reverse
  | fuel + 1, first, acc => do
    if ← hasKey first then
      let name ← Reader.string "a string"
      colon
      let a ← item
      namedItems item fuel false ((name, a) :: acc)
    else return acc.reverse

/-- The members of an object in their order, those of one name included. -/
def object (item : Reader α) : Reader (List (String × α)) := do
  let _ ← nextOfValue
  advance
  enclosed (do namedItems item ((← get).rest.length + 1) true []) closeObject

def tree : Nat → Reader Tree
  | 0 => failAhead .endInValue
  | depth + 1 => do
    match ← nextOfValue with
    | 'n' =>
      advance
      word ['u', 'l', 'l']
      return .null
    | 't' =>
      advance
      word ['r', 'u', 'e']
      return .boolean true
    | 'f' =>
      advance
      word ['a', 'l', 's', 'e']
      return .boolean false
    | '-' =>
      advance
      return .number (← exactNumber true)
    | '"' => return .string (← Reader.string "a string")
    | '[' => return .list (← list (tree depth))
    | '\x7b' => return .object (← object (tree depth))
    | c => if c.isDigit then return .number (← exactNumber false) else failAhead .valueExpected

end Reader

/-- The value that a text is. Nothing in it is nested deeper than it is long. -/
def Tree.ofText (s : String) : Except Error Tree := Reader.whole (Reader.tree (s.length + 1)) s

namespace Reader

open Literal Binary64

variable {α : Type}

theorem takes_word (w rest : List Char) : Takes (word w) w () rest := by
  induction w with
  | nil => exact takes_pure () rest
  | cons c w ih =>
      unfold word
      refine (takes_peek _).bind_first ?_
      simp only [List.cons_append, List.head?_cons, beq_self_eq_true, if_true]
      exact (takes_advance c _).bind ih

/-! Numbers that are skipped. -/

theorem takes_skipExponent (k : Int) {rest : List Char} (stops : Stops rest) :
    Takes skipExponent (exponentText true k) () rest := by
  have hne : Nat.toDigits 10 k.natAbs ≠ [] := Nat.toDigits_ne_nil
  have hdigits : ∀ c ∈ Nat.toDigits 10 k.natAbs, c.isDigit = true := fun c hc => isDigit_of_mem_repr hc
  have htext : exponentText true k = ['e'] ++ ([if k < 0 then '-' else '+'] ++ Nat.toDigits 10 k.natAbs) := by
    simp only [exponentText]
    split <;> rfl
  rw [htext]
  generalize Nat.toDigits 10 k.natAbs = digits at hne hdigits
  obtain ⟨c, more, rfl⟩ := List.exists_cons_of_ne_nil hne
  unfold skipExponent
  refine (takes_advance 'e' _).bind ?_
  refine (takes_peek _).bind_first ?_
  extract_lets behind
  have hbehind : Takes (behind ()) (c :: more) () rest := by
    refine (takes_peek _).bind_first ?_
    simp only [List.cons_append, List.head?_cons, hdigits c List.mem_cons_self, if_true]
    exact (takes_takeWhile hdigits stops).bind_last (takes_pure () rest)
  by_cases hk : k < 0
  · simp only [hk, if_true]
    exact (takes_advance '-' _).bind hbehind
  · simp only [hk, if_false]
    exact (takes_advance '+' _).bind hbehind

theorem IsExponent.stops_append {tail rest : List Char} {k : Int} (h : IsExponent tail k) (hends : Ends rest) :
    Stops (tail ++ rest) := by
  cases h with
  | absent => exact hends.stops
  | present k hk => simp [Stops, exponentText]

theorem IsNumber.exists_whole {text : List Char} {d : Decimal} (h : IsNumber text d) :
    ∃ whole tail, text = whole ++ tail ∧ IsWhole whole ∧
      ((∃ fraction power k, tail = '.' :: (fraction ++ power) ∧ (∀ c ∈ fraction, c.isDigit = true) ∧
        fraction ≠ [] ∧ IsExponent power k) ∨ ∃ k, tail = exponentText true k) := by
  cases h with
  | fraction hw hf hne ht => exact ⟨_, _, rfl, hw, .inl ⟨_, _, _, rfl, hf, hne, ht⟩⟩
  | exponent hw hk => exact ⟨_, _, rfl, hw, .inr ⟨_, rfl⟩⟩

theorem takes_skipNumber {text : List Char} {d : Decimal} (h : IsNumber text d) {rest : List Char}
    (hends : Ends rest) : Takes skipNumber text () rest := by
  obtain ⟨whole, tail, rfl, hw, htail⟩ := h.exists_whole
  obtain ⟨c, more, rfl⟩ := List.exists_cons_of_ne_nil hw.ne_nil
  have hc : (!c.isDigit) = false := by simp [hw.digits c]
  unfold skipNumber
  refine (takes_peek _).bind_first ?_
  simp -zeta only [List.cons_append, List.head?_cons, hc, Bool.false_eq_true, if_false]
  extract_lets ending behind
  have hbehind : Takes (behind ()) tail () rest := by
    refine (takes_peek _).bind_first ?_
    rcases htail with ⟨fraction, power, k, rfl, hf, hne, ht⟩ | ⟨k, rfl⟩
    · have hsome : fraction.isEmpty = false := by simpa using hne
      refine (takes_advance '.' _).bind ?_
      refine (takes_takeWhile hf (ht.stops_append hends)).bind ?_
      simp only [hsome, Bool.false_eq_true, if_false]
      refine (takes_peek _).bind_first ?_
      cases ht with
      | absent =>
          split
          · rename_i heq
            exact absurd rfl (hends _ heq).2.2.1
          · rename_i heq
            exact absurd rfl (hends _ heq).2.2.2
          · exact takes_pure () rest
      | present k hk => exact takes_skipExponent k hends.stops
    · exact takes_skipExponent k hends.stops
  have hstops : Stops (tail ++ rest) := by
    rcases htail with ⟨fraction, power, k, rfl, -⟩ | ⟨k, rfl⟩ <;> simp [Stops, exponentText]
  -- a zero has to stand alone, and it does: what follows the digits is no digit
  by_cases hzero : c = '0'
  · subst hzero
    obtain rfl : more = [] := (List.cons.inj (hw.leading rfl)).2
    have hfollowing : ((tail ++ rest).head?.map Char.isDigit).getD false = false := by
      cases hhead : (tail ++ rest).head? with
      | none => rfl
      | some d => exact hstops d hhead
    simp -zeta only [beq_self_eq_true, if_true]
    refine (takes_advance '0' _).bind ?_
    refine (takes_peek _).bind_first ?_
    simp -zeta only [hfollowing, Bool.false_eq_true, if_false]
    exact hbehind
  · simp -zeta only [beq_iff_eq, hzero, if_false]
    exact (takes_takeWhile hw.digits hstops).bind hbehind

/-! Numbers that are finite. -/

theorem takes_exactNumber {x : Float} {negative : Bool} {m : Nat} {e : Int} (h : x.decode = .finite negative m e)
    {rest : List Char} (hends : Ends rest) :
    Takes (exactNumber negative) (numberStyle.magnitude m e).toList x rest := by
  have hskipped := takes_skipNumber (isNumber_writtenMagnitude (canonical_of_ofBits h)).1 hends
  have hread := NumeralStyle.read_write numberStyle h
  rw [← String.ofList_toList (s := numberStyle.write x), NumeralStyle.toList_write numberStyle h] at hread
  generalize (numberStyle.magnitude m e).toList = text at hskipped hread
  unfold exactNumber
  refine takes_get fun place => ?_
  refine hskipped.bind_last ?_
  refine takes_get fun place' => ?_
  have hdigits : (text ++ rest).take ((text ++ rest).length - ([] ++ rest).length) = text := by simp
  have hsigned : (if negative then '-' :: text else text) = (if negative then ['-'] else []) ++ text := by
    cases negative <;> rfl
  simp only [hdigits, hsigned, hread]
  exact takes_pure x rest

/-! Objects. -/

theorem takes_namedItems {item : Reader α} {members : List (String × List Char × α)}
    (h : ∀ m ∈ members, ∀ rest, Ends rest → Takes item m.2.1 m.2.2 rest) (fuel : Nat) (first : Bool)
    (acc : List (String × α)) (hfuel : members.length < fuel) (rest : List Char) :
    Takes (namedItems item fuel first acc) (joined first (members.map fun m => member m.1 m.2.1))
      (acc.reverse ++ members.map fun m => (m.1, m.2.2)) ('\x7d' :: rest) := by
  induction members generalizing fuel first acc with
  | nil =>
      obtain ⟨fuel, rfl⟩ : ∃ n, fuel = n + 1 := ⟨fuel - 1, by omega⟩
      unfold namedItems
      refine (takes_hasKey_end first rest).bind_first ?_
      simp only [List.map_nil, List.append_nil]
      exact takes_pure _ _
  | cons m members ih =>
      obtain ⟨fuel, rfl⟩ : ∃ n, fuel = n + 1 := ⟨fuel - 1, by omega⟩
      have hitem := h m List.mem_cons_self _ (ends_joined (members.map fun m => member m.1 m.2.1) (c := '\x7d')
        (by simp) rest)
      have hrest := ih (fun m' hm' => h m' (List.mem_cons_of_mem m hm')) fuel false ((m.1, m.2.2) :: acc)
        (by simpa using hfuel)
      rw [List.reverse_cons, List.append_assoc, List.singleton_append] at hrest
      have htext : member m.1 m.2.1 ++ joined false (members.map fun m => member m.1 m.2.1) =
          (Json.string m.1).toList ++
            ([':'] ++ (m.2.1 ++ joined false (members.map fun m => member m.1 m.2.1))) := by
        simp [member]
      unfold namedItems
      rw [List.map_cons, joined, htext]
      refine Takes.bind (a := true) ?_ ?_
      · rw [toList_string]
        exact takes_hasKey first _
      · refine (takes_string "a string" m.1 _).bind ?_
        refine (takes_colon _).bind ?_
        exact hitem.bind hrest

theorem takes_object {item : Reader α} {members : List (String × List Char × α)}
    (h : ∀ m ∈ members, ∀ rest, Ends rest → Takes item m.2.1 m.2.2 rest) (rest : List Char) :
    Takes (object item) ('\x7b' :: (joined true (members.map fun m => member m.1 m.2.1) ++ ['\x7d']))
      (members.map fun m => (m.1, m.2.2)) rest := by
  unfold object
  refine (takes_nextOfValue (by decide) _).bind_first ?_
  refine (takes_advance '\x7b' _).bind ?_
  refine takes_enclosed ?_ (takes_closeObject rest)
  refine takes_get fun place => takes_namedItems h _ true [] ?_ rest
  have hlength : members.length ≤ (joined true (members.map fun m => member m.1 m.2.1)).length := by
    refine le_trans (by simp) (length_le_joined (fun text htext => ?_) true)
    obtain ⟨m, -, rfl⟩ := List.mem_map.1 htext
    simp [member]
  simp only [List.length_append]
  omega

theorem length_le_joined_of_mem {texts : List (List Char)} {text : List Char} (h : text ∈ texts) (first : Bool) :
    text.length ≤ (joined first texts).length := by
  induction texts generalizing first with
  | nil => cases h
  | cons t texts ih =>
      simp only [joined, List.length_append]
      rcases List.mem_cons.1 h with rfl | h
      · omega
      · have := ih h false
        omega

theorem length_lt_array {items : List String} {s : String} (h : s ∈ items) :
    s.length < (Json.array items).length := by
  have := length_le_joined_of_mem (List.mem_map_of_mem (f := String.toList) h) true
  rw [← String.length_toList, ← String.length_toList (s := Json.array items), toList_array]
  simp only [List.length_cons, List.length_append]
  omega

theorem length_lt_object {members : List (String × String)} {m : String × String} (h : m ∈ members) :
    m.2.length < (Json.object members).length := by
  have := length_le_joined_of_mem (List.mem_map_of_mem (f := fun m => member m.1 m.2.toList) h) true
  rw [← String.length_toList, ← String.length_toList (s := Json.object members), toList_object]
  simp only [member, List.length_cons, List.length_append] at this ⊢
  omega

end Reader

/-! Values that are written. -/

open Reader in
/-- The text of a value as it is written. What is no finite number has none. -/
inductive IsText : String → Tree → Prop where
  | null : IsText "null" .null
  | boolean (b : Bool) : IsText (if b then "true" else "false") (.boolean b)
  | number {x : Float} (h : x.isFinite = true) : IsText (Json.number x) (.number x)
  | string (s : String) : IsText (Json.string s) (.string s)
  | list {items : List (String × Tree)} (h : ∀ i ∈ items, IsText i.1 i.2) :
      IsText (Json.array (items.map (·.1))) (.list (items.map (·.2)))
  | object {members : List (String × String × Tree)} (h : ∀ m ∈ members, IsText m.2.1 m.2.2) :
      IsText (Json.object (members.map fun m => (m.1, m.2.1))) (.object (members.map fun m => (m.1, m.2.2)))

namespace IsText

open Reader

variable {s : String} {t : Tree}

theorem head (h : IsText s t) : ∃ c more, s.toList = c :: more ∧ isSpace c = false ∧ c ≠ ']' := by
  cases h with
  | null => exact ⟨'n', _, rfl, by decide, by decide⟩
  | boolean b => cases b <;> exact ⟨_, _, rfl, by decide, by decide⟩
  | string s => exact ⟨'"', _, toList_string s, by decide, by decide⟩
  | list h => exact ⟨'[', _, toList_array _, by decide, by decide⟩
  | object h => exact ⟨'\x7b', _, toList_object _, by decide, by decide⟩
  | number h =>
      obtain ⟨negative, m, e, hx⟩ := Float.exists_decode_of_isFinite h
      obtain ⟨c, more, hhead, hdigit⟩ := (NumeralStyle.isMagnitude_magnitude numberStyle m e).head
      rw [Json.number, NumeralStyle.toList_write numberStyle hx, hhead]
      cases negative with
      | true => exact ⟨'-', _, rfl, by decide, by decide⟩
      | false =>
          refine ⟨c, more, rfl, isSpace_of_isDigit hdigit, ?_⟩
          rintro rfl
          exact absurd hdigit (by decide)

/-- A text inside brackets is shorter than what the brackets are around. -/
theorem takes_item {depth : Nat} {rest : List Char} (hdepth : s.length < depth)
    (h : ∀ depth, s.length ≤ depth → Takes (tree (depth + 1)) s.toList t rest) : Takes (tree depth) s.toList t rest := by
  obtain ⟨depth, rfl⟩ : ∃ n, depth = n + 1 := ⟨depth - 1, by omega⟩
  exact h depth (by omega)

theorem takes_number {x : Float} (h : x.isFinite = true) (depth : Nat) {rest : List Char} (hends : Ends rest) :
    Takes (tree (depth + 1)) (Json.number x).toList (.number x) rest := by
  obtain ⟨negative, m, e, hx⟩ := Float.exists_decode_of_isFinite h
  have hnumber := takes_exactNumber hx hends
  rw [Json.number, NumeralStyle.toList_write numberStyle hx]
  unfold tree
  cases negative with
  | true =>
      refine (takes_nextOfValue (by decide) _).bind_first ?_
      exact (takes_advance '-' _).bind (hnumber.bind_last (takes_pure _ rest))
  | false =>
      obtain ⟨c, more, hhead, hdigit⟩ := (NumeralStyle.isMagnitude_magnitude numberStyle m e).head
      rw [hhead] at hnumber ⊢
      refine (takes_nextOfValue (isSpace_of_isDigit hdigit) _).bind_first ?_
      -- a digit is none of the characters that other values begin with
      split
      all_goals try exact absurd hdigit (by decide)
      rw [if_pos hdigit]
      exact hnumber.bind_last (takes_pure _ rest)

theorem takes_items {items : List (String × Tree)} (h : ∀ i ∈ items, IsText i.1 i.2) {depth : Nat}
    (taken : ∀ i ∈ items, ∀ rest, Ends rest → Takes (tree depth) i.1.toList i.2 rest) (rest : List Char) :
    Takes (tree (depth + 1)) (Json.array (items.map (·.1))).toList (.list (items.map (·.2))) rest := by
  have hlist : IsList (tree depth) (items.map fun i => (i.1.toList, i.2)) := by
    constructor
    · intro x hx rest hends
      obtain ⟨i, hi, rfl⟩ := List.mem_map.1 hx
      exact taken i hi rest hends
    · intro x hx
      obtain ⟨i, hi, rfl⟩ := List.mem_map.1 hx
      exact (h i hi).head
  have htaken := takes_list hlist rest
  simp only [List.map_map, Function.comp_def] at htaken
  unfold tree
  rw [toList_array, List.map_map]
  refine (takes_nextOfValue (by decide) _).bind_first ?_
  exact htaken.bind_last (takes_pure _ rest)

theorem takes_members {members : List (String × String × Tree)} {depth : Nat}
    (taken : ∀ m ∈ members, ∀ rest, Ends rest → Takes (tree depth) m.2.1.toList m.2.2 rest)
    (rest : List Char) :
    Takes (tree (depth + 1)) (Json.object (members.map fun m => (m.1, m.2.1))).toList
      (.object (members.map fun m => (m.1, m.2.2))) rest := by
  have hitems : ∀ x ∈ members.map fun m => (m.1, m.2.1.toList, m.2.2), ∀ rest, Ends rest →
      Takes (tree depth) x.2.1 x.2.2 rest := by
    intro x hx rest hends
    obtain ⟨m, hm, rfl⟩ := List.mem_map.1 hx
    exact taken m hm rest hends
  have htaken := takes_object hitems rest
  simp only [List.map_map, Function.comp_def] at htaken
  unfold tree
  rw [toList_object, List.map_map]
  refine (takes_nextOfValue (by decide) _).bind_first ?_
  exact htaken.bind_last (takes_pure _ rest)

theorem takes_tree (h : IsText s t) (depth : Nat) (hdepth : s.length ≤ depth) (rest : List Char)
    (hends : Ends rest) : Takes (tree (depth + 1)) s.toList t rest := by
  induction h generalizing depth rest with
  | null =>
      unfold tree
      refine (takes_nextOfValue (by decide) _).bind_first ?_
      exact (takes_advance 'n' _).bind ((takes_word _ _).bind_last (takes_pure _ _))
  | boolean b =>
      unfold tree
      cases b with
      | true =>
          refine (takes_nextOfValue (by decide) _).bind_first ?_
          exact (takes_advance 't' _).bind ((takes_word _ _).bind_last (takes_pure _ _))
      | false =>
          refine (takes_nextOfValue (by decide) _).bind_first ?_
          exact (takes_advance 'f' _).bind ((takes_word _ _).bind_last (takes_pure _ _))
  | string s =>
      have hstring := takes_string "a string" s rest
      unfold tree
      rw [toList_string] at hstring ⊢
      refine (takes_nextOfValue (by decide) _).bind_first ?_
      exact hstring.bind_last (takes_pure _ rest)
  | number h => exact takes_number h depth hends
  | @list items h ih =>
      refine takes_items h (fun i hi rest hends => ?_) rest
      have hlt := length_lt_array (List.mem_map_of_mem (f := (·.1)) hi)
      exact takes_item (by omega) fun depth hle => ih i hi depth hle rest hends
  | @object members h ih =>
      refine takes_members (fun m hm rest hends => ?_) rest
      have hlt : m.2.1.length < _ := length_lt_object (List.mem_map_of_mem (f := fun m => (m.1, m.2.1)) hm)
      exact takes_item (by omega) fun depth hle => ih m hm depth hle rest hends

theorem ofText_eq (h : IsText s t) : Tree.ofText s = .ok t := by
  have htaken := h.takes_tree s.length le_rfl [] (by simp [Ends])
  exact whole_eq htaken

/-! One line. -/

theorem newline_notMem_escape (c : Char) : '\n' ∉ escape c := by
  have hhex : ∀ n < 16, '\n' ≠ hexDigit n := by decide
  simp only [escape, beq_iff_eq]
  split_ifs
  all_goals try decide
  · have hhigh := hhex (c.toNat / 16) (by omega)
    have hlow := hhex (c.toNat % 16) (by omega)
    simp [hhigh, hlow]
  · simpa [eq_comm]

theorem newline_notMem_string (s : String) : '\n' ∉ (Json.string s).toList := by
  rw [toList_string]
  simp [newline_notMem_escape]

theorem newline_notMem_joined {texts : List (List Char)} (h : ∀ text ∈ texts, '\n' ∉ text) (first : Bool) :
    '\n' ∉ joined first texts := by
  induction texts generalizing first with
  | nil => simp [joined]
  | cons text texts ih =>
      have htext := h text List.mem_cons_self
      have hmore := ih (fun t ht => h t (List.mem_cons_of_mem text ht)) false
      cases first <;> simp [joined, htext, hmore]

theorem newline_notMem (h : IsText s t) : '\n' ∉ s.toList := by
  induction h with
  | null => decide
  | boolean b => cases b <;> decide
  | string s => exact newline_notMem_string s
  | number h =>
      obtain ⟨negative, m, e, hx⟩ := Float.exists_decode_of_isFinite h
      exact fun hmem => absurd (NumeralStyle.isBlank_of_mem_write numberStyle hx hmem) (by decide)
  | @list items h ih =>
      have hitems : ∀ text ∈ (items.map (·.1)).map String.toList, '\n' ∉ text := by
        rw [List.map_map]
        rintro _ htext
        obtain ⟨i, hi, rfl⟩ := List.mem_map.1 htext
        exact ih i hi
      have hjoined := newline_notMem_joined hitems true
      rw [toList_array, List.mem_cons, List.mem_append]
      simp only [hjoined, List.mem_singleton, false_or]
      decide
  | @object members h ih =>
      have hmembers : ∀ text ∈ (members.map fun m => (m.1, m.2.1)).map fun m => member m.1 m.2.toList,
          '\n' ∉ text := by
        rw [List.map_map]
        rintro _ htext
        obtain ⟨m, hm, rfl⟩ := List.mem_map.1 htext
        simp [member, newline_notMem_string, ih m hm]
      have hjoined := newline_notMem_joined hmembers true
      rw [toList_object, List.mem_cons, List.mem_append]
      simp only [hjoined, List.mem_singleton, false_or]
      decide

end IsText

end Gauge.Json
