import Gauge.Proofs.Json.Number

/-!
Lists and records in JSON as they are written, without white space. The members of a record are taken one after
another, each by the field of its name; what the fields make of one another's values does not matter here.
-/

namespace Gauge.Json.Reader

variable {α σ : Type}

/-! Texts with commas between them. -/

/-- What is written of a list from an item on; a comma stands before every item but the first of all. -/
def joined (first : Bool) : List (List Char) → List Char
  | [] => []
  | text :: more => (if first then [] else [',']) ++ (text ++ joined false more)

theorem toList_intercalate (texts : List String) :
    (",".intercalate texts).toList = joined true (texts.map String.toList) := by
  rw [String.toList_intercalate]
  generalize texts.map String.toList = texts
  cases texts with
  | nil => rfl
  | cons text more =>
      change List.intercalate [','] (text :: more) = text ++ joined false more
      induction more generalizing text with
      | nil => simp [joined]
      | cons next more ih =>
          rw [List.intercalate_cons_cons, ih next, List.append_assoc]
          rfl

theorem length_le_joined {texts : List (List Char)} (h : ∀ text ∈ texts, text ≠ []) (first : Bool) :
    texts.length ≤ (joined first texts).length := by
  induction texts generalizing first with
  | nil => exact Nat.zero_le _
  | cons text more ih =>
      have hpos := List.length_pos_iff.2 (h text List.mem_cons_self)
      have := ih (fun t ht => h t (List.mem_cons_of_mem text ht)) false
      simp only [joined, List.length_append, List.length_cons]
      omega

/-! Brackets. -/

theorem takes_enclosed {body : Reader α} {close : Reader Unit} {s t rest : List Char} {a : α}
    (hbody : Takes body s a (t ++ rest)) (hclose : Takes close t () rest) :
    Takes (enclosed body close) (s ++ t) a rest := by
  intro place
  obtain ⟨middle, hb⟩ := hbody place
  obtain ⟨last, hc⟩ := hclose middle
  refine ⟨last, ?_⟩
  rw [List.append_assoc, enclosed, hb]
  simp only [hc]

theorem takes_closeList (rest : List Char) : Takes closeList [']'] () rest := by
  unfold closeList
  refine (takes_next_cons (by decide) rest).bind_first ?_
  exact takes_advance ']' rest

theorem takes_closeObject (rest : List Char) : Takes closeObject ['\x7d'] () rest := by
  unfold closeObject
  refine (takes_next_cons (by decide) rest).bind_first ?_
  exact takes_advance '\x7d' rest

/-! Lists. -/

theorem takes_hasItem (first : Bool) {c : Char} (hspace : isSpace c = false) (hclose : c ≠ ']') (rest : List Char) :
    Takes (hasItem first) (if first then [] else [',']) true (c :: rest) := by
  unfold hasItem
  cases first with
  | true =>
      refine (takes_next_cons hspace rest).bind_first ?_
      simp only [if_true]
      exact takes_pure true _
  | false =>
      refine (takes_next_cons (by decide) _).bind_first ?_
      refine (takes_advance ',' _).bind_last ?_
      refine (takes_next_cons hspace rest).bind_first ?_
      simp only
      exact takes_pure true _

theorem takes_hasItem_end (first : Bool) (rest : List Char) : Takes (hasItem first) [] false (']' :: rest) := by
  unfold hasItem
  refine (takes_next_cons (by decide) rest).bind_first ?_
  exact takes_pure false _

/-- How a list is written, item by item, and what is read of it. -/
structure IsList (item : Reader α) (items : List (List Char × α)) : Prop where
  takes : ∀ x ∈ items, ∀ rest, Ends rest → Takes item x.1 x.2 rest
  head : ∀ x ∈ items, ∃ c more, x.1 = c :: more ∧ isSpace c = false ∧ c ≠ ']'

theorem ends_joined (texts : List (List Char)) {c : Char} (hc : c ∈ [']', '\x7d']) (rest : List Char) :
    Ends (joined false texts ++ c :: rest) := by
  cases texts with
  | nil =>
      simp only [List.mem_cons, List.not_mem_nil, or_false] at hc
      rcases hc with rfl | rfl <;> simp [Ends, joined]
  | cons text more => simp [Ends, joined]

theorem takes_itemsFrom {item : Reader α} {items : List (List Char × α)} (h : IsList item items) (fuel : Nat)
    (first : Bool) (acc : List α) (hfuel : items.length < fuel) (rest : List Char) :
    Takes (itemsFrom item fuel first acc) (joined first (items.map (·.1))) (acc.reverse ++ items.map (·.2))
      (']' :: rest) := by
  induction items generalizing fuel first acc with
  | nil =>
      obtain ⟨fuel, rfl⟩ : ∃ n, fuel = n + 1 := ⟨fuel - 1, by omega⟩
      unfold itemsFrom
      refine (takes_hasItem_end first rest).bind_first ?_
      simp only [List.map_nil, List.append_nil]
      exact takes_pure _ _
  | cons x items ih =>
      obtain ⟨fuel, rfl⟩ : ∃ n, fuel = n + 1 := ⟨fuel - 1, by omega⟩
      obtain ⟨c, more, hhead, hspace, hclose⟩ := h.head x List.mem_cons_self
      have hitem := h.takes x List.mem_cons_self _ (ends_joined (items.map (·.1)) List.mem_cons_self rest)
      have hrest := ih ⟨fun y hy => h.takes y (List.mem_cons_of_mem x hy),
        fun y hy => h.head y (List.mem_cons_of_mem x hy)⟩ fuel false (x.2 :: acc) (by simpa using hfuel)
      rw [List.reverse_cons, List.append_assoc, List.singleton_append] at hrest
      unfold itemsFrom
      rw [List.map_cons, joined]
      refine Takes.bind (a := true) ?_ ?_
      · rw [hhead]
        exact takes_hasItem first hspace hclose _
      · exact hitem.bind hrest

theorem takes_list {item : Reader α} {items : List (List Char × α)} (h : IsList item items) (rest : List Char) :
    Takes (list item) ('[' :: (joined true (items.map (·.1)) ++ [']'])) (items.map (·.2)) rest := by
  unfold list
  refine Takes.placed ?_
  refine (takes_nextOfValue (by decide) _).bind_first ?_
  refine (takes_advance '[' _).bind ?_
  refine takes_enclosed ?_ (takes_closeList rest)
  refine takes_get fun place => takes_itemsFrom h _ true [] ?_ rest
  have hlength : items.length ≤ (joined true (items.map (·.1))).length := by
    refine le_trans (by simp) (length_le_joined (fun text htext => ?_) true)
    obtain ⟨x, hx, rfl⟩ := List.mem_map.1 htext
    obtain ⟨c, more, hhead, -⟩ := h.head x hx
    rw [hhead]
    exact List.cons_ne_nil c more
  simp only [List.length_append]
  omega

/-! Records. -/

/-- A member of an object as it is written. -/
def member (name : String) (text : List Char) : List Char := (Json.string name).toList ++ ':' :: text

/-- The members of an object are read by the fields of their names, no field twice: from `acc` they lead to the
last of the states. -/
inductive IsRecord (s : Shape σ) : σ → List (String × List Char) → σ → Prop where
  | nil (acc : σ) : IsRecord s acc [] acc
  | cons {acc acc' last : σ} {name : String} {text : List Char} {members : List (String × List Char)} {f : Field σ}
      (hf : s.fields.find? (·.name == name) = some f) (hnew : f.isKnown acc = false)
      (htakes : ∀ rest, Ends rest → Takes (f.read acc) text acc' rest) (hrest : IsRecord s acc' members last) :
      IsRecord s acc ((name, text) :: members) last

theorem takes_hasKey (first : Bool) (rest : List Char) :
    Takes (hasKey first) (if first then [] else [',']) true ('"' :: rest) := by
  unfold hasKey
  cases first with
  | true =>
      refine (takes_next_cons (by decide) rest).bind_first ?_
      exact takes_pure true _
  | false =>
      refine (takes_next_cons (by decide) _).bind_first ?_
      refine (takes_advance ',' _).bind_last ?_
      refine (takes_next_cons (by decide) rest).bind_first ?_
      exact takes_pure true _

theorem takes_hasKey_end (first : Bool) (rest : List Char) : Takes (hasKey first) [] false ('\x7d' :: rest) := by
  unfold hasKey
  refine (takes_next_cons (by decide) rest).bind_first ?_
  exact takes_pure false _

theorem takes_colon (rest : List Char) : Takes colon [':'] () rest := by
  unfold colon
  refine (takes_next_cons (by decide) rest).bind_first ?_
  exact takes_advance ':' rest

theorem takes_members {s : Shape σ} {acc last : σ} {members : List (String × List Char)}
    (h : IsRecord s acc members last) (fuel : Nat) (first : Bool) (hfuel : members.length < fuel)
    (rest : List Char) :
    Takes (s.members fuel first acc) (joined first (members.map fun m => member m.1 m.2)) last ('\x7d' :: rest) := by
  induction h generalizing fuel first with
  | nil acc =>
      obtain ⟨fuel, rfl⟩ : ∃ n, fuel = n + 1 := ⟨fuel - 1, by omega⟩
      unfold Shape.members
      refine (takes_hasKey_end first rest).bind_first ?_
      exact takes_pure acc _
  | @cons acc acc' last name text members f hf hnew htakes hrest ih =>
      obtain ⟨fuel, rfl⟩ : ∃ n, fuel = n + 1 := ⟨fuel - 1, by omega⟩
      have hfield := htakes _ (ends_joined (members.map fun m => member m.1 m.2) (c := '\x7d') (by simp) rest)
      have hmore := ih fuel false (by simpa using hfuel)
      have htext : member name text ++ joined false (members.map fun m => member m.1 m.2) =
          ['"'] ++ ((name.toList.flatMap escape ++ ['"']) ++
            ([':'] ++ (text ++ joined false (members.map fun m => member m.1 m.2)))) := by
        simp [member, toList_string]
      unfold Shape.members
      rw [List.map_cons, joined, htext]
      refine (takes_hasKey first _).bind ?_
      refine (takes_advance '"' _).bind ?_
      refine (takes_stringBody name _).bind ?_
      simp only [hf, hnew, Bool.false_eq_true, if_false]
      refine (takes_colon _).bind ?_
      exact hfield.bind hmore

theorem complete_of_isKnown {fields : List (Field σ)} {acc : σ} (h : ∀ f ∈ fields, f.isKnown acc = true) :
    Shape.complete fields acc = pure acc := by
  induction fields with
  | nil => rfl
  | cons f fields ih =>
      rw [Shape.complete, if_pos (h f List.mem_cons_self)]
      exact ih fun g hg => h g (List.mem_cons_of_mem f hg)

theorem takes_read {s : Shape σ} {acc last : σ} {members : List (String × List Char)}
    (h : IsRecord s s.blank members acc) (hcomplete : Shape.complete s.fields acc = pure last) (rest : List Char) :
    Takes s.read ('\x7b' :: (joined true (members.map fun m => member m.1 m.2) ++ ['\x7d'])) last rest := by
  unfold Shape.read
  refine Takes.placed ?_
  refine (takes_nextOfValue (by decide) _).bind_first ?_
  refine (takes_advance '\x7b' _).bind ?_
  refine takes_enclosed ?_ (takes_closeObject rest)
  refine takes_get fun place => ?_
  have hlength : members.length ≤ (joined true (members.map fun m => member m.1 m.2)).length := by
    refine le_trans (by simp) (length_le_joined (fun text htext => ?_) true)
    obtain ⟨m, -, rfl⟩ := List.mem_map.1 htext
    simp [member]
  refine (takes_members h _ true ?_ rest).bind_last ?_
  · simp only [List.length_append]
    omega
  · rw [hcomplete]
    exact takes_pure last _

theorem toList_object (members : List (String × String)) :
    (Json.object members).toList =
      '\x7b' :: (joined true (members.map fun m => member m.1 m.2.toList) ++ ['\x7d']) := by
  have hmember (m : String × String) :
      (Json.string m.1 ++ ":" ++ m.2).toList = member m.1 m.2.toList := by
    simp [member]
  simp only [Json.object, String.toList_append, toList_intercalate, List.map_map, Function.comp_def, hmember]
  rfl

theorem toList_array (items : List String) :
    (Json.array items).toList = '[' :: (joined true (items.map String.toList) ++ [']']) := by
  simp only [Json.array, String.toList_append, toList_intercalate]
  rfl

/-! Whole texts. -/

theorem whole_eq {r : Reader α} {s : String} {a : α} (h : Takes r s.toList a []) : whole r s = .ok a := by
  obtain ⟨place, hr⟩ := h ⟨1, 0⟩
  rw [List.append_nil] at hr
  rw [whole, Cursor.start, hr]
  rfl

end Gauge.Json.Reader
