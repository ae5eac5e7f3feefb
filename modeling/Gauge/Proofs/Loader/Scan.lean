import Gauge.Proofs.FileTree
import Gauge.Proofs.NameMap
import Mathlib

/-!
What a scan of a directory finds, and what a loader keeps of it. A scan tells of each file below the
directory once, in the order of the places; which files these are, and what is told of each, is said here
without the scan. Of several documents with one identifier the loader keeps the one at the last place.
-/

namespace Gauge.Loader

open FileTree

/-- Each of some names is listed in the directory that the names before it lead to. -/
def Occurs (t : FileTree) (root : String) : List String → List String → Prop
  | _, [] => True
  | above, name :: below =>
    (∃ names, t.list (pathOf root above) = .ok names ∧ name ∈ names) ∧
      Occurs t root (above ++ [name]) below

/-- A scan tells of what is called `name` in the directory `above`: nothing on the way is hidden, and it
is no directory; if it is hidden itself it has to be a file. -/
structure IsTold (t : FileTree) (root : String) (above : List String) (name : String) : Prop where
  open_way : ∀ n ∈ above, isHidden n = false
  no_directory : t.isDirectory (pathOf root (above ++ [name])) = false
  file_if_hidden : isHidden name = false ∨ t.isFile (pathOf root (above ++ [name])) = true

/-- What is told of something. -/
def fate (t : FileTree) (root : String) (above : List String) (name : String) : LoadResult :=
  if isHidden name then ⟨above ++ [name], .hidden, .empty⟩
  else tryFile t root (above ++ [name]) name

theorem tryFile_place (t : FileTree) (root : String) (place : List String) (name : String) :
    (tryFile t root place name).place = place := by
  simp only [tryFile]
  split
  · split <;> rfl
  · rfl

theorem fate_place (t : FileTree) (root : String) (above : List String) (name : String) :
    (fate t root above name).place = above ++ [name] := by
  simp only [fate]
  split
  · rfl
  · exact tryFile_place t root _ name

/-! The names of documents. -/

theorem extension?_eq_some_iff {name ending : String} :
    extension? name = some ending ↔
      '.' ∉ ending.toList ∧ ∃ stem : String, stem ≠ "" ∧ name = stem ++ "." ++ ending := by
  simp only [extension?]
  constructor
  · intro h
    split at h
    · rename_i dot c more hd
      have hdot : dot = '.' := by
        have := List.head?_dropWhile_not (fun c => c != '.') name.toList.reverse
        simpa [hd] using this
      have hname := List.takeWhile_append_dropWhile (p := (· != '.')) (l := name.toList.reverse)
      rw [hd, hdot] at hname
      have hall := List.all_takeWhile (p := (· != '.')) (l := name.toList.reverse)
      generalize List.takeWhile (· != '.') name.toList.reverse = front at h hname hall
      obtain rfl := Option.some.inj h
      refine ⟨?_, String.ofList (c :: more).reverse, by simp, ?_⟩
      · intro hmem
        simp only [String.toList_ofList, List.mem_reverse] at hmem
        simpa using List.all_eq_true.mp hall _ hmem
      · apply String.toList_injective
        rw [← List.reverse_reverse name.toList, ← hname]
        simp
    · cases h
  · rintro ⟨hdot, stem, hstem, rfl⟩
    have hne : stem.toList.reverse ≠ [] := by simpa using hstem
    have hall : ∀ c ∈ ending.toList.reverse, (c != '.') = true := by
      intro c hc
      rw [bne_iff_ne]
      rintro rfl
      exact hdot (List.mem_reverse.mp hc)
    obtain ⟨c, more, hrev⟩ := List.exists_cons_of_ne_nil hne
    have hcs : (stem ++ "." ++ ending).toList.reverse = ending.toList.reverse ++ '.' :: c :: more := by
      simp [hrev]
    simp only [hcs, List.dropWhile_append_of_pos hall, List.takeWhile_append_of_pos hall]
    simp

/-- A document's name is a stem that is not empty and one of two endings. -/
theorem isDocumentName_iff (name : String) :
    isDocumentName name = true ↔
      ∃ stem : String, stem ≠ "" ∧ (name = stem ++ ".yml" ∨ name = stem ++ ".yaml") := by
  have ending : ∀ e : String, '.' ∉ e.toList →
      ((extension? name == some e) = true ↔ ∃ stem : String, stem ≠ "" ∧ name = stem ++ "." ++ e) := by
    intro e he
    rw [beq_iff_eq, extension?_eq_some_iff]
    simp [he]
  simp only [isDocumentName]
  rw [Bool.or_eq_true, ending "yml" (by decide), ending "yaml" (by decide)]
  simp only [String.append_assoc, ← exists_or, ← and_or_left]
  rfl

/-! Which files a scan tells of. -/

theorem isName_of_list {t : FileTree} (sound : t.Sound) {path name : String} {names : List String}
    (h : t.list path = .ok names) (hn : name ∈ names) : IsName name := by
  obtain ⟨directory, _, _, rfl⟩ := list_eq_ok_iff.mp h
  exact isName_of_mem_children sound hn

/-- What a scan tells of one entry of a directory. -/
def entryResults (t : FileTree) (root : String) (fuel : Nat) (above : List String) (name : String) :
    List LoadResult :=
  if isHidden name then
    if t.isFile (pathOf root (above ++ [name])) then [⟨above ++ [name], .hidden, .empty⟩] else []
  else if t.isDirectory (pathOf root (above ++ [name])) then scanFrom t root fuel (above ++ [name])
  else [tryFile t root (above ++ [name]) name]

theorem scanFrom_succ (t : FileTree) (root : String) (fuel : Nat) (above : List String) :
    scanFrom t root (fuel + 1) above =
      match t.list (pathOf root above) with
      | .error _ => []
      | .ok names => names.flatMap (entryResults t root fuel above) := rfl

/-- One entry of a directory is told of itself, or it is a directory to go through. -/
theorem mem_entryResults_iff {t : FileTree} {root : String} {above : List String} {name : String}
    (open_way : ∀ n ∈ above, isHidden n = false) (fuel : Nat) (r : LoadResult) :
    r ∈ entryResults t root fuel above name ↔
      (IsTold t root above name ∧ r = fate t root above name) ∨
        (isHidden name = false ∧ t.isDirectory (pathOf root (above ++ [name])) = true ∧
          r ∈ scanFrom t root fuel (above ++ [name])) := by
  simp only [entryResults]
  cases hh : isHidden name <;> cases hd : t.isDirectory (pathOf root (above ++ [name])) <;>
    cases hf : t.isFile (pathOf root (above ++ [name]))
  case false.false.false | false.false.true =>
    have told : IsTold t root above name := ⟨open_way, hd, .inl hh⟩
    simp [fate, hh, told]
  case false.true.false | false.true.true =>
    have untold : ¬ IsTold t root above name := fun told => by simp [told.no_directory] at hd
    simp [untold]
  case true.false.true =>
    have told : IsTold t root above name := ⟨open_way, hd, .inr hf⟩
    simp [fate, hh, told]
  case true.false.false | true.true.false =>
    have untold : ¬ IsTold t root above name := fun told => by simpa [hh, hf] using told.file_if_hidden
    simp [untold]
  case true.true.true =>
    rw [isFile_of_isDirectory hd] at hf
    cases hf

/-- From the directory `above` on there is something to be told of, and this is what is told of it. -/
def IsFound (t : FileTree) (root : String) (above : List String) (r : LoadResult) : Prop :=
  ∃ below name, Occurs t root above (below ++ [name]) ∧
    IsTold t root (above ++ below) name ∧ r = fate t root (above ++ below) name

theorem listed_of_occurs {t : FileTree} {root : String} {above below : List String} {name : String}
    (h : Occurs t root above (below ++ [name])) : ∃ names, t.list (pathOf root above) = .ok names := by
  cases below with
  | nil | cons =>
      obtain ⟨⟨names, listed, -⟩, -⟩ := h
      exact ⟨names, listed⟩

/-- What is found is an entry of the directory itself, or it is found from one of its directories on. -/
theorem isFound_iff {t : FileTree} {root : String} {above names : List String}
    (listed : t.list (pathOf root above) = .ok names) (r : LoadResult) :
    IsFound t root above r ↔
      ∃ name ∈ names, (IsTold t root above name ∧ r = fate t root above name) ∨
        (isHidden name = false ∧ t.isDirectory (pathOf root (above ++ [name])) = true ∧
          IsFound t root (above ++ [name]) r) := by
  constructor
  · rintro ⟨below, name, occurs, told, rfl⟩
    cases below with
    | nil =>
        obtain ⟨⟨names', listed', hn⟩, -⟩ := occurs
        obtain rfl : names = names' := Except.ok.inj (listed.symm.trans listed')
        rw [List.append_nil] at told ⊢
        exact ⟨name, hn, .inl ⟨told, rfl⟩⟩
    | cons first below =>
        obtain ⟨⟨names', listed', hn⟩, occurs⟩ := occurs
        obtain rfl : names = names' := Except.ok.inj (listed.symm.trans listed')
        have hidden : isHidden first = false := told.open_way first (by simp)
        have directory : t.isDirectory (pathOf root (above ++ [first])) = true :=
          isDirectory_iff_list.mpr (listed_of_occurs occurs)
        refine ⟨first, hn, .inr ⟨hidden, directory, below, name, occurs, ?_⟩⟩
        simpa only [List.append_assoc, List.singleton_append, and_true] using told
  · rintro ⟨name, hn, ⟨told, rfl⟩ | ⟨-, -, below, name', occurs, told, rfl⟩⟩
    · refine ⟨[], name, ⟨⟨names, listed, hn⟩, trivial⟩, ?_⟩
      simpa only [List.append_nil, and_true] using told
    · refine ⟨name :: below, name', ⟨⟨names, listed, hn⟩, occurs⟩, ?_⟩
      simpa only [List.append_assoc, List.singleton_append, and_true] using told

/-- A scan with enough fuel tells of what is to be told of, from the directory `above` on. -/
theorem mem_scanFrom_iff {t : FileTree} (sound : t.Sound) (root : String) (r : LoadResult)
    (fuel : Nat) (above : List String) (proper : ∀ n ∈ above, IsName n)
    (open_way : ∀ n ∈ above, isHidden n = false) (enough : t.reach < fuel + above.length) :
    r ∈ scanFrom t root fuel above ↔ IsFound t root above r := by
  induction fuel generalizing above with
  | zero =>
      simp only [scanFrom, List.not_mem_nil, false_iff]
      rintro ⟨below, name, occurs, -⟩
      obtain ⟨names, listed⟩ := listed_of_occurs occurs
      have := length_le_reach listed proper
      omega
  | succ fuel ih =>
      cases listed : t.list (pathOf root above) with
      | error f =>
          simp only [scanFrom, listed, List.not_mem_nil, false_iff]
          rintro ⟨below, name, occurs, -⟩
          obtain ⟨names, listed'⟩ := listed_of_occurs occurs
          cases listed.symm.trans listed'
      | ok names =>
          simp only [scanFrom_succ, listed, List.mem_flatMap, mem_entryResults_iff open_way,
            isFound_iff listed]
          refine exists_congr fun name => and_congr_right fun hn => or_congr_right <|
            and_congr_right fun hidden => and_congr_right fun _ => ?_
          have isName := isName_of_list sound listed hn
          refine ih (above ++ [name]) ?_ ?_ ?_
          · simpa only [List.forall_mem_append, List.forall_mem_singleton] using ⟨proper, isName⟩
          · simpa only [List.forall_mem_append, List.forall_mem_singleton] using ⟨open_way, hidden⟩
          · simp only [List.length_append, List.length_singleton]
            omega

/-! The order of a scan. -/

theorem append_cons_lt {a b : String} (h : a < b) (above x y : List String) :
    above ++ a :: x < above ++ b :: y := by
  induction above with
  | nil => exact List.cons_lt_cons_iff.mpr (.inl h)
  | cons c above ih => exact List.cons_lt_cons_iff.mpr (.inr ⟨rfl, ih⟩)

/-- All that may be told of an entry: itself, or what is below it. -/
theorem mem_entryResults {t : FileTree} {root : String} {fuel : Nat} {above : List String}
    {name : String} {r : LoadResult} (h : r ∈ entryResults t root fuel above name) :
    r = ⟨above ++ [name], .hidden, .empty⟩ ∨ r = tryFile t root (above ++ [name]) name ∨
      r ∈ scanFrom t root fuel (above ++ [name]) := by
  simp only [entryResults] at h
  split at h
  · split at h
    · exact .inl (List.mem_singleton.mp h)
    · exact absurd h List.not_mem_nil
  · split at h
    · exact .inr (.inr h)
    · exact .inr (.inl (List.mem_singleton.mp h))

theorem place_of_mem_entryResults {t : FileTree} {root : String} {fuel : Nat}
    {above : List String} {name : String} {r : LoadResult}
    (h : r ∈ entryResults t root fuel above name) : ∃ below, r.place = above ++ name :: below := by
  induction fuel generalizing above name with
  | zero =>
      rcases mem_entryResults h with rfl | rfl | h
      · exact ⟨[], rfl⟩
      · exact ⟨[], tryFile_place t root _ name⟩
      · exact absurd h List.not_mem_nil
  | succ fuel ih =>
      rcases mem_entryResults h with rfl | rfl | h
      · exact ⟨[], rfl⟩
      · exact ⟨[], tryFile_place t root _ name⟩
      · rw [scanFrom_succ] at h
        split at h
        · exact absurd h List.not_mem_nil
        · obtain ⟨name', -, hr⟩ := List.mem_flatMap.mp h
          obtain ⟨below, hplace⟩ := ih hr
          exact ⟨name' :: below, by rw [hplace, List.append_assoc]; rfl⟩

theorem scanFrom_sorted {t : FileTree} (sound : t.Sound) (root : String) (fuel : Nat)
    (above : List String) :
    (scanFrom t root fuel above).Pairwise fun r r' => r.place < r'.place := by
  induction fuel generalizing above with
  | zero => exact List.Pairwise.nil
  | succ fuel ih =>
      rw [scanFrom_succ]
      split
      · exact List.Pairwise.nil
      · rename_i names hl
        rw [List.pairwise_flatMap]
        constructor
        · intro name _
          simp only [entryResults]
          split
          · split
            · exact List.pairwise_singleton _ _
            · exact List.Pairwise.nil
          · split
            · exact ih _
            · exact List.pairwise_singleton _ _
        · obtain ⟨directory, -, -, rfl⟩ := list_eq_ok_iff.mp hl
          refine (children_sorted sound directory).imp ?_
          intro name name' hlt r hr r' hr'
          obtain ⟨below, hplace⟩ := place_of_mem_entryResults hr
          obtain ⟨below', hplace'⟩ := place_of_mem_entryResults hr'
          rw [hplace, hplace']
          exact append_cons_lt hlt above below below'

theorem mem_scan_iff {t : FileTree} (sound : t.Sound) (root : String) (r : LoadResult) :
    r ∈ scanFrom t root (t.reach + 1) [] ↔
      ∃ above name, Occurs t root [] (above ++ [name]) ∧ IsTold t root above name ∧
        r = fate t root above name :=
  mem_scanFrom_iff sound root r (t.reach + 1) [] (fun _ h => absurd h List.not_mem_nil)
    (fun _ h => absurd h List.not_mem_nil) (Nat.lt_succ_self _)

/-! What is kept. -/

theorem get?_keep_of_holds {l : Loader} {r : LoadResult} {d : RuleDocument}
    (h : r.status = .loaded d) (id : String) :
    (l.keep r).get? id = if d.id = id then some d else l.get? id := by
  simp only [keep, get?]
  rw [h]
  exact NameMap.get?_insert l.documents d.id id d

theorem get?_keep_of_not_holds {l : Loader} {r : LoadResult} {id : String}
    (h : ∀ d, r.status = .loaded d → d.id ≠ id) : (l.keep r).get? id = l.get? id := by
  cases hs : r.status with
  | loaded d => rw [get?_keep_of_holds hs, if_neg (h d hs)]
  | hidden | foreign | failed e => simp only [keep, hs]

theorem get?_foldl_keep_of_none {l : Loader} {results : List LoadResult} {id : String}
    (h : ∀ r ∈ results, ∀ d, r.status = .loaded d → d.id ≠ id) :
    (results.foldl keep l).get? id = l.get? id := by
  induction results generalizing l with
  | nil => rfl
  | cons r results ih =>
      rw [List.foldl_cons, ih fun r' hr' => h r' (List.mem_cons_of_mem _ hr'),
        get?_keep_of_not_holds (h r List.mem_cons_self)]

theorem get?_foldl_keep_of_split {l : Loader} {before after : List LoadResult} {r : LoadResult}
    {d : RuleDocument} (holds : r.status = .loaded d)
    (last : ∀ r' ∈ after, ∀ d', r'.status = .loaded d' → d'.id ≠ d.id) :
    ((before ++ r :: after).foldl keep l).get? d.id = some d := by
  rw [List.foldl_append, List.foldl_cons, get?_foldl_keep_of_none last, get?_keep_of_holds holds,
    if_pos rfl]

/-- Of the results that hold a document with an identifier, the last one decides. -/
theorem get?_foldl_keep_of_last {l : Loader} {results : List LoadResult} {r : LoadResult}
    {d : RuleDocument} (sorted : results.Pairwise fun r r' => r.place < r'.place)
    (hr : r ∈ results) (holds : r.status = .loaded d)
    (last : ∀ r' ∈ results, ∀ d', r'.status = .loaded d' → d'.id = d.id → ¬ r.place < r'.place) :
    (results.foldl keep l).get? d.id = some d := by
  obtain ⟨before, after, rfl⟩ := List.append_of_mem hr
  have later : ∀ r' ∈ after, r.place < r'.place :=
    (List.pairwise_cons.mp (List.pairwise_append.mp sorted).2.1).1
  refine get?_foldl_keep_of_split holds fun r' hr' d' hd' hid => ?_
  exact last r' (by simp [hr']) d' hd' hid (later r' hr')

theorem load_congr {t t' : FileTree} {path : String} (h : t'.read path = t.read path) :
    RuleDocument.load t' path = RuleDocument.load t path := by
  simp only [RuleDocument.load, h]

theorem fate_status (t : FileTree) (root : String) (above : List String) (name : String) :
    (fate t root above name).status =
      if isHidden name then .hidden
      else if isDocumentName name then
        match (RuleDocument.load t (pathOf root (above ++ [name]))).1 with
        | .ok d => .loaded d
        | .error e => .failed e
      else .foreign := by
  simp only [fate, tryFile]
  split
  · rfl
  · split
    · split <;> rename_i h <;> simp only [h]
    · rfl

end Gauge.Loader
