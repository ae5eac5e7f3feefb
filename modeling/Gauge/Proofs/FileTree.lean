import Gauge.Loader

/-!
Directories and paths. The entries of a directory come in the order of their names, each once; a path
below a directory is followed name by name; and no path with more names than `reach` leads anywhere,
however the links lie.
-/

namespace Gauge

namespace FileTree

/-- A name that an entry of a directory may have. -/
structure IsName (name : String) : Prop where
  ne_empty : name ≠ ""
  ne_dot : name ≠ "."
  ne_dots : name ≠ ".."
  no_slash : '/' ∉ name.toList

instance (name : String) : Decidable (IsName name) :=
  decidable_of_iff (name ≠ "" ∧ name ≠ "." ∧ name ≠ ".." ∧ '/' ∉ name.toList)
    ⟨fun ⟨ne_empty, ne_dot, ne_dots, no_slash⟩ => ⟨ne_empty, ne_dot, ne_dots, no_slash⟩,
      fun h => ⟨h.ne_empty, h.ne_dot, h.ne_dots, h.no_slash⟩⟩

/-- No two things are at one place, and all have names. -/
structure Sound (t : FileTree) : Prop where
  distinct : (t.entries.map (·.1)).Nodup
  named : ∀ e ∈ t.entries, ∀ name, e.1.getLast? = some name → IsName name

/-! Entries of directories. -/

theorem nameIn?_eq_some {directory place : List String} {name : String}
    (h : nameIn? directory place = some name) :
    place = directory ++ [name] ∧ isTop place = false := by
  simp only [nameIn?] at h
  split at h
  · rename_i hp
    simp only [Bool.and_eq_true, Bool.not_eq_true', beq_iff_eq] at hp
    have hne : place ≠ [] := by
      rintro rfl
      simp at h
    rw [List.getLast?_eq_some_getLast hne, Option.some.injEq] at h
    refine ⟨?_, hp.1⟩
    rw [← hp.2, ← h, List.dropLast_concat_getLast]
  · cases h

theorem mem_children {t : FileTree} {directory : List String} {name : String} :
    name ∈ t.children directory ↔ ∃ e ∈ t.entries, nameIn? directory e.1 = some name := by
  simp only [children, List.mem_mergeSort, List.mem_filterMap]

theorem children_nodup {t : FileTree} (sound : t.Sound) (directory : List String) :
    (t.children directory).Nodup := by
  have hperm : (t.children directory).Perm (t.entries.filterMap fun e => nameIn? directory e.1) :=
    List.mergeSort_perm _ _
  rw [hperm.nodup_iff, List.Nodup, List.pairwise_filterMap]
  have distinct := sound.distinct
  rw [List.Nodup, List.pairwise_map] at distinct
  refine distinct.imp ?_
  rintro e e' hne name he name' he' rfl
  exact hne ((nameIn?_eq_some he).1.trans (nameIn?_eq_some he').1.symm)

theorem children_sorted {t : FileTree} (sound : t.Sound) (directory : List String) :
    (t.children directory).Pairwise (· < ·) := by
  have hle : (t.children directory).Pairwise fun a b => decide (a ≤ b) = true := by
    apply List.pairwise_mergeSort
    · intro a b c hab hbc
      simp only [decide_eq_true_eq] at *
      exact String.le_trans hab hbc
    · intro a b
      simpa only [Bool.or_eq_true, decide_eq_true_eq] using String.le_total a b
  refine (hle.and (children_nodup sound directory)).imp ?_
  rintro a b ⟨hab, hne⟩
  exact String.not_le.mp fun hba => hne (String.le_antisymm (of_decide_eq_true hab) hba)

theorem isName_of_mem_children {t : FileTree} (sound : t.Sound) {directory : List String}
    {name : String} (h : name ∈ t.children directory) : IsName name := by
  obtain ⟨e, he, hn⟩ := mem_children.mp h
  refine sound.named e he name ?_
  rw [(nameIn?_eq_some hn).1, List.getLast?_concat]

theorem list_eq_ok_iff {t : FileTree} {path : String} {names : List String} :
    t.list path = .ok names ↔
      ∃ place, t.resolve path = .ok place ∧ t.entry? place = some .directory ∧
        names = t.children place := by
  simp only [list]
  cases hr : t.resolve path with
  | error f => simp [bind, Except.bind]
  | ok place =>
      simp only [bind, Except.bind, Except.ok.injEq, exists_eq_left']
      split
      · rename_i he
        simp only [pure, Except.pure, Except.ok.injEq, he, true_and]
        exact eq_comm
      · rename_i hne
        constructor
        · intro h
          cases h
        · intro h
          exact absurd h.1 hne

/-- Following a path fails on its way only. -/
theorem follow_eq_error {t : FileTree} {links : Nat} {here rest : List String} {f : FileFault}
    (h : t.follow links here rest = .error f) : f = .missing ∨ f = .notADirectory ∨ f = .tooManyLinks := by
  fun_induction FileTree.follow t links here rest with
  | case1 | case6 => cases h
  | case2 | case3 | case5 | case9 =>
      rename_i ih
      exact ih h
  | case4 =>
      cases h
      exact .inl rfl
  | case7 =>
      cases h
      exact .inr (.inl rfl)
  | case8 =>
      cases h
      exact .inr (.inr rfl)

theorem resolve_eq_error {t : FileTree} {path : String} {f : FileFault} (h : t.resolve path = .error f) :
    f = .missing ∨ f = .notADirectory ∨ f = .tooManyLinks := by
  rw [resolve] at h
  split at h
  · cases h
    exact .inl rfl
  · exact follow_eq_error h

theorem list_eq_error {t : FileTree} {path : String} {f : FileFault} (h : t.list path = .error f) :
    f = .missing ∨ f = .notADirectory ∨ t.resolve path = .error .tooManyLinks := by
  simp only [list] at h
  cases hr : t.resolve path with
  | error f' =>
      obtain rfl : f' = f := by simpa only [hr, bind, Except.bind, Except.error.injEq] using h
      rw [Except.error.injEq]
      exact resolve_eq_error hr
  | ok place =>
      simp only [hr, bind, Except.bind] at h
      split at h
      · cases h
      · cases h
        exact .inr (.inl rfl)

theorem isDirectory_iff_list {t : FileTree} {path : String} :
    t.isDirectory path = true ↔ ∃ names, t.list path = .ok names := by
  simp only [list_eq_ok_iff]
  simp only [isDirectory, stat]
  cases hr : t.resolve path with
  | error f => simp [bind, Except.bind]
  | ok place =>
      simp only [bind, Except.bind, Except.ok.injEq, exists_eq_left']
      cases he : t.entry? place with
      | none => simp [throw, throwThe, MonadExceptOf.throw]
      | some e => cases e <;> simp [pure, Except.pure]

theorem isDirectory_eq_false_iff {t : FileTree} {path : String} :
    t.isDirectory path = false ↔ ∃ f, t.list path = .error f := by
  rw [Bool.eq_false_iff, ne_eq, isDirectory_iff_list]
  cases t.list path <;> simp

theorem isFile_of_isDirectory {t : FileTree} {path : String} (h : t.isDirectory path = true) :
    t.isFile path = false := by
  simp only [isDirectory] at h
  simp only [isFile]
  split at h
  · rename_i hs
    rw [hs]
  · cases h

theorem fromUTF8?_toUTF8 (s : String) : String.fromUTF8? s.toUTF8 = some s :=
  dif_pos s.isValidUTF8

theorem read_of_resolve {t : FileTree} {path text : String} {place : List String}
    (resolved : t.resolve path = .ok place) (entry : t.entry? place = some (.file text.toUTF8)) :
    t.read path = .ok text := by
  simp only [read, stat, resolved, entry, bind, Except.bind, pure, Except.pure, fromUTF8?_toUTF8]

theorem isDirectory_of_resolve {t : FileTree} {path : String} {place : List String} {bytes : ByteArray}
    (resolved : t.resolve path = .ok place) (entry : t.entry? place = some (.file bytes)) :
    t.isDirectory path = false := by
  simp only [isDirectory, stat, resolved, entry, bind, Except.bind, pure, Except.pure]

/-! Paths below a directory. -/

theorem splitPath_ne_nil (s : List Char) : splitPath s ≠ [] := by
  cases s with
  | nil => exact List.cons_ne_nil _ _
  | cons c s =>
      simp only [splitPath]
      split
      · exact List.cons_ne_nil _ _
      · split <;> exact List.cons_ne_nil _ _

theorem splitPath_append (s rest : List Char) :
    splitPath (s ++ '/' :: rest) = splitPath s ++ splitPath rest := by
  induction s with
  | nil => rfl
  | cons c s ih =>
      by_cases hc : c = '/'
      · simp [splitPath, hc, ih]
      · have hne : (c == '/') = false := beq_eq_false_iff_ne.mpr hc
        simp only [List.cons_append, splitPath, hne, Bool.false_eq_true, if_false, ih]
        cases hs : splitPath s with
        | nil => exact absurd hs (splitPath_ne_nil s)
        | cons part parts => rfl

theorem splitPath_of_no_slash {s : List Char} (h : '/' ∉ s) : splitPath s = [s] := by
  induction s with
  | nil => rfl
  | cons c s ih =>
      obtain ⟨hc, hs⟩ := List.ne_and_not_mem_of_not_mem_cons h
      have hne : (c == '/') = false := beq_eq_false_iff_ne.mpr (Ne.symm hc)
      simp only [splitPath, hne, Bool.false_eq_true, if_false, ih hs]

theorem splitPath_intercalate (first : List Char) {place : List String}
    (h : ∀ name ∈ place, IsName name) :
    splitPath (['/'].intercalate (first :: place.map String.toList)) =
      splitPath first ++ place.map String.toList := by
  induction place generalizing first with
  | nil => simp
  | cons name place ih =>
      have hname := h name List.mem_cons_self
      have hplace := fun n hn => h n (List.mem_cons_of_mem _ hn)
      rw [List.map_cons, List.intercalate_cons_cons, List.append_assoc, List.singleton_append,
        splitPath_append, ih name.toList hplace, splitPath_of_no_slash hname.no_slash]
      rfl

theorem names_pathOf (root : String) {place : List String} (h : ∀ name ∈ place, IsName name) :
    names (Loader.pathOf root place) = names root ++ place := by
  simp only [names, Loader.pathOf]
  rw [String.toList_intercalate, List.map_cons]
  change List.map String.ofList (splitPath (['/'].intercalate _)) = _
  rw [splitPath_intercalate root.toList h, List.map_append, List.map_map]
  congr 1
  simp [Function.comp_def]

theorem names_of_isName {name : String} (h : IsName name) : names name = [name] := by
  simp [names, splitPath_of_no_slash h.no_slash]

theorem head?_ne_slash {name : String} (h : IsName name) : name.toList.head? ≠ some '/' := by
  intro hhead
  exact h.no_slash (List.mem_of_head? hhead)

/-- A file that is not below any directory. -/
theorem read_of_isName {t : FileTree} {name text : String} (h : IsName name)
    (entry : t.entry? [name] = some (.file text.toUTF8)) : t.read name = .ok text := by
  have horigin : origin [] name = [] := by simp [origin, head?_ne_slash h]
  refine read_of_resolve ?_ entry
  simp [resolve, h.ne_empty, h.ne_dot, h.ne_dots, names_of_isName h, horigin, follow, entry]

/-- A file in a directory that is not below any other. -/
theorem resolve_file_in {t : FileTree} {directory name : String} {bytes : ByteArray}
    (hdirectory : IsName directory) (hname : IsName name) (entry : t.entry? [directory] = some .directory)
    (file : t.entry? [directory, name] = some (.file bytes)) :
    t.resolve (Loader.pathOf directory [name]) = .ok [directory, name] := by
  have hnames : names (Loader.pathOf directory [name]) = [directory, name] := by
    rw [names_pathOf directory (List.forall_mem_singleton.mpr hname), names_of_isName hdirectory]
    rfl
  have hpath : (Loader.pathOf directory [name]).toList = directory.toList ++ '/' :: name.toList := by
    simp [Loader.pathOf]
  have horigin : origin [] (Loader.pathOf directory [name]) = [] := by
    have hhead := head?_ne_slash hdirectory
    have hne : directory.toList ≠ [] := fun h => hdirectory.ne_empty (String.toList_injective h)
    obtain ⟨c, rest, hc⟩ := List.exists_cons_of_ne_nil hne
    rw [hc, List.head?_cons, ne_eq, Option.some.injEq] at hhead
    simp [origin, hpath, hc, hhead]
  have hpath_ne : Loader.pathOf directory [name] ≠ "" := by
    intro h
    simp [h] at hpath
  simp [resolve, hpath_ne, hnames, horigin, follow, entry, file, hdirectory.ne_empty, hdirectory.ne_dot,
    hdirectory.ne_dots, hname.ne_empty, hname.ne_dot, hname.ne_dots]

/-! How far paths lead. -/

/-- No place of the tree is deeper. -/
def depth (t : FileTree) : Nat := (t.entries.map (·.1.length)).foldl max 0

theorem le_foldl_max (l : List Nat) (acc : Nat) :
    acc ≤ l.foldl max acc ∧ ∀ n ∈ l, n ≤ l.foldl max acc := by
  induction l generalizing acc with
  | nil => simp
  | cons a l ih =>
      obtain ⟨hacc, hmem⟩ := ih (max acc a)
      refine ⟨Nat.le_trans (Nat.le_max_left _ _) hacc, ?_⟩
      intro n hn
      rcases List.mem_cons.mp hn with rfl | hn
      · exact Nat.le_trans (Nat.le_max_right _ _) hacc
      · exact hmem n hn

theorem length_le_of_entry? {t : FileTree} {place : List String} {e : FileEntry}
    (h : t.entry? place = some e) : place.length ≤ t.depth + 1 := by
  simp only [ entry?] at h
  split at h
  · rename_i htop
    simp only [isTop, Bool.or_eq_true, List.isEmpty_iff, beq_iff_eq, root] at htop
    rcases htop with rfl | rfl <;> simp
  · obtain ⟨before, after, heq, _⟩ := List.lookup_eq_some_iff.mp h
    have hmem : place.length ∈ t.entries.map (·.1.length) :=
      List.mem_map.mpr ⟨(place, e), by simp [heq], rfl⟩
    exact Nat.le_succ_of_le ((le_foldl_max _ 0).2 _ hmem)

theorem length_origin_le (t : FileTree) {here : List String} (path : String)
    (h : here.length ≤ t.depth + 1) : (origin here path).length ≤ t.depth + 1 := by
  simp only [origin]
  split
  · simp [root]
  · exact h

theorem length_above_le (here : List String) : (above here).length ≤ here.length := by
  simp only [above]
  split
  · exact Nat.le_refl _
  · simp

/-- Proper names each lead one step deeper, so that there are few of them from a place on; and few at the end of
what is to be followed, wherever the names before them lead. -/
structure Within (t : FileTree) (links : Nat) (here rest : List String) : Prop where
  whole : (∀ name ∈ rest, IsName name) → here.length + rest.length ≤ (links + 1) * (t.depth + 1)
  ending : ∀ suffix, suffix <:+ rest → (∀ name ∈ suffix, IsName name) →
    suffix.length ≤ (links + 1) * (t.depth + 1)

theorem Within.nil {t : FileTree} (links : Nat) {here : List String} (deep : here.length ≤ t.depth + 1) :
    Within t links here [] where
  whole _ := Nat.le_trans deep (Nat.le_mul_of_pos_left _ (Nat.succ_pos links))
  ending suffix h _ := by simp [List.suffix_nil.mp h]

/-- The names that end in a name and the rest are all of them or they end the rest. -/
theorem Within.cons {t : FileTree} {links : Nat} {here rest : List String} {name : String}
    (whole : IsName name → (∀ n ∈ rest, IsName n) →
      here.length + (rest.length + 1) ≤ (links + 1) * (t.depth + 1))
    (ending : ∀ suffix, suffix <:+ rest → (∀ n ∈ suffix, IsName n) →
      suffix.length ≤ (links + 1) * (t.depth + 1)) :
    Within t links here (name :: rest) where
  whole proper := whole (proper name List.mem_cons_self) fun n hn => proper n (List.mem_cons_of_mem _ hn)
  ending suffix h proper := by
    rcases List.suffix_cons_iff.mp h with rfl | h
    · exact Nat.le_trans (Nat.le_add_left _ _)
        (whole (proper name List.mem_cons_self) fun n hn => proper n (List.mem_cons_of_mem _ hn))
    · exact ending suffix h proper

/-- Over a name that leads to no entry. -/
theorem Within.skip {t : FileTree} {links : Nat} {here there rest : List String} {name : String}
    (w : Within t links there rest) (improper : ¬ IsName name) : Within t links here (name :: rest) :=
  .cons (fun hname _ => absurd hname improper) w.ending

/-- Into an entry of the directory. -/
theorem Within.enter {t : FileTree} {links : Nat} {here rest : List String} {name : String}
    (w : Within t links (here ++ [name]) rest) : Within t links here (name :: rest) := by
  refine .cons (fun _ hrest => ?_) w.ending
  have := w.whole hrest
  rw [List.length_append, List.length_singleton] at this
  omega

/-- Along a link. It was no deeper than the tree is, and there is one link less to follow from here on. -/
theorem Within.along {t : FileTree} {links : Nat} {here there target rest : List String} {name : String}
    (w : Within t links there (target ++ rest)) (deep : (here ++ [name]).length ≤ t.depth + 1) :
    Within t (links + 1) here (name :: rest) := by
  have hlinks : (links + 1 + 1) * (t.depth + 1) = (links + 1) * (t.depth + 1) + (t.depth + 1) :=
    Nat.succ_mul _ _
  have ending := fun suffix (h : suffix <:+ rest) => w.ending suffix (h.trans (List.suffix_append target rest))
  rw [List.length_append, List.length_singleton] at deep
  refine .cons (fun _ hrest => ?_) fun suffix h proper => ?_
  · have := ending rest (List.suffix_refl _) hrest
    omega
  · have := ending suffix h proper
    omega

/-- What leads somewhere has few proper names between two links, and there are only so many links. -/
theorem within_of_follow {t : FileTree} {links : Nat} {here rest place : List String}
    (h : t.follow links here rest = .ok place) (deep : here.length ≤ t.depth + 1) :
    Within t links here rest := by
  fun_induction FileTree.follow t links here rest with
  | case1 links here => exact .nil links deep
  | case2 links here name rest hdot ih =>
      refine (ih h deep).skip fun hname => ?_
      simp [hname.ne_empty, hname.ne_dot] at hdot
  | case3 links here name rest _ hdots ih =>
      refine (ih h (Nat.le_trans (length_above_le here) deep)).skip fun hname => ?_
      simp [hname.ne_dots] at hdots
  | case4 | case7 | case8 => cases h
  -- into a directory
  | case5 links here name rest _ _ next entry ih =>
      have hnext : next.length ≤ t.depth + 1 := length_le_of_entry? entry
      exact (ih h hnext).enter
  -- to a file, behind which no name is left
  | case6 links here name rest _ _ next bytes entry hrest =>
      have hnext : next.length ≤ t.depth + 1 := length_le_of_entry? entry
      obtain rfl : rest = [] := List.isEmpty_iff.mp hrest
      exact (Within.nil links hnext).enter
  | case9 here name rest _ _ next target entry links ih =>
      have hnext : next.length ≤ t.depth + 1 := length_le_of_entry? entry
      exact (ih h (length_origin_le t target deep)).along hnext

/-- Below a directory nothing is further away than `reach`. -/
theorem length_le_reach {t : FileTree} {root : String} {place names : List String}
    (h : t.list (Loader.pathOf root place) = .ok names) (proper : ∀ name ∈ place, IsName name) :
    place.length ≤ t.reach := by
  obtain ⟨directory, hr, _, _⟩ := list_eq_ok_iff.mp h
  simp only [resolve] at hr
  split at hr
  · cases hr
  · rw [names_pathOf root proper] at hr
    have within := within_of_follow hr (length_origin_le t _ (Nat.zero_le _))
    exact within.ending place (List.suffix_append _ _) proper

end FileTree

end Gauge
