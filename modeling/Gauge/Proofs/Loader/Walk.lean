import Gauge.Proofs.Except
import Gauge.Proofs.Loader.Build

/-!
A scan as it goes along. Documents are taken in one by one while directories are gone through, so that a fault on the
way would leave a loader with some of them. But only the root can be at fault, and before anything has been taken in;
what is wrong below it is told of and gone past. What may still keep a scan from its end is a script that ends the
program. If none does, the scan has come to what is told of all files at once.
-/

namespace Gauge.Loader

/-- Why a walk stops. -/
inductive Stop where
  | fault (e : LoadError)
  /-- A script has ended the program. -/
  | ended (code : Nat)

structure Progress where
  loader : Loader
  results : List LoadResult

/-- A walk that stops leaves what it has come to. -/
abbrev Walk (α : Type) : Type := EStateM Stop Progress α

namespace Walk

def tell (r : LoadResult) : Walk Unit := modify fun p => { p with results := p.results ++ [r] }

def takeIn (d : RuleDocument) : Walk Unit :=
  modify fun p => { p with loader := { p.loader with documents := p.loader.documents.insert d.id d } }

/-- Tries a file by its name alone, which says whether it may hold a document. -/
def file (t : FileTree) (root : String) (place : List String) (name : String) : Walk Unit := do
  if !isDocumentName name then tell ⟨place, .foreign, .empty⟩
  else
    let (result, transcript) := RuleDocument.load t (pathOf root place)
    if let some code := transcript.exit then throw (.ended code)
    match result with
    | .ok d =>
      takeIn d
      tell ⟨place, .loaded d, transcript⟩
    | .error e => tell ⟨place, .failed e, transcript⟩

/-- Goes past one entry of a directory, or through it by `below` if it is a directory itself. -/
def visit (t : FileTree) (root : String) (below : List String → Walk Unit) (directory : List String)
    (name : String) : Walk Unit :=
  let place := directory ++ [name]
  if isHidden name then
    if t.isFile (pathOf root place) then tell ⟨place, .hidden, .empty⟩ else pure ()
  else if t.isDirectory (pathOf root place) then below place
  else file t root place name

/-- Goes through a directory and all below it. A directory that cannot be listed is a fault if it is the root. -/
def through (t : FileTree) (root : String) : Bool → Nat → List String → Walk Unit
  | _, 0, _ => pure ()
  | isRoot, fuel + 1, directory =>
    match t.list (pathOf root directory) with
    | .error f => if isRoot then throw (.fault (.file f)) else pure ()
    | .ok names => names.forM (visit t root (fun place => through t root false fuel place) directory)

end Walk

/-- Takes in all documents of the directory on a walk through it. -/
def walk (l : Loader) (t : FileTree) : Except Stop (List LoadResult) × Loader :=
  match (Walk.through t l.directory true (t.reach + 1) []).run ⟨l, []⟩ with
  | .ok _ p => (.ok p.results, p.loader)
  | .error s p => (.error s, p.loader)

namespace Walk

/-! A walk takes in the results of a scan, one after another. -/

/-- Takes in what has become of a file, unless its script has ended the program. -/
def record (r : LoadResult) : Walk Unit := do
  if let some code := r.transcript.exit then throw (.ended code)
  modify fun p => ⟨p.loader.keep r, p.results ++ [r]⟩

theorem run_record_of_running {r : LoadResult} (running : r.transcript.exit = none) (p : Progress) :
    (record r).run p = .ok () ⟨p.loader.keep r, p.results ++ [r]⟩ := by
  simp only [record, running]
  rfl

theorem run_record_of_ended {r : LoadResult} {code : Nat} (ended : r.transcript.exit = some code) (p : Progress) :
    (record r).run p = .error (.ended code) p := by
  simp only [record, ended]
  rfl

theorem tell_eq_record {r : LoadResult} (running : r.transcript.exit = none) (untaken : ∀ d, r.status ≠ .loaded d) :
    tell r = record r := by
  funext p
  have hkeep : p.loader.keep r = p.loader := by
    cases h : r.status with
    | loaded d => exact absurd h (untaken d)
    | hidden | foreign | failed e => simp only [keep, h]
  exact (hkeep ▸ run_record_of_running running p).symm

theorem file_eq_record (t : FileTree) (root : String) (place : List String) (name : String) :
    file t root place name = record (tryFile t root place name) := by
  rw [file, tryFile]
  cases isDocumentName name with
  | false => exact tell_eq_record rfl (by simp)
  | true =>
      simp only [Bool.not_true, Bool.false_eq_true, if_false, if_true]
      obtain ⟨result, transcript⟩ := RuleDocument.load t (pathOf root place)
      funext p
      cases hexit : transcript.exit with
      | some code =>
          cases result with
          | ok d => exact (@run_record_of_ended ⟨place, .loaded d, transcript⟩ code hexit p).symm
          | error e => exact (@run_record_of_ended ⟨place, .failed e, transcript⟩ code hexit p).symm
      | none =>
          cases result with
          | ok d => exact (@run_record_of_running ⟨place, .loaded d, transcript⟩ hexit p).symm
          | error e => exact (@run_record_of_running ⟨place, .failed e, transcript⟩ hexit p).symm

theorem forM_flatMap {α β : Type} (f : α → List β) (g : β → Walk Unit) (xs : List α) :
    (xs.flatMap f).forM g = xs.forM fun x => (f x).forM g := by
  induction xs with
  | nil => rfl
  | cons x xs ih =>
      rw [List.flatMap_cons]
      exact List.forM_append.trans (congrArg (fun w => (f x).forM g >>= fun _ => w) ih)

theorem visit_eq {t : FileTree} {root : String} {below : List String → Walk Unit} {fuel : Nat}
    (hbelow : ∀ place, below place = (scanFrom t root fuel place).forM record) (directory : List String)
    (name : String) : visit t root below directory name = (entryResults t root fuel directory name).forM record := by
  simp only [visit, entryResults]
  cases isHidden name with
  | true =>
      cases t.isFile (pathOf root (directory ++ [name])) with
      | true => exact (tell_eq_record rfl (by simp)).trans (bind_pure _).symm
      | false => rfl
  | false =>
      cases t.isDirectory (pathOf root (directory ++ [name])) with
      | true => exact hbelow _
      | false => exact (file_eq_record t root _ name).trans (bind_pure _).symm

/-- The only fault on a walk is a root that cannot be listed. -/
theorem through_eq {t : FileTree} {root : String} {isRoot : Bool} {directory : List String}
    (listed : isRoot = true → ∃ names, t.list (pathOf root directory) = .ok names) (fuel : Nat) :
    through t root isRoot fuel directory = (scanFrom t root fuel directory).forM record := by
  induction fuel generalizing isRoot directory with
  | zero => rfl
  | succ fuel ih =>
      rw [scanFrom_succ, through]
      cases hlist : t.list (pathOf root directory) with
      | error f =>
          cases isRoot with
          | false => rfl
          | true =>
              obtain ⟨names, hnames⟩ := listed rfl
              cases hlist.symm.trans hnames
      | ok names =>
          -- what is below the root is not the root, so that nothing is asked of it
          have hvisit := funext (visit_eq (fun place => @ih false place (by simp)) directory)
          rw [hvisit]
          exact (forM_flatMap _ record names).symm

/-! How a walk ends. -/

theorem run_forM_record_append {before : List LoadResult} (running : ∀ r ∈ before, r.transcript.exit = none)
    (after : List LoadResult) (p : Progress) :
    ((before ++ after).forM record).run p =
      (after.forM record).run ⟨before.foldl keep p.loader, p.results ++ before⟩ := by
  induction before generalizing p with
  | nil => rw [List.nil_append, List.append_nil, List.foldl_nil]
  | cons r before ih =>
      obtain ⟨hr, hbefore⟩ := List.forall_mem_cons.mp running
      have hrecord : record r p = .ok () ⟨p.loader.keep r, p.results ++ [r]⟩ := run_record_of_running hr p
      change EStateM.bind (record r) (fun _ => (before ++ after).forM record) p = _
      rw [EStateM.bind, hrecord]
      refine (ih hbefore _).trans ?_
      rw [List.foldl_cons, List.append_assoc, List.singleton_append]

theorem run_forM_record_of_running {results : List LoadResult}
    (running : ∀ r ∈ results, r.transcript.exit = none) (p : Progress) :
    (results.forM record).run p = .ok () ⟨results.foldl keep p.loader, p.results ++ results⟩ := by
  have happend := run_forM_record_append running [] p
  rw [List.append_nil] at happend
  exact happend

theorem run_forM_record_of_ended {before after : List LoadResult} {r : LoadResult} {code : Nat}
    (running : ∀ r' ∈ before, r'.transcript.exit = none) (ended : r.transcript.exit = some code) (p : Progress) :
    ((before ++ r :: after).forM record).run p =
      .error (.ended code) ⟨before.foldl keep p.loader, p.results ++ before⟩ := by
  rw [run_forM_record_append running]
  generalize (⟨before.foldl keep p.loader, p.results ++ before⟩ : Progress) = q
  have hrecord : record r q = .error (.ended code) q := run_record_of_ended ended q
  change EStateM.bind (record r) (fun _ => after.forM record) q = _
  rw [EStateM.bind, hrecord]

end Walk

section

variable {l l' : Loader} {t : FileTree}

theorem walk_of_unlisted {f : FileFault} (h : t.list l.directory = .error f) :
    l.walk t = (.error (.fault (.file f)), l) := by
  simp only [walk, Walk.through, pathOf_nil, h]
  rfl

theorem through_of_loadAll {results : List LoadResult} (h : l.loadAll t = (.ok results, l')) :
    Walk.through t l.directory true (t.reach + 1) [] = results.forM Walk.record := by
  have hscan := (loadAll_eq_ok h).1
  simp only [scan] at hscan
  split at hscan
  · cases hscan
  · rename_i names hlist
    cases hscan
    exact Walk.through_eq (fun _ => ⟨names, by rw [pathOf_nil, hlist]⟩) _

theorem walk_of_running {results : List LoadResult} (h : l.loadAll t = (.ok results, l'))
    (running : ∀ r ∈ results, r.transcript.exit = none) : l.walk t = (.ok results, l') := by
  rw [walk, through_of_loadAll h, Walk.run_forM_record_of_running running, (loadAll_eq_ok h).2]
  rfl

theorem walk_of_ended {before after : List LoadResult} {r : LoadResult} {code : Nat}
    (h : l.loadAll t = (.ok (before ++ r :: after), l')) (running : ∀ r' ∈ before, r'.transcript.exit = none)
    (ended : r.transcript.exit = some code) : l.walk t = (.error (.ended code), before.foldl keep l) := by
  rw [walk, through_of_loadAll h, Walk.run_forM_record_of_ended running ended]

end

/-! The root decides. -/

theorem keep_directory (l : Loader) (r : LoadResult) : (l.keep r).directory = l.directory := by
  rw [keep]
  split <;> rfl

theorem foldl_keep_directory (l : Loader) (results : List LoadResult) :
    (results.foldl keep l).directory = l.directory := by
  induction results generalizing l with
  | nil => rfl
  | cons r results ih => exact (ih (l.keep r)).trans (keep_directory l r)

theorem loadAll_directory (l : Loader) (t : FileTree) : (l.loadAll t).2.directory = l.directory := by
  rw [loadAll]
  cases scan t l.directory with
  | error f => rfl
  | ok results => exact foldl_keep_directory l results

theorem after_directory (l : Loader) (scans : List FileTree) : (l.after scans).directory = l.directory := by
  induction scans generalizing l with
  | nil => rfl
  | cons t scans ih => exact (ih (l.loadAll t).2).trans (loadAll_directory l t)

theorem loadAll_of_unlisted {l : Loader} {t : FileTree} {f : FileFault} (h : t.list l.directory = .error f) :
    l.loadAll t = (.error (.file f), l) := by
  simp only [loadAll, scan, h]

theorem loadAll_of_listed {l : Loader} {t : FileTree} {names : List String} (h : t.list l.directory = .ok names) :
    ∃ results, l.loadAll t = (.ok results, results.foldl keep l) := by
  simp only [loadAll, scan, h]
  exact ⟨_, rfl⟩

/-! A directory with a single document. -/

/-- The directory `rules` with one document in it. -/
def oneDocument (text : String) : FileTree :=
  ⟨[(["rules"], .directory), (["rules", "a.yml"], .file text.toUTF8)]⟩

theorem list_oneDocument (text : String) : (oneDocument text).list "rules" = .ok ["a.yml"] := by cbv

theorem loadAll_oneDocument {text : String} {d : RuleDocument}
    (hd : RuleDocument.ofYaml text = .ok d) : ∃ status l,
      (new "rules").loadAll (oneDocument text) = (.ok [⟨["a.yml"], status, d.check.2⟩], l) := by
  have offers : Offers (oneDocument text) "rules" "a.yml" d :=
    offers_of_entry (by decide) (by decide) (by decide) (by decide) rfl rfl hd
  exact ⟨_, _, loadAll_of_offers (list_oneDocument text) (.cons offers .nil)⟩

/-! A scan fails as a whole. -/

/-- Whatever has been scanned before, a scan fails if the root is no directory, and for nothing below
it; and it has then taken nothing in. A root that is there is gone through to the end unless a script
ends the program on the way; what has been taken in up to there is what is told of before it. -/
theorem loadAll_allOrNothing (directory : String) (scans : List FileTree) (t : FileTree) :
    let l := (new directory).after scans
    let answer := (l.loadAll t).1
    let l' := (l.loadAll t).2
    ((∃ e, answer = .error e) ↔ t.isDirectory directory = false) ∧
    (∀ e, answer = .error e →
      (e = .file .missing ∨ e = .file .notADirectory ∨ t.resolve directory = .error .tooManyLinks) ∧
      l'.ids = l.ids ∧ (∀ id, l'.get? id = l.get? id) ∧ (∀ id, l'.build id = l.build id) ∧
      l.walk t = (.error (.fault e), l)) ∧
    (t.isDirectory directory = true → ∃ results, answer = .ok results ∧
      ((∀ r ∈ results, r.transcript.exit = none) → l.walk t = (.ok results, l')) ∧
      ∀ before r after code, results = before ++ r :: after →
        (∀ r' ∈ before, r'.transcript.exit = none) → r.transcript.exit = some code →
        l.walk t = (.error (.ended code), before.foldl keep l)) := by
  intro l answer l'
  have hroot : l.directory = directory := after_directory (new directory) scans
  rw [← hroot]
  cases hlist : t.list l.directory with
  | error f =>
      have hload : l.loadAll t = (.error (.file f), l) := loadAll_of_unlisted hlist
      have hanswer : answer = .error (.file f) := congrArg Prod.fst hload
      have hl' : l' = l := congrArg Prod.snd hload
      have absent : t.isDirectory l.directory = false :=
        FileTree.isDirectory_eq_false_iff.mpr ⟨f, hlist⟩
      refine ⟨⟨fun _ => absent, fun _ => ⟨_, hanswer⟩⟩, ?_, ?_⟩
      · intro e he
        obtain rfl : .file f = e := Except.error.inj (hanswer.symm.trans he)
        have hfault := FileTree.list_eq_error hlist
        rw [hl', LoadError.file.injEq, LoadError.file.injEq]
        exact ⟨hfault, rfl, fun _ => rfl, fun _ => rfl, walk_of_unlisted hlist⟩
      · intro there
        cases absent.symm.trans there
  | ok names =>
      obtain ⟨results, hload⟩ := loadAll_of_listed hlist
      have hanswer : answer = .ok results := congrArg Prod.fst hload
      have hloaded : l.loadAll t = (.ok results, l') := Prod.ext hanswer rfl
      have there : t.isDirectory l.directory = true := FileTree.isDirectory_iff_list.mpr ⟨names, hlist⟩
      refine ⟨?_, ?_, fun _ => ⟨results, hanswer, walk_of_running hloaded, ?_⟩⟩
      · simp [hanswer, there]
      · intro e he
        cases hanswer.symm.trans he
      · rintro before r after code rfl running ended
        exact walk_of_ended hloaded running ended

set_option maxRecDepth 100000 in
/-- A root that is there, of which a scan does not come to the end. -/
theorem walk_ended_by_script :
    let text := "apiVersion: v1\nkind: MetricRule\nmetadata: {id: a, name: a}\ncode: os.exit(7)\n"
    (oneDocument text).isDirectory "rules" = true ∧
      ((new "rules").walk (oneDocument text)).1 = .error (.ended 7) := by
  intro text
  have found : (RuleDocument.ofYaml text).map (fun d => d.check.2.exit) = .ok (some 7) := by
    decide +kernel
  obtain ⟨d, hd, ended⟩ := Except.map_eq_ok_iff.mp found
  obtain ⟨status, l, scanned⟩ := loadAll_oneDocument hd
  refine ⟨FileTree.isDirectory_iff_list.mpr ⟨_, list_oneDocument text⟩, ?_⟩
  rw [@walk_of_ended _ l _ [] [] _ 7 scanned (by simp) ended]

end Gauge.Loader
