import Gauge.Proofs.Loader.Scan
import Gauge.Proofs.Rule.LifeCycle

/-!
What a loader holds can be built. A document comes into a loader only by way of a file whose document has
been checked, and stands there under its own identifier; what the check has found of its code, building
finds again. This holds after any number of scans, whatever they have met with.
-/

namespace Gauge

namespace RuleDocument

theorem toRuleWith_eq_ok_iff {d : RuleDocument} {overrides : List (String × Float)} {r : Rule} :
    d.toRuleWith overrides = .ok r ↔ d.prepare overrides = (.ok (), r) :=
  Rule.ofParts_eq_ok_iff

/-- What is asked of a document before it is taken in. -/
structure Accepted (d : RuleDocument) : Prop where
  kind_eq : d.kind = metricRule
  id_ne : d.id ≠ ""
  valid : ∃ r, d.prepare [] = (.ok (), r)

theorem check_eq_ok {d d' : RuleDocument} (h : d.check.1 = .ok d') : d' = d ∧ d.Accepted := by
  simp only [check] at h
  split at h
  · cases h
  · rename_i hkind
    split at h
    · cases h
    · rename_i hid
      split at h
      · rename_i r hr
        cases h
        exact ⟨rfl, by simpa using hkind, by simpa using hid, r, hr⟩
      · cases h

theorem accepted_of_load {t : FileTree} {path : String} {d : RuleDocument}
    (h : (load t path).1 = .ok d) : d.Accepted := by
  simp only [load] at h
  split at h
  · cases h
  · split at h
    · cases h
    · obtain ⟨rfl, accepted⟩ := check_eq_ok h
      exact accepted

theorem load_eq_check {t : FileTree} {path text : String} {d : RuleDocument}
    (read : t.read path = .ok text) (parsed : ofYaml text = .ok d) : load t path = d.check := by
  simp only [load, read, parsed]

theorem check_eq {d : RuleDocument} (kind : d.kind = metricRule) (id : d.id ≠ "") :
    d.check = ((d.prepare []).1.mapError LoadError.rule |>.map fun _ => d,
      (d.prepare []).2.transcript) := by
  simp only [check, kind, bne_self_eq_false, Bool.false_eq_true, if_false, beq_iff_eq, id]
  cases d.prepare [] with
  | mk result r => cases result <;> rfl

theorem Accepted.check {d : RuleDocument} (h : d.Accepted) : d.check = (.ok d, d.check.2) := by
  obtain ⟨r, hr⟩ := h.valid
  rw [check_eq h.kind_eq h.id_ne, hr]
  rfl

instance (d : RuleDocument) : Decidable d.Accepted :=
  decidable_of_iff (d.kind = metricRule ∧ d.id ≠ "" ∧ d.toRule.isOk)
    ⟨fun ⟨kind, id, ok⟩ => ⟨kind, id, by
      cases hr : d.toRule with
      | error e => simp [hr, Except.isOk, Except.toBool] at ok
      | ok r => exact ⟨r, toRuleWith_eq_ok_iff.mp hr⟩⟩,
    fun ⟨kind, id, r, hr⟩ => ⟨kind, id, by
      rw [show d.toRule = .ok r from toRuleWith_eq_ok_iff.mpr hr]
      rfl⟩⟩

/-- A document that has been checked gives the rule that it describes. -/
theorem Accepted.toRule {d : RuleDocument} (h : d.Accepted) :
    ∃ r, d.toRule = .ok r ∧ r.state = .valid ∧ r.name = d.id ∧ r.globals = d.globals ∧
      r.code = d.code := by
  obtain ⟨r, hr⟩ := h.valid
  obtain ⟨hstate, hname, hglobals, hcode⟩ := Rule.prepare_of_ok hr
  exact ⟨r, toRuleWith_eq_ok_iff.mpr hr, hstate, hname,
    hglobals.trans (NameMap.ofList_entries d.globals), hcode⟩

end RuleDocument

namespace Loader

/-! Where documents come from. -/

theorem tryFile_loaded {t : FileTree} {root name : String} {place : List String} {d : RuleDocument}
    (h : (tryFile t root place name).status = .loaded d) :
    RuleDocument.load t (pathOf root place) = (.ok d, (tryFile t root place name).transcript) := by
  simp only [tryFile] at h ⊢
  split at h
  · rename_i hdocument
    simp only [hdocument, if_true]
    split at h
    · rename_i d' transcript hload
      cases h
      simp only [hload]
    · cases h
  · cases h

/-- A document that a scan tells of is the one in the file that it tells of. -/
theorem load_of_mem_scanFrom {t : FileTree} {root : String} {fuel : Nat} {above : List String}
    {r : LoadResult} {d : RuleDocument} (h : r ∈ scanFrom t root fuel above)
    (loaded : r.status = .loaded d) :
    RuleDocument.load t (pathOf root r.place) = (.ok d, r.transcript) := by
  induction fuel generalizing above with
  | zero => exact absurd h List.not_mem_nil
  | succ fuel ih =>
      rw [scanFrom_succ] at h
      split at h
      · exact absurd h List.not_mem_nil
      · obtain ⟨name, -, hr⟩ := List.mem_flatMap.mp h
        rcases mem_entryResults hr with rfl | rfl | hr
        · cases loaded
        · rw [tryFile_place]
          exact tryFile_loaded loaded
        · exact ih hr

theorem load_of_mem_scan {t : FileTree} {root : String} {results : List LoadResult}
    (scanned : scan t root = .ok results) {r : LoadResult} (h : r ∈ results) {d : RuleDocument}
    (loaded : r.status = .loaded d) :
    RuleDocument.load t (pathOf root r.place) = (.ok d, r.transcript) := by
  simp only [scan] at scanned
  split at scanned
  · cases scanned
  · cases scanned
    exact load_of_mem_scanFrom h loaded

theorem loadAll_eq_ok {l l' : Loader} {t : FileTree} {results : List LoadResult}
    (h : l.loadAll t = (.ok results, l')) :
    scan t l.directory = .ok results ∧ l' = results.foldl keep l := by
  simp only [loadAll] at h
  split at h
  · cases h
  · rename_i hs
    cases h
    exact ⟨hs, rfl⟩

theorem directory_ne_of_scan {t : FileTree} {directory : String} {results : List LoadResult}
    (h : scan t directory = .ok results) : directory ≠ "" := by
  rintro rfl
  cases h

theorem pathOf_nil (root : String) : pathOf root [] = root := by
  simp [pathOf]

/-- A directory without other directories is gone through file by file. -/
theorem loadAll_of_files {t : FileTree} {directory : String} {names : List String}
    (list : t.list directory = .ok names)
    (files : ∀ name ∈ names, isHidden name = false ∧ t.isDirectory (pathOf directory [name]) = false) :
    let results := names.map fun name => tryFile t directory [name] name
    (new directory).loadAll t = (.ok results, results.foldl keep (new directory)) := by
  have hscan : scan t directory = .ok (names.map fun name => tryFile t directory [name] name) := by
    simp only [scan, list, scanFrom_succ, pathOf_nil, Except.ok.injEq]
    rw [← List.flatMap_pure_eq_map]
    refine List.flatMap_congr fun name hname => ?_
    simp [entryResults, files name hname]
  simp only [loadAll, new]
  rw [hscan]

/-- In a directory that is not below any other, there is a file of this name with this document in it. -/
structure Offers (t : FileTree) (directory name : String) (d : RuleDocument) : Prop where
  visible : isHidden name = false
  document : isDocumentName name = true
  isFile : t.isDirectory (pathOf directory [name]) = false
  parsed : ∃ text, t.read (pathOf directory [name]) = .ok text ∧ RuleDocument.ofYaml text = .ok d

theorem offers_of_entry {t : FileTree} {directory name text : String} {d : RuleDocument}
    (hdirectory : FileTree.IsName directory) (hname : FileTree.IsName name)
    (visible : isHidden name = false) (document : isDocumentName name = true)
    (entry : t.entry? [directory] = some .directory)
    (file : t.entry? [directory, name] = some (.file text.toUTF8))
    (parsed : RuleDocument.ofYaml text = .ok d) : Offers t directory name d := by
  have resolved := FileTree.resolve_file_in hdirectory hname entry file
  exact ⟨visible, document, FileTree.isDirectory_of_resolve resolved file, text,
    FileTree.read_of_resolve resolved file, parsed⟩

/-- What is told of a file with this document in it. -/
def resultOf (name : String) (d : RuleDocument) : LoadResult :=
  ⟨[name], match d.check.1 with
    | .ok d => .loaded d
    | .error e => .failed e, d.check.2⟩

theorem Offers.tryFile {t : FileTree} {directory name : String} {d : RuleDocument}
    (h : Offers t directory name d) : tryFile t directory [name] name = resultOf name d := by
  obtain ⟨text, read, parsed⟩ := h.parsed
  simp only [Loader.tryFile, h.document, if_true, RuleDocument.load_eq_check read parsed, resultOf]
  split <;> rename_i checked <;> simp only [checked]

theorem map_tryFile_of_offers {t : FileTree} {directory : String} {names : List String}
    {ds : List RuleDocument} (offers : List.Forall₂ (Offers t directory) names ds) :
    names.map (fun name => Loader.tryFile t directory [name] name) = List.zipWith resultOf names ds := by
  induction offers with
  | nil => rfl
  | cons h _ ih => rw [List.map_cons, List.zipWith_cons_cons, h.tryFile, ih]

/-- A directory in which there is nothing but files with documents. -/
theorem loadAll_of_offers {t : FileTree} {directory : String} {names : List String} {ds : List RuleDocument}
    (list : t.list directory = .ok names) (offers : List.Forall₂ (Offers t directory) names ds) :
    let results := List.zipWith resultOf names ds
    (new directory).loadAll t = (.ok results, results.foldl keep (new directory)) := by
  have files := ((List.forall₂_and_left names ds).mp
    (offers.imp fun _ _ h => ⟨And.intro h.visible h.isFile, h⟩)).1
  have loaded := loadAll_of_files list files
  rwa [map_tryFile_of_offers offers] at loaded

/-! What is kept. -/

/-- Each document is under its own identifier and has been checked. -/
def Sound (l : Loader) : Prop := ∀ id d, l.get? id = some d → d.id = id ∧ d.Accepted

theorem keep_sound {l : Loader} (sound : l.Sound) {r : LoadResult}
    (accepted : ∀ d, r.status = .loaded d → d.Accepted) : (l.keep r).Sound := by
  intro id d h
  cases hs : r.status with
  | hidden | foreign | failed e =>
      rw [get?_keep_of_not_holds (by simp [hs])] at h
      exact sound id d h
  | loaded d' =>
      rw [get?_keep_of_holds hs] at h
      split at h
      · rename_i hid
        obtain rfl := Option.some.inj h
        exact ⟨hid, accepted d' hs⟩
      · exact sound id d h

theorem foldl_keep_sound {l : Loader} (sound : l.Sound) {results : List LoadResult}
    (accepted : ∀ r ∈ results, ∀ d, r.status = .loaded d → d.Accepted) :
    (results.foldl keep l).Sound := by
  induction results generalizing l with
  | nil => exact sound
  | cons r results ih =>
      exact ih (keep_sound sound (accepted r List.mem_cons_self))
        fun r' hr' => accepted r' (List.mem_cons_of_mem _ hr')

theorem loadAll_sound {l : Loader} (sound : l.Sound) (t : FileTree) : (l.loadAll t).2.Sound := by
  simp only [loadAll]
  cases hs : scan t l.directory with
  | error f => exact sound
  | ok results =>
      refine foldl_keep_sound sound fun r hr d loaded => ?_
      exact RuleDocument.accepted_of_load (congrArg Prod.fst (load_of_mem_scan hs hr loaded))

/-- The loader after scans of the files as they were each time. -/
def after (l : Loader) (scans : List FileTree) : Loader :=
  scans.foldl (fun l t => (l.loadAll t).2) l

theorem after_sound {l : Loader} (sound : l.Sound) (scans : List FileTree) :
    (l.after scans).Sound := by
  induction scans generalizing l with
  | nil => exact sound
  | cons t scans ih => exact ih (loadAll_sound sound t)

theorem new_sound (directory : String) : (new directory).Sound := by
  intro id d h
  cases h

theorem mem_ids_iff {l : Loader} {id : String} : id ∈ l.ids ↔ ∃ d, l.get? id = some d := by
  simp only [ids, get?, ← Option.isSome_iff_exists]
  exact NameMap.mem_names_iff l.documents id

theorem build_of_get? {l : Loader} {id : String} {d : RuleDocument} (h : l.get? id = some d) :
    l.build id = d.toRule.mapError .rule := by
  simp only [build, h]

/-- However often a directory has been scanned, and whatever was in it each time: what a loader tells the
identifier of, it holds in order, and builds a valid rule from; any loader that holds the same document
builds a rule that answers the same. Of anything else it holds nothing. -/
theorem build_after (directory : String) (scans : List FileTree) (id : String) :
    let l := (new directory).after scans
    (id ∈ l.ids → id ≠ "" ∧ ∃ d r, l.get? id = some d ∧ d.metadata.id = id ∧
      d.kind = "MetricRule" ∧ l.build id = .ok r ∧ r.state = .valid ∧ r.name = id ∧
      r.globals = d.globals ∧ r.code = d.code ∧
      ∀ l' : Loader, l'.get? id = some d →
        ∃ r', l'.build id = .ok r' ∧ ∀ ops, r'.sights ops = r.sights ops) ∧
    (id ∉ l.ids → l.get? id = none ∧ l.build id = .error (.notFound id)) := by
  intro l
  have sound : l.Sound := after_sound (new_sound directory) scans
  constructor
  · intro hid
    obtain ⟨d, hd⟩ := mem_ids_iff.mp hid
    obtain ⟨rfl, accepted⟩ := sound id d hd
    obtain ⟨r, hr, hstate, hname, hglobals, hcode⟩ := accepted.toRule
    have built (l' : Loader) (h : l'.get? d.id = some d) : l'.build d.id = .ok r := by
      rw [build_of_get? h, hr]
      rfl
    exact ⟨accepted.id_ne, d, r, hd, rfl, accepted.kind_eq, built l hd, hstate, hname, hglobals, hcode,
      fun l' h => ⟨r, built l' h, fun _ => rfl⟩⟩
  · intro hid
    have hnone : l.get? id = none :=
      Option.eq_none_iff_forall_ne_some.mpr fun d hd => hid (mem_ids_iff.mpr ⟨d, hd⟩)
    exact ⟨hnone, by simp only [build, hnone]⟩

end Loader

end Gauge
