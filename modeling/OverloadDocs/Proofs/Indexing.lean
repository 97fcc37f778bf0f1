import OverloadDocs.Proofs.Merging

/-!
Runs of indexing, in a context that stays live. A run finds paths, or fails before it has changed a row of a file or
a function. Once it has paths it goes through in any consistent store: the files that can be read are stored with
their functions, those that are gone are removed, and files that cannot be read are left as they were.
-/

namespace OverloadDocs

theorem flatten_batches {α : Type} (size : Nat) (xs : List α) : (batches size xs).flatten = xs := by
  fun_induction batches size xs with
  | case1 => rfl
  | case2 xs _ ih => rw [List.flatten_cons, ih, List.take_append_drop]

namespace Store

/-- Batches make no difference to what is stored when nothing fails. -/
theorem storeBatches_eq {projectId : Int} {merged : List Documented} {p p' : Storing}
    {parts : List (List SourceState)}
    (h : parts.flatten.foldlM (Storing.add projectId merged) p = .ok p') :
    storeBatches projectId merged p parts = (.ok p', p'.store) := by
  induction parts generalizing p with
  | nil =>
      obtain rfl := Except.ok.inj h
      rfl
  | cons part parts ih =>
      rw [List.flatten_cons, List.foldlM_append] at h
      rw [storeBatches]
      cases hpart : part.foldlM (Storing.add projectId merged) p with
      | error e =>
          rw [hpart] at h
          cases h
      | ok p₁ =>
          rw [hpart] at h
          exact ih h

/-! ## Stale files -/

def staleIds (s : Store) (projectId : Int) (paths : List String) : List Int :=
  ((s.filesOf projectId).filter fun f => !paths.contains f.path).map (·.id)

theorem removeStale_snd (s : Store) (projectId : Int) (paths : List String) :
    (s.removeStale projectId paths).2 = s.withoutFiles (s.staleIds projectId paths) :=
  foldl_deleteFile s _

theorem Consistent.mem_staleIds {s : Store} (hs : s.Consistent) (projectId : Int) (paths : List String)
    {f : FileRow} (hf : f ∈ s.files) :
    f.id ∈ s.staleIds projectId paths ↔ f.projectId = projectId ∧ f.path ∉ paths := by
  simp only [staleIds, filesOf, List.mem_map, List.mem_filter, List.mem_mergeSort, decide_eq_true_eq,
    Bool.not_eq_true', List.contains_eq_mem, decide_eq_false_iff_not]
  constructor
  · rintro ⟨g, ⟨⟨hg, hproject⟩, hpath⟩, hid⟩
    rw [← hs.files.eq_of_id hg hf hid]
    exact ⟨hproject, hpath⟩
  · rintro ⟨hproject, hpath⟩
    exact ⟨f, ⟨⟨hf, hproject⟩, hpath⟩, rfl⟩

/-- Removing stale files removes what is at the paths of the project that are not listed. -/
theorem Consistent.file?_removeStale {s : Store} (hs : s.Consistent) (projectId : Int)
    (paths : List String) (pid : Int) (path : String) :
    (s.removeStale projectId paths).2.file? pid path =
      if pid = projectId ∧ path ∉ paths then none else s.file? pid path := by
  rw [removeStale_snd, hs.file?_withoutFiles]
  cases hf : s.file? pid path with
  | none =>
      rw [Option.filter_none, ite_self]
  | some f =>
      obtain ⟨hmem, rfl, rfl⟩ := hs.file?_eq_some.mp hf
      have hstale := hs.mem_staleIds projectId paths hmem
      rw [Option.filter_some]
      by_cases hgone : f.projectId = projectId ∧ f.path ∉ paths
      · rw [if_pos hgone, if_neg (by simpa using hstale.mpr hgone)]
      · rw [if_neg hgone, if_pos (by simpa using fun h => hgone (hstale.mp h))]

theorem Consistent.functionIn?_removeStale {s : Store} (hs : s.Consistent) {projectId : Int}
    {paths : List String} {pid : Int} {path : String} (hstays : ¬(pid = projectId ∧ path ∉ paths))
    (key : String) :
    (s.removeStale projectId paths).2.functionIn? pid path key = s.functionIn? pid path key := by
  rw [functionIn?, functionIn?, hs.file?_removeStale, if_neg hstays, removeStale_snd]
  cases hf : s.file? pid path with
  | none => rfl
  | some f =>
      obtain ⟨hmem, rfl, rfl⟩ := hs.file?_eq_some.mp hf
      exact hs.functionAt?_withoutFiles (fun h => hstays ((hs.mem_staleIds _ _ hmem).mp h)) key

/-! ## Projects -/

def newProject (s : Store) (root : String) : Project where
  id := s.lastProject + 1
  root := root
  name := Path.base root
  indexVersion := currentSchemaVersion

/-- The rows with one for the project of a root. -/
def withProject (s : Store) (root : String) : Store :=
  if (s.project? root).isSome then s
  else { s with projects := s.projects ++ [s.newProject root], lastProject := s.lastProject + 1 }

theorem getOrCreateProject_eq (s : Store) (root : String) :
    ∃ p, s.getOrCreateProject root = .ok (p, s.withProject root) ∧ p ∈ (s.withProject root).projects ∧
      p.root = root := by
  rw [getOrCreateProject, withProject]
  cases hold : s.project? root with
  | some p =>
      have hroot := List.find?_some hold
      exact ⟨p, rfl, List.mem_of_find?_eq_some hold, of_decide_eq_true hroot⟩
  | none =>
      refine ⟨s.newProject root, ?_, List.mem_append_right _ List.mem_cons_self, rfl⟩
      dsimp only
      rw [createProject, hold]
      rfl

theorem files_withProject (s : Store) (root : String) : (s.withProject root).files = s.files := by
  rw [withProject]
  split <;> rfl

theorem functions_withProject (s : Store) (root : String) : (s.withProject root).functions = s.functions := by
  rw [withProject]
  split <;> rfl

theorem Consistent.withProject {s : Store} (hs : s.Consistent) (root : String) :
    (s.withProject root).Consistent := by
  rw [Store.withProject]
  split
  · exact hs
  · rename_i hnone
    exact hs.addProject rfl (find?_key_eq_none.mp (Option.not_isSome_iff_eq_none.mp hnone))

theorem Consistent.getOrCreateProject {s : Store} (hs : s.Consistent) (root : String) :
    ∃ p s', s.getOrCreateProject root = .ok (p, s') ∧ s'.Consistent ∧ p ∈ s'.projects ∧ p.root = root ∧
      s'.files = s.files ∧ s'.functions = s.functions := by
  obtain ⟨p, hget, hp, hroot⟩ := s.getOrCreateProject_eq root
  exact ⟨p, _, hget, hs.withProject root, hp, hroot, s.files_withProject root, s.functions_withProject root⟩

theorem Consistent.updateCounts {s : Store} (hs : s.Consistent) (p : Project) :
    (s.updateCounts p).Consistent :=
  hs.updateProject _ _ _ _ _

theorem Consistent.project?_updateCounts {s : Store} (hs : s.Consistent) {p : Project}
    (hp : p ∈ s.projects) : ∃ q, (s.updateCounts p).project? p.root = some q ∧ q.id = p.id := by
  have hmem : (if p.id = p.id then
      { p with
        name := p.name
        totalFiles := (s.filesOf p.id).length
        totalFunctions := (s.functionsOf p.id).length
        indexed := true }
      else p) ∈ (s.updateCounts p).projects :=
    List.mem_map.mpr ⟨p, hp, rfl⟩
  rw [if_pos rfl] at hmem
  exact ⟨_, (hs.updateCounts p).project?_eq_some.mpr ⟨hmem, rfl⟩, rfl⟩

end Store

/-! ## Runs -/

/-- The paths of the sources that a run finds under a root, or why it fails before it stores anything. -/
def IndexOptions.paths (options : IndexOptions) (tree : Tree) (root : String) :
    Except IndexError (List String) :=
  match Discovery.ofPatterns options.includes (options.ignores.getD Discovery.defaultIgnores) with
  | .error e => .error (.patterns e)
  | .ok discovery =>
    match discovery.sources tree root with
    | .error (.unreadable e) => .error (.discovery e)
    | .error (.overrun e) => .error (.brokenOff e)
    | .ok paths => .ok paths

/-- A run with these options finds paths under a root of a tree, and can read the files at all of them. -/
structure IndexOptions.Reads (options : IndexOptions) (tree : Tree) (root : String) (paths : List String) :
    Prop where
  found : options.paths tree root = .ok paths
  readable : ∀ path ∈ paths, ∃ text, tree.readText (Path.join [root, path]) = .ok text

namespace Store

/-- What becomes of a store when the sources found under the root of a project are indexed. -/
structure Indexed (s : Store) (p : Project) (paths : List String) (merged : List Documented)
    (sources : List SourceFile) (s' : Store) : Prop where
  consistent : s'.Consistent
  project : ∃ q, s'.project? p.root = some q ∧ q.id = p.id
  file : ∀ path ∈ SourceFile.paths sources, ∃ source ∈ sources, source.path = path ∧
    ∃ row, s'.file? p.id path = some row ∧ row.Stores source (s.file? p.id path)
  holds : ∀ path ∈ SourceFile.paths sources, ∀ f ∈ Documented.inFile path merged,
    ∃ row, s'.functionIn? p.id path f.signature.key = some row ∧
      row.Stores f (s.functionIn? p.id path f.signature.key)
  gone : ∀ path ∈ SourceFile.paths sources, ∀ key,
    key ∉ (Documented.inFile path merged).map (·.signature.key) → s'.functionIn? p.id path key = none
  removed : ∀ path, path ∉ paths → s'.file? p.id path = none
  otherFiles : ∀ pid path, pid ≠ p.id ∨ path ∈ paths ∧ path ∉ SourceFile.paths sources →
    s'.file? pid path = s.file? pid path
  otherFunctions : ∀ pid path key, pid ≠ p.id ∨ path ∈ paths ∧ path ∉ SourceFile.paths sources →
    s'.functionIn? pid path key = s.functionIn? pid path key

/-- Storing all sources, removing stale files and counting is what indexing comes to. -/
theorem AllStored.indexed {s s₁ : Store} {p : Project} (hp : p ∈ s.projects) {paths : List String}
    {merged : List Documented} {sources : List SourceFile} (h : s.AllStored p.id merged sources s₁)
    (hsources : SourceFile.paths sources ⊆ paths) :
    s.Indexed p paths merged sources ((s₁.removeStale p.id paths).2.updateCounts p) := by
  have hremoved : (s₁.removeStale p.id paths).2.Consistent := by
    rw [removeStale_snd]
    exact h.consistent.withoutFiles _
  have hproject : p ∈ (s₁.removeStale p.id paths).2.projects := by
    rw [removeStale_snd]
    exact h.projects ▸ hp
  have hfile : ∀ pid path, ((s₁.removeStale p.id paths).2.updateCounts p).file? pid path =
      if pid = p.id ∧ path ∉ paths then none else s₁.file? pid path :=
    h.consistent.file?_removeStale p.id paths
  have hfunction : ∀ pid path key, ¬(pid = p.id ∧ path ∉ paths) →
      ((s₁.removeStale p.id paths).2.updateCounts p).functionIn? pid path key =
        s₁.functionIn? pid path key :=
    fun pid path key hstays => h.consistent.functionIn?_removeStale hstays key
  refine ⟨hremoved.updateCounts p, hremoved.project?_updateCounts hproject, fun path hpath => ?_,
    fun path hpath f hf => ?_, fun path hpath key hkey => ?_, fun path hpath => ?_,
    fun pid path hother => ?_, fun pid path key hother => ?_⟩
  · rw [hfile, if_neg fun hgone => hgone.2 (hsources hpath)]
    exact h.file path hpath
  · rw [hfunction _ _ _ fun hgone => hgone.2 (hsources hpath)]
    exact h.holds path hpath f hf
  · rw [hfunction _ _ _ fun hgone => hgone.2 (hsources hpath)]
    exact h.gone path hpath key hkey
  · rw [hfile, if_pos ⟨rfl, hpath⟩]
  · rw [hfile, if_neg, h.otherFiles]
    · rintro ⟨hpid, hpath⟩
      exact hother.elim (· hpid) (·.2 hpath)
    · rintro ⟨hpid, hpath⟩
      exact hother.elim (· hpid) (hpath ·.1)
  · rw [hfunction, h.otherFunctions]
    · rintro ⟨hpid, hpath⟩
      exact hother.elim (· hpid) (·.2 hpath)
    · rintro ⟨hpid, hpath⟩
      exact hother.elim (· hpid) (hpath ·.1)

theorem indexSources_of_error {s : Store} {supply : Anchors} {tree : Tree} {p : Project}
    {options : IndexOptions} {e : IndexError} (hpaths : options.paths tree p.root = .error e) :
    s.indexSources supply tree p options = ⟨.error e, s, supply⟩ := by
  rw [IndexOptions.paths] at hpaths
  rw [indexSources]
  cases hdiscovery : Discovery.ofPatterns options.includes
      (options.ignores.getD Discovery.defaultIgnores) with
  | error cause =>
      rw [hdiscovery] at hpaths
      obtain rfl := Except.error.inj hpaths
      rfl
  | ok discovery =>
      rw [hdiscovery] at hpaths
      cases hsources : discovery.sources tree p.root with
      | error cause =>
          simp only [hsources] at hpaths ⊢
          cases cause with
          | unreadable | overrun =>
              obtain rfl := Except.error.inj hpaths
              rfl
      | ok found =>
          simp only [hsources] at hpaths
          cases hpaths

theorem builds_eq (states : List SourceState) :
    (states.filterMap fun st => st.file?.map (·.build)) = (SourceState.files states).map (·.build) := by
  rw [SourceState.files, List.map_filterMap]

/-- The report of a run that found these paths and read these states, given what they were merged to and
what was stored and removed. -/
def reportOf (paths : List String) (states : List SourceState) (result : BuildResult) (stored : Storing)
    (removed : Nat) : IndexReport :=
  { filesIndexed := stored.indexed
    filesSkipped := stored.skipped
    filesFailed := (states.filterMap SourceState.failure?).length
    filesRemoved := removed
    sources := paths.length
    errorMessages := states.filterMap SourceState.failure? ++ result.errors.map (·.message)
    warningMessages := result.warnings.map (·.message)
    result := { result with functions := stored.functions } }

theorem indexSources_of_ok {s : Store} {supply : Anchors} {tree : Tree} {p : Project}
    {options : IndexOptions} {paths : List String} (hpaths : options.paths tree p.root = .ok paths)
    {states : List SourceState} {supply' : Anchors}
    (hread : SourceState.readAll tree p.root supply paths = (states, supply'))
    {done : Storing}
    (hdone : states.foldlM
      (Storing.add p.id (SourceFile.merged supply' (SourceState.files states))) { store := s } = .ok done) :
    s.indexSources supply tree p options =
      ⟨.ok (reportOf paths states
          (FileBuild.merge supply' ((SourceState.files states).map (·.build))).2.1 done
          (done.store.removeStale p.id paths).1),
        (done.store.removeStale p.id paths).2.updateCounts p,
        (FileBuild.merge supply' ((SourceState.files states).map (·.build))).2.2⟩ := by
  have hbatches : ∀ size, storeBatches p.id (SourceFile.merged supply' (SourceState.files states))
      { store := s } (batches size states) = (.ok done, done.store) := by
    intro size
    refine storeBatches_eq ?_
    rw [flatten_batches]
    exact hdone
  rw [IndexOptions.paths] at hpaths
  rw [indexSources]
  cases hdiscovery : Discovery.ofPatterns options.includes
      (options.ignores.getD Discovery.defaultIgnores) with
  | error e =>
      rw [hdiscovery] at hpaths
      cases hpaths
  | ok discovery =>
      rw [hdiscovery] at hpaths
      cases hsources : discovery.sources tree p.root with
      | error e =>
          simp only [hsources] at hpaths
          cases e <;> cases hpaths
      | ok found =>
          simp only [hsources] at hpaths
          obtain rfl := Except.ok.inj hpaths
          simp only [hsources, hread, builds_eq]
          rw [← SourceFile.merged, hbatches]
          rfl

/-- The run of a consistent store goes through once there are paths, and reports the functions as they are
stored. -/
theorem Consistent.indexSources {s : Store} (hs : s.Consistent) {p : Project} (hp : p ∈ s.projects)
    (supply : Anchors) {tree : Tree} {options : IndexOptions} {paths : List String}
    (hpaths : options.paths tree p.root = .ok paths) :
    ∃ states supply' report, SourceState.readAll tree p.root supply paths = (states, supply') ∧
      (s.indexSources supply tree p options).outcome = .ok report ∧
      report.filesFailed = (states.filterMap SourceState.failure?).length ∧
      report.result.functions = s.keptOf p.id (SourceFile.merged supply' (SourceState.files states))
        (SourceState.files states) ∧
      s.Indexed p paths (SourceFile.merged supply' (SourceState.files states)) (SourceState.files states)
        (s.indexSources supply tree p options).store := by
  obtain ⟨states, supply', hstates⟩ := SourceState.exists_readAll tree p.root supply paths
  have hread := SourceState.read_of_eq hstates
  obtain ⟨done, hfold, hall, hfunctions⟩ := Consistent.foldlM_storing (p := { store := s })
    (SourceFile.nodup_keys_merged supply' hread.built_files)
    (fun state h source ho => (hread.built state h source ho).1) hs ⟨p, hp, rfl⟩
  rw [indexSources_of_ok hpaths hstates hfold]
  exact ⟨states, supply', _, hstates, rfl, rfl, hfunctions, hall.indexed hp hread.paths_subset⟩

/-- Only the files and the functions of the earlier store count. -/
theorem Indexed.congr {s s₁ s' : Store} {p : Project} {paths : List String} {merged : List Documented}
    {sources : List SourceFile} (hfiles : s₁.files = s.files) (hfunctions : s₁.functions = s.functions)
    (h : s₁.Indexed p paths merged sources s') : s.Indexed p paths merged sources s' := by
  have hfile : s₁.file? = s.file? := by
    funext pid path
    rw [file?, file?, hfiles]
  have hfunction : s₁.functionIn? = s.functionIn? := by
    funext pid path key
    simp only [functionIn?, functionAt?, hfile, hfunctions]
  obtain ⟨hs', hproject, hf, hholds, hgone, hremoved, hothers, hothers'⟩ := h
  rw [hfile] at hf hothers
  rw [hfunction] at hholds hothers'
  exact ⟨hs', hproject, hf, hholds, hgone, hremoved, hothers, hothers'⟩

/-- A run that finds no paths has changed neither a file nor a function. -/
theorem Consistent.indexProject_of_error {s : Store} (hs : s.Consistent) (supply : Anchors) {tree : Tree}
    {root : String} {options : IndexOptions} {e : IndexError}
    (hpaths : options.paths tree (Path.fromTop root) = .error e) :
    (s.indexProject supply tree root options).outcome = .error e ∧
      (s.indexProject supply tree root options).store.Consistent ∧
      (s.indexProject supply tree root options).store.files = s.files ∧
      (s.indexProject supply tree root options).store.functions = s.functions := by
  obtain ⟨p, s₁, hget, hs₁, -, hroot, hfiles, hfunctions⟩ := hs.getOrCreateProject (Path.fromTop root)
  rw [← hroot] at hpaths
  rw [indexProject, hget]
  dsimp only
  rw [indexSources_of_error hpaths]
  exact ⟨rfl, hs₁, hfiles, hfunctions⟩

/-- A run that finds paths goes through. -/
theorem Consistent.indexProject_of_ok {s : Store} (hs : s.Consistent) (supply : Anchors) {tree : Tree}
    {root : String} {options : IndexOptions} {paths : List String}
    (hpaths : options.paths tree (Path.fromTop root) = .ok paths) :
    ∃ p states supply' report, p.root = Path.fromTop root ∧
      SourceState.readAll tree (Path.fromTop root) supply paths = (states, supply') ∧
      (s.indexProject supply tree root options).outcome = .ok report ∧
      report.filesFailed = (states.filterMap SourceState.failure?).length ∧
      report.result.functions = s.keptOf p.id (SourceFile.merged supply' (SourceState.files states))
        (SourceState.files states) ∧
      s.Indexed p paths (SourceFile.merged supply' (SourceState.files states)) (SourceState.files states)
        (s.indexProject supply tree root options).store := by
  obtain ⟨p, s₁, hget, hs₁, hp, hroot, hfiles, hfunctions⟩ := hs.getOrCreateProject (Path.fromTop root)
  rw [← hroot] at hpaths ⊢
  obtain ⟨states, supply', report, hread, houtcome, hfailed, hkept, hindexed⟩ :=
    hs₁.indexSources hp supply hpaths
  have hsame : s₁.keptOf = s.keptOf := by
    funext pid merged sources
    simp only [keptOf, keptAt, functionIn?, functionAt?, file?, hfiles, hfunctions]
  rw [indexProject, hget]
  exact ⟨p, states, supply', report, rfl, hread, houtcome, hfailed, hsame ▸ hkept,
    hindexed.congr hfiles hfunctions⟩

/-! ## What rows of runs come from -/

namespace Indexed

variable {s s' : Store} {p : Project} {paths : List String} {merged : List Documented}
  {sources : List SourceFile}

/-- A file after a run that belongs to none of the sources is in another project or could not be read. -/
theorem other_of_file? (h : s.Indexed p paths merged sources s') {pid : Int} {path : String} {row : FileRow}
    (hfind : s'.file? pid path = some row) (hsource : ¬(pid = p.id ∧ path ∈ SourceFile.paths sources)) :
    pid ≠ p.id ∨ path ∈ paths ∧ path ∉ SourceFile.paths sources := by
  by_cases hproject : pid = p.id
  · refine .inr ⟨?_, fun hpath => hsource ⟨hproject, hpath⟩⟩
    by_contra hpath
    rw [hproject, h.removed _ hpath] at hfind
    cases hfind
  · exact .inl hproject

/-- Every file after a run was there before, or has been stored for one of the sources. -/
theorem mem_files (hs : s.Consistent) (h : s.Indexed p paths merged sources s') {row : FileRow}
    (hrow : row ∈ s'.files) :
    row ∈ s.files ∨ ∃ source ∈ sources, row.path = source.path ∧
      row.Stores source (s.file? p.id source.path) := by
  have hfind := h.consistent.file?_eq_some.mpr ⟨hrow, rfl, rfl⟩
  by_cases hsource : row.projectId = p.id ∧ row.path ∈ SourceFile.paths sources
  · obtain ⟨source, hmem, hpath, found, hfound, hstores⟩ := h.file row.path hsource.2
    rw [← hsource.1, hfind] at hfound
    obtain rfl := Option.some.inj hfound
    exact .inr ⟨source, hmem, hpath.symm, hpath ▸ hstores⟩
  · rw [h.otherFiles _ _ (h.other_of_file? hfind hsource)] at hfind
    exact .inl (hs.file?_eq_some.mp hfind).1

/-- A merged function has been stored at the path of its source. -/
theorem functionIn?_of_merged (h : s.Indexed p paths merged sources s') {f : Documented} (hf : f ∈ merged)
    (hfile : f.signature.source.file ∈ SourceFile.paths sources) :
    ∃ row, s'.functionIn? p.id f.signature.source.file f.signature.key = some row ∧
      row.Stores f (s.functionIn? p.id f.signature.source.file f.signature.key) :=
  h.holds _ hfile f (Documented.mem_inFile.mpr ⟨hf, rfl⟩)

/-- At the path of a source there are only functions that are merged from it. -/
theorem merged_of_functionIn? (h : s.Indexed p paths merged sources s') {path key : String}
    (hpath : path ∈ SourceFile.paths sources) {row : FunctionRow}
    (hfind : s'.functionIn? p.id path key = some row) :
    ∃ f ∈ merged, f.signature.source.file = path ∧ f.signature.key = key := by
  by_cases hkey : key ∈ (Documented.inFile path merged).map (·.signature.key)
  · obtain ⟨f, hf, hkey⟩ := List.mem_map.mp hkey
    obtain ⟨hf, hfile⟩ := Documented.mem_inFile.mp hf
    exact ⟨f, hf, hfile, hkey⟩
  · rw [h.gone path hpath key hkey] at hfind
    cases hfind

/-- Every function after a run was there before, or has been stored for one of the merged ones. -/
theorem mem_functions (hs : s.Consistent) (h : s.Indexed p paths merged sources s') {row : FunctionRow}
    (hrow : row ∈ s'.functions) :
    row ∈ s.functions ∨ ∃ f ∈ merged, row.Stores f
      (s.functionIn? p.id f.signature.source.file f.signature.key) := by
  obtain ⟨file, hfile, hid⟩ := h.consistent.functionParents row hrow
  have hfind : s'.functionIn? file.projectId file.path row.key = some row :=
    h.consistent.functionIn?_eq_some.mpr ⟨file, hfile, rfl, rfl, hrow, hid.symm, rfl⟩
  by_cases hsource : file.projectId = p.id ∧ file.path ∈ SourceFile.paths sources
  · rw [hsource.1] at hfind
    obtain ⟨f, hf, hpath, hkey⟩ := h.merged_of_functionIn? hsource.2 hfind
    obtain ⟨found, hfound, hstores⟩ := h.functionIn?_of_merged hf (hpath ▸ hsource.2)
    rw [hpath, hkey, hfind] at hfound
    obtain rfl := Option.some.inj hfound
    exact .inr ⟨f, hf, hstores⟩
  · have hplace := h.consistent.file?_eq_some.mpr ⟨hfile, rfl, rfl⟩
    rw [h.otherFunctions _ _ _ (h.other_of_file? hplace hsource)] at hfind
    obtain ⟨-, -, -, -, hmem, -, -⟩ := hs.functionIn?_eq_some.mp hfind
    exact .inl hmem

end Indexed

/-- Every stored function has an anchor. -/
def Anchored (s : Store) : Prop := ∀ r ∈ s.functions, r.anchor ≠ ""

/-- A run keeps a store in order, whatever becomes of it. -/
theorem indexProject_invariant {s : Store} (hs : s.Consistent) (hanchors : s.Anchored) (supply : Anchors)
    (tree : Tree) (root : String) (options : IndexOptions) :
    (s.indexProject supply tree root options).store.Consistent ∧
      (s.indexProject supply tree root options).store.Anchored := by
  cases hpaths : options.paths tree (Path.fromTop root) with
  | error e =>
      obtain ⟨-, hs', -, hfunctions⟩ := hs.indexProject_of_error supply hpaths
      exact ⟨hs', by rwa [Anchored, hfunctions]⟩
  | ok paths =>
      obtain ⟨p, states, supply', report, -, hstates, -, -, -, hindexed⟩ :=
        hs.indexProject_of_ok supply hpaths
      have hread := SourceState.read_of_eq hstates
      refine ⟨hindexed.consistent, fun row hrow => ?_⟩
      rcases hindexed.mem_functions hs hrow with hrow | ⟨f, hf, hstores⟩
      · exact hanchors row hrow
      · obtain ⟨source, -, hdeclares⟩ := SourceFile.declares_merged supply' hread.built_files f hf
        refine hstores.anchor_ne hdeclares.anchor fun old hold => ?_
        obtain ⟨-, -, -, -, hmem, -, -⟩ := hs.functionIn?_eq_some.mp hold
        exact hanchors old hmem

/-- The stores that runs of indexing lead to, one after the other and whatever their outcomes. -/
inductive Reached : Store → Prop
  | empty : Reached {}
  | run {s : Store} (h : Reached s) (supply : Anchors) (tree : Tree) (root : String)
      (options : IndexOptions) : Reached (s.indexProject supply tree root options).store

theorem Reached.invariant {s : Store} (h : s.Reached) : s.Consistent ∧ s.Anchored := by
  induction h with
  | empty => exact ⟨.empty, fun _ => nofun⟩
  | run _ supply tree root options ih => exact indexProject_invariant ih.1 ih.2 supply tree root options

end Store

end OverloadDocs
