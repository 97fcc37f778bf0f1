import OverloadDocs.Proofs.Isolation
import OverloadDocs.Proofs.Listing

/-!
Identities over runs. A file is found by its path and a function by its file and its key, so what two runs over one
root both store has the same row after each, with the identity and the anchor that it had. Storing what is stored
already writes the row that is there, and a run over the same files leaves all files and functions as they are.
-/

namespace OverloadDocs

/-! ## Storing what is stored -/

theorem Documented.keeping_congr {f g : Documented} (h : g.unanchored = f.unanchored) (row : FunctionRow) :
    g.keeping (some row) = f.keeping (some row) := by
  have hanchored := congrArg (Documented.withAnchor · row.anchor) h
  exact hanchored

/-- A function that has been stored can be stored again under any anchor. -/
theorem FunctionRow.Stores.again {row : FunctionRow} {f g : Documented} {before : Option FunctionRow}
    (h : row.Stores f before) (hsame : g.unanchored = f.unanchored) : row.Stores g (some row) := by
  refine ⟨?_, fun old hold => ?_⟩
  · rw [Documented.keeping_congr hsame, h.keeping]
    exact h.content
  · rw [Option.mem_some.mp hold]

namespace Store

/-- A store with the rows of another one. -/
structure SameRows (s s' : Store) : Prop where
  projects : s'.projects = s.projects
  files : s'.files = s.files
  functions : s'.functions = s.functions

section

variable {s s' s'' : Store}

theorem SameRows.refl (s : Store) : s.SameRows s := ⟨rfl, rfl, rfl⟩

theorem SameRows.trans (h : s.SameRows s') (h' : s'.SameRows s'') : s.SameRows s'' :=
  ⟨h'.projects.trans h.projects, h'.files.trans h.files, h'.functions.trans h.functions⟩

theorem SameRows.functionAt? (h : s.SameRows s') : s'.functionAt? = s.functionAt? := by
  funext fileId key
  rw [Store.functionAt?, Store.functionAt?, h.functions]

theorem SameRows.file? (h : s.SameRows s') : s'.file? = s.file? := by
  funext projectId path
  rw [Store.file?, Store.file?, h.files]

theorem SameRows.functionIn? (h : s.SameRows s') : s'.functionIn? = s.functionIn? := by
  funext projectId path key
  rw [Store.functionIn?, Store.functionIn?, h.file?, h.functionAt?]

end

section

variable {s : Store} {fileId : Int}

theorem Consistent.upsertFunction_again (hs : s.Consistent) {f : Documented} {row : FunctionRow}
    (hrow : s.functionAt? fileId f.signature.key = some row) (hstores : row.Stores f (some row)) :
    ∃ s', s.upsertFunction (FunctionRow.ofDocumented f fileId) = .ok (row, s') ∧ s'.Consistent ∧ s.SameRows s' := by
  obtain ⟨hmem, rfl, hkey⟩ := hs.functionAt?_eq_some.mp hrow
  have hfile : s.HasFile (FunctionRow.ofDocumented f row.fileId).fileId := hs.functionParents row hmem
  have hsame : { FunctionRow.ofDocumented f row.fileId with id := row.id, anchor := row.anchor, filePath := "" } =
      row := hstores.content.symm
  have hput := hfile.upsertFunction_of_some hrow
  rw [hsame] at hput
  refine ⟨_, hput, hs.called (.functionChanged hfile hrow), rfl, rfl, ?_⟩
  rw [Store.changeFunction, hsame]
  exact hs.functions.replace_self hmem

theorem Consistent.upsertAll_again (hs : s.Consistent) {fs : List Documented}
    (hfs : ∀ f ∈ fs, ∃ row, s.functionAt? fileId f.signature.key = some row ∧ row.Stores f (some row)) :
    ∃ kept s', s.upsertAll fileId fs = .ok (kept, s') ∧
      kept.map (·.signature.key) = fs.map (·.signature.key) ∧ s'.Consistent ∧ s.SameRows s' := by
  induction fs generalizing s with
  | nil => exact ⟨[], s, rfl, rfl, hs, .refl s⟩
  | cons f fs ih =>
      obtain ⟨⟨row, hrow, hstores⟩, hrest⟩ := List.forall_mem_cons.mp hfs
      obtain ⟨s₁, hput, hs₁, hsame⟩ := hs.upsertFunction_again hrow hstores
      rw [← hsame.functionAt?] at hrest
      obtain ⟨kept, s', hall, hkeys, hs', hsame'⟩ := ih hs₁ hrest
      rw [Store.upsertAll, hput]
      dsimp only
      rw [hall]
      exact ⟨_, s', rfl, congrArg (f.signature.key :: ·) hkeys, hs', hsame.trans hsame'⟩

theorem Consistent.syncFunctions_again (hs : s.Consistent) {fs : List Documented}
    (hfs : ∀ f ∈ fs, ∃ row, s.functionAt? fileId f.signature.key = some row ∧ row.Stores f (some row))
    (hall : ∀ key row, s.functionAt? fileId key = some row → key ∈ fs.map (·.signature.key)) :
    ∃ kept s', s.syncFunctions fileId fs = .ok (kept, s') ∧ s'.Consistent ∧ s.SameRows s' := by
  obtain ⟨kept, s', hput, hkeys, hs', hsame⟩ := hs.upsertAll_again hfs
  have hgone : ((s.functionsOfFile fileId).filter fun row => !(kept.map (·.signature.key)).contains row.key) = [] := by
    rw [List.filter_eq_nil_iff]
    intro row hrow
    obtain ⟨old, hold, rfl⟩ := mem_listed.mp hrow
    obtain ⟨hmem, hfile⟩ := List.mem_filter.mp hold
    have hkey := hall old.key old (hs.functionAt?_eq_some.mpr ⟨hmem, of_decide_eq_true hfile, rfl⟩)
    rw [← hkeys] at hkey
    simpa [withPath] using hkey
  refine ⟨kept, s', ?_, hs', hsame⟩
  rw [Store.syncFunctions, hput]
  dsimp only
  rw [hgone]
  rfl

end

/-- A source is stored as it is, with its share of the merged functions and no other ones. -/
structure HoldsSource (s : Store) (projectId : Int) (merged : List Documented) (source : SourceFile) : Prop where
  file : ∃ row, s.file? projectId source.path = some row ∧ row.hash = Digest.ofText source.text
  functions : ∀ f ∈ Documented.inFile source.path merged,
    ∃ row, s.functionIn? projectId source.path f.signature.key = some row ∧ row.Stores f (some row)
  only : ∀ key row, s.functionIn? projectId source.path key = some row →
    key ∈ (Documented.inFile source.path merged).map (·.signature.key)

theorem SameRows.holdsSource {s s' : Store} (h : s.SameRows s') {projectId : Int} {merged : List Documented}
    {source : SourceFile} (hsource : s.HoldsSource projectId merged source) :
    s'.HoldsSource projectId merged source := by
  obtain ⟨hfile, hfunctions, honly⟩ := hsource
  rw [← h.file?] at hfile
  rw [← h.functionIn?] at hfunctions honly
  exact ⟨hfile, hfunctions, honly⟩

section

variable {p : Storing} {projectId : Int} {merged : List Documented}

/-- A source that is stored as it is counts as skipped. -/
theorem Consistent.add_again (hs : p.store.Consistent) {state : SourceState} {source : SourceFile}
    (houtcome : state.outcome = .ok source) (hpath : source.path = state.path)
    (hsource : p.store.HoldsSource projectId merged source) :
    ∃ p', Storing.add projectId merged p state = .ok p' ∧ p'.store.Consistent ∧ p.store.SameRows p'.store ∧
      p'.indexed = p.indexed ∧ p'.skipped = p.skipped + 1 := by
  obtain ⟨row, hrow, hhash⟩ := hsource.file
  have hput : p.store.storeSource projectId source = .ok (row, false, p.store) := by
    rw [Store.storeSource, hrow]
    exact if_pos hhash
  have hin : ∀ key, p.store.functionIn? projectId source.path key = p.store.functionAt? row.id key := by
    intro key
    rw [functionIn?, hrow, Option.bind_some]
  have hfunctions := hsource.functions
  have honly := hsource.only
  simp only [hin] at hfunctions honly
  obtain ⟨kept, s', hsync, hs', hsame⟩ := hs.syncFunctions_again hfunctions honly
  rw [Storing.add, houtcome]
  dsimp only
  rw [hput]
  dsimp only
  rw [← hpath, ← Documented.inFile, hsync]
  exact ⟨_, rfl, hs', hsame, rfl, rfl⟩

theorem Consistent.foldlM_add_again (hs : p.store.Consistent) {states : List SourceState}
    (hpaths : ∀ state ∈ states, ∀ source, state.outcome = .ok source → source.path = state.path)
    (hsources : ∀ source ∈ SourceState.files states, p.store.HoldsSource projectId merged source) :
    ∃ p', states.foldlM (Storing.add projectId merged) p = .ok p' ∧ p'.store.Consistent ∧
      p.store.SameRows p'.store ∧ p'.indexed = p.indexed ∧
      p'.skipped = p.skipped + (SourceState.files states).length := by
  induction states generalizing p with
  | nil => exact ⟨p, rfl, hs, .refl _, rfl, rfl⟩
  | cons state states ih =>
      obtain ⟨hhead, htail⟩ := List.forall_mem_cons.mp hpaths
      rw [List.foldlM_cons]
      cases houtcome : state.outcome with
      | error e =>
          have hadd : Storing.add projectId merged p state = .ok p := by
            rw [Storing.add, houtcome]
          have hfiles : SourceState.files (state :: states) = SourceState.files states :=
            List.filterMap_cons_none (by rw [SourceState.file?, houtcome]; rfl)
          rw [hadd, hfiles]
          exact ih hs htail (hfiles ▸ hsources)
      | ok source =>
          have hfiles : SourceState.files (state :: states) = source :: SourceState.files states :=
            List.filterMap_cons_some (by rw [SourceState.file?, houtcome]; rfl)
          rw [hfiles] at hsources ⊢
          obtain ⟨hsource, hrest⟩ := List.forall_mem_cons.mp hsources
          obtain ⟨p₁, hadd, hs₁, hsame, hindexed, hskipped⟩ :=
            hs.add_again houtcome (hhead source houtcome) hsource
          obtain ⟨p', hfold, hs', hsame', hindexed', hskipped'⟩ :=
            ih hs₁ htail fun later hlater => hsame.holdsSource (hrest later hlater)
          rw [hadd]
          refine ⟨p', hfold, hs', hsame.trans hsame', hindexed'.trans hindexed, ?_⟩
          rw [hskipped', hskipped, List.length_cons]
          omega

end

/-! ## Runs over the same files -/

section

variable {s : Store} {p : Project} {paths : List String} {tree : Tree} {options : IndexOptions}

/-- Nothing is removed where all files of a project are listed. -/
theorem removeStale_of_listed (h : ∀ f ∈ s.files, f.projectId = p.id → f.path ∈ paths) :
    s.removeStale p.id paths = (0, s) := by
  have hstale : ((s.filesOf p.id).filter fun f => !paths.contains f.path) = [] := by
    rw [List.filter_eq_nil_iff]
    intro f hf
    obtain ⟨hmem, hproject⟩ := List.mem_filter.mp (List.mem_mergeSort.mp hf)
    simpa using h f hmem (of_decide_eq_true hproject)
  rw [removeStale, hstale]
  rfl

/-- A run over sources that are stored as they are writes no new row of a file or a function. -/
theorem Consistent.indexSources_again (hs : s.Consistent) (supply : Anchors)
    (hpaths : options.paths tree p.root = .ok paths) {states : List SourceState} {supply' : Anchors}
    (hread : SourceState.readAll tree p.root supply paths = (states, supply'))
    (hsources : ∀ source ∈ SourceState.files states,
      s.HoldsSource p.id (SourceFile.merged supply' (SourceState.files states)) source)
    (hlisted : ∀ f ∈ s.files, f.projectId = p.id → f.path ∈ paths) :
    ∃ report, (s.indexSources supply tree p options).outcome = .ok report ∧
      (s.indexSources supply tree p options).store.files = s.files ∧
      (s.indexSources supply tree p options).store.functions = s.functions ∧
      report.filesIndexed = 0 ∧ report.filesRemoved = 0 ∧
      report.filesSkipped = (SourceState.files states).length := by
  have hbuilt := (SourceState.read_of_eq hread).built
  obtain ⟨done, hdone, -, hsame, hindexed, hskipped⟩ := Consistent.foldlM_add_again (p := { store := s }) hs
    (fun state hstate source houtcome => (hbuilt state hstate source houtcome).1) hsources
  have hstale := removeStale_of_listed (s := done.store) (hsame.files ▸ hlisted)
  rw [indexSources_of_ok hpaths hread hdone, hstale]
  exact ⟨_, rfl, hsame.files, hsame.functions, hindexed, rfl, hskipped.trans (Nat.zero_add _)⟩

end

end Store

section

variable {tree : Tree} {root : String} {paths : List String} {states states' : List SourceState}

/-- Two readings of the same files yield sources with the same texts. -/
theorem SourceState.Read.same_text (h : Read tree root paths states) (h' : Read tree root paths states')
    {source : SourceFile} (hsource : source ∈ files states') :
    source.path ∈ SourceFile.paths (files states) ∧
      ∀ other ∈ files states, other.path = source.path → other.text = source.text := by
  constructor
  · have hmem : (source.path, source.text) ∈ SourceFile.texts (files states) := by
      rw [h.texts, ← h'.texts]
      exact List.mem_map_of_mem (f := fun source : SourceFile => (source.path, source.text)) hsource
    obtain ⟨other, hother, heq⟩ := List.mem_map.mp hmem
    exact List.mem_map.mpr ⟨other, hother, congrArg Prod.fst heq⟩
  · intro other hother hpath
    have htext := (h.text_mem hother).1
    rw [hpath, (h'.text_mem hsource).1] at htext
    exact (Except.ok.inj htext).symm

/-- Two readings of the same files are merged to the same functions, apart from the anchors. -/
theorem SourceState.Read.same_merged (h : Read tree root paths states) (h' : Read tree root paths states')
    (supply supply' : Anchors) {f : Documented} (hf : f ∈ SourceFile.merged supply' (files states')) :
    ∃ e ∈ SourceFile.merged supply (files states), e.unanchored = f.unanchored := by
  have hmem : f.unanchored ∈ (SourceFile.merged supply (files states)).map Documented.unanchored := by
    rw [SourceFile.merged_unanchored supply h.built_files, h.texts, ← h'.texts,
      ← SourceFile.merged_unanchored supply' h'.built_files]
    exact List.mem_map_of_mem hf
  exact List.mem_map.mp hmem

end

namespace Store

section

variable {s s' : Store} {p : Project} {tree : Tree} {root : String} {paths : List String}
  {states states' : List SourceState} {supply : Anchors}

/-- After a run the sources that another reading of the same files yields are stored as they are. -/
theorem Indexed.holdsSource (h : s.Indexed p paths (SourceFile.merged supply (SourceState.files states))
      (SourceState.files states) s') (hread : SourceState.Read tree root paths states)
    (hread' : SourceState.Read tree root paths states') (supply' : Anchors) :
    ∀ source ∈ SourceState.files states',
      s'.HoldsSource p.id (SourceFile.merged supply' (SourceState.files states')) source := by
  intro source hsource
  obtain ⟨hpath, htext⟩ := hread.same_text hread' hsource
  refine ⟨?_, fun f hf => ?_, fun key row hrow => ?_⟩
  · obtain ⟨other, hother, hplace, row, hrow, hstores⟩ := h.file source.path hpath
    exact ⟨row, hrow, htext other hother hplace ▸ hstores.hash⟩
  · obtain ⟨hf, hfile⟩ := Documented.mem_inFile.mp hf
    obtain ⟨e, he, hsame⟩ := hread.same_merged hread' supply supply' hf
    have hkey : e.signature.key = f.signature.key := congrArg (·.signature.key) hsame
    have hplace : e.signature.source.file = f.signature.source.file := congrArg (·.signature.source.file) hsame
    obtain ⟨row, hrow, hstores⟩ := h.holds source.path hpath e (Documented.mem_inFile.mpr ⟨he, hplace.trans hfile⟩)
    exact ⟨row, hkey ▸ hrow, hstores.again hsame.symm⟩
  · obtain ⟨e, he, hfile, rfl⟩ := h.merged_of_functionIn? hpath hrow
    obtain ⟨f, hf, hsame⟩ := hread'.same_merged hread supply' supply he
    have hplace : f.signature.source.file = e.signature.source.file := congrArg (·.signature.source.file) hsame
    exact List.mem_map.mpr ⟨f, Documented.mem_inFile.mpr ⟨hf, hplace.trans hfile⟩, congrArg (·.signature.key) hsame⟩

end

/-! ## Two runs -/

/-- What a project keeps from one run to the next: its own identity, that of a file that is found again, and identity
and anchor of a function that both runs take from one file. -/
structure KeepsIdentities (s s' : Store) (p : Project) (paths : List String) (before later : List Documented) :
    Prop where
  project : ∃ q, s'.project? p.root = some q ∧ q.id = p.id
  files : ∀ path ∈ paths, ∀ file, s.file? p.id path = some file →
    ∃ file', s'.file? p.id path = some file' ∧ file'.id = file.id
  functions : ∀ f ∈ before, ∀ g ∈ later, g.signature.source.file = f.signature.source.file →
    g.signature.key = f.signature.key →
    ∃ row row', s.functionIn? p.id f.signature.source.file f.signature.key = some row ∧
      s'.functionIn? p.id f.signature.source.file f.signature.key = some row' ∧
      row'.id = row.id ∧ row'.anchor = row.anchor ∧ g.signature.anchor = row.anchor

theorem mem_keptOf {s : Store} {projectId : Int} {merged : List Documented} {sources : List SourceFile}
    {g : Documented} (h : g ∈ s.keptOf projectId merged sources) :
    ∃ f, f ∈ Documented.inFile f.signature.source.file merged ∧
      f.signature.source.file ∈ SourceFile.paths sources ∧
      g = f.keeping (s.functionIn? projectId f.signature.source.file f.signature.key) := by
  obtain ⟨source, hsource, hg⟩ := List.mem_flatMap.mp h
  obtain ⟨f, hf, rfl⟩ := List.mem_map.mp hg
  obtain ⟨hmem, hfile⟩ := Documented.mem_inFile.mp hf
  refine ⟨f, Documented.mem_inFile.mpr ⟨hmem, rfl⟩, ?_, ?_⟩
  · exact hfile ▸ List.mem_map_of_mem hsource
  · rw [hfile]

theorem Indexed.keepsIdentities {s s₁ s' : Store} {p q : Project} (hid : q.id = p.id)
    {paths paths' : List String} {merged merged' : List Documented} {sources sources' : List SourceFile}
    (h : s.Indexed p paths merged sources s₁) (h' : s₁.Indexed q paths' merged' sources' s') :
    s₁.KeepsIdentities s' q paths' (s.keptOf p.id merged sources) (s₁.keptOf q.id merged' sources') where
  project := h'.project
  files path hpath file hfile := by
    by_cases hsource : path ∈ SourceFile.paths sources'
    · obtain ⟨source, -, -, row, hrow, hstores⟩ := h'.file path hsource
      exact ⟨row, hrow, hstores.identity file hfile⟩
    · exact ⟨file, (h'.otherFiles q.id path (.inr ⟨hpath, hsource⟩)).trans hfile, rfl⟩
  functions := by
    intro f hf g hg hfile hkey
    obtain ⟨e, he, hpath, rfl⟩ := mem_keptOf hf
    obtain ⟨e', he', hpath', rfl⟩ := mem_keptOf hg
    change e'.signature.source.file = e.signature.source.file at hfile
    change e'.signature.key = e.signature.key at hkey
    obtain ⟨row, hrow, -⟩ := h.holds _ hpath e he
    obtain ⟨row', hrow', hstores⟩ := h'.holds _ hpath' e' he'
    rw [hfile, hkey] at hrow' hstores ⊢
    rw [hid, hrow] at hstores ⊢
    have hanchor := congrArg FunctionRow.anchor hstores.content
    exact ⟨row, row', hrow, hid ▸ hrow', hstores.identity row rfl, hanchor, rfl⟩

/-- A run that went through has found paths. -/
theorem Consistent.paths_of_outcome {s : Store} (hs : s.Consistent) {v : Visit} {report : IndexReport}
    (h : (s.visit v).outcome = .ok report) : ∃ paths, v.options.paths v.tree (Path.fromTop v.root) = .ok paths := by
  cases hpaths : v.options.paths v.tree (Path.fromTop v.root) with
  | error e =>
      have houtcome := (hs.indexProject_of_error v.supply hpaths).1
      cases houtcome.symm.trans h
  | ok paths => exact ⟨paths, rfl⟩

theorem indexProject_of_project {s : Store} {root : String} {p : Project}
    (hp : s.project? (Path.fromTop root) = some p) (supply : Anchors) (tree : Tree) (options : IndexOptions) :
    s.indexProject supply tree root options = s.indexSources supply tree p options := by
  rw [indexProject, getOrCreateProject, hp]

end Store

/-- A visit to what another one has found, with the same patterns. Only the batches and the supply may differ. -/
structure Visit.SameSources (v w : Visit) : Prop where
  tree : w.tree = v.tree
  includes : w.options.includes = v.options.includes
  ignores : w.options.ignores = v.options.ignores

theorem Visit.SameSources.paths_eq {v w : Visit} (h : v.SameSources w) (root : String) :
    w.options.paths w.tree root = v.options.paths v.tree root := by
  rw [IndexOptions.paths, IndexOptions.paths, h.tree, h.includes, h.ignores]

namespace Store

/-- After a run the files of its project are at paths that it has found. -/
theorem Indexed.path_mem {s s' : Store} {p : Project} {paths : List String} {merged : List Documented}
    {sources : List SourceFile} (h : s.Indexed p paths merged sources s') {f : FileRow} (hf : f ∈ s'.files)
    (hproject : f.projectId = p.id) : f.path ∈ paths := by
  by_contra hpath
  have hfind := h.consistent.file?_eq_some.mpr ⟨hf, hproject, rfl⟩
  rw [h.removed f.path hpath] at hfind
  cases hfind

section

variable {s₀ s : Store} {p q : Project} {tree : Tree} {paths : List String} {states : List SourceState}
  {supply : Anchors} {second : Visit}

theorem Indexed.visit_kept {merged : List Documented} {sources : List SourceFile}
    (h : s₀.Indexed p paths merged sources s) (hq : s.project? (Path.fromTop second.root) = some q) (hid : q.id = p.id)
    {report : IndexReport} (hrun : (s.visit second).outcome = .ok report) :
    ∃ paths', second.options.paths second.tree (Path.fromTop second.root) = .ok paths' ∧
      s.KeepsIdentities (s.visit second).store q paths' (s₀.keptOf p.id merged sources) report.result.functions := by
  have hs := h.consistent
  obtain ⟨paths', hpaths'⟩ := hs.paths_of_outcome hrun
  obtain ⟨hmem, hroot⟩ := hs.project?_eq_some.mp hq
  refine ⟨paths', hpaths', ?_⟩
  rw [← hroot] at hpaths'
  obtain ⟨states', supply', report', -, houtcome, -, hkept, hindexed⟩ := hs.indexSources hmem second.supply hpaths'
  have hvisit : s.visit second = s.indexSources second.supply second.tree q second.options :=
    indexProject_of_project hq _ _ _
  rw [← hvisit] at houtcome hindexed
  obtain rfl : report' = report := Except.ok.inj (houtcome.symm.trans hrun)
  rw [hkept]
  exact h.keepsIdentities hid hindexed

theorem Indexed.visit_again (h : s₀.Indexed p paths (SourceFile.merged supply (SourceState.files states))
      (SourceState.files states) s) (hread : SourceState.Read second.tree q.root paths states)
    (hq : s.project? (Path.fromTop second.root) = some q) (hid : q.id = p.id)
    (hpaths : second.options.paths second.tree q.root = .ok paths) :
    ∃ report, (s.visit second).outcome = .ok report ∧ (s.visit second).store.files = s.files ∧
      (s.visit second).store.functions = s.functions ∧ report.filesIndexed = 0 ∧ report.filesRemoved = 0 ∧
      report.filesSkipped = (second.tree.textsAt q.root paths).length := by
  obtain ⟨states', supply', hstates⟩ := SourceState.exists_readAll second.tree q.root second.supply paths
  have hread' := SourceState.read_of_eq hstates
  have hvisit : s.visit second = s.indexSources second.supply second.tree q second.options :=
    indexProject_of_project hq _ _ _
  have hholds := h.holdsSource hread hread' supply'
  rw [← hid] at hholds
  obtain ⟨report, houtcome, hfiles, hfunctions, hnew, hremoved, hskipped⟩ :=
    h.consistent.indexSources_again second.supply hpaths hstates hholds
      fun f hf hproject => h.path_mem hf (hproject.trans hid)
  rw [hvisit]
  refine ⟨report, houtcome, hfiles, hfunctions, hnew, hremoved, hskipped.trans ?_⟩
  rw [← hread'.texts, SourceFile.texts, List.length_map]

end

/-- Identities survive. Let two runs over one root follow each other after any calls and runs. A file that is found
again keeps its identity, a function that both runs take from one file keeps its identity and its anchor, and the
second run reports it with this anchor. If the second run is over the same sources with the same patterns, it goes
through and changes no file and no function, and all files that can be read count as skipped. -/
theorem identities_of_visits (steps : List StoreStep) (first second : Visit)
    (hroot : Path.fromTop second.root = Path.fromTop first.root) {report : IndexReport}
    (hfirst : ((afterSteps steps).visit first).outcome = .ok report) :
    let s := ((afterSteps steps).visit first).store
    let s' := (s.visit second).store
    ∃ p, s.project? (Path.fromTop first.root) = some p ∧
      (∀ report', (s.visit second).outcome = .ok report' →
        ∃ paths, second.options.paths second.tree p.root = .ok paths ∧
          s.KeepsIdentities s' p paths report.result.functions report'.result.functions) ∧
      (first.SameSources second → ∃ report' paths, (s.visit second).outcome = .ok report' ∧
        second.options.paths second.tree p.root = .ok paths ∧
        s'.files = s.files ∧ s'.functions = s.functions ∧ report'.filesIndexed = 0 ∧ report'.filesRemoved = 0 ∧
        report'.filesSkipped = (second.tree.textsAt p.root paths).length) := by
  intro s s'
  have hs := consistent_afterSteps steps
  obtain ⟨paths, hpaths⟩ := hs.paths_of_outcome hfirst
  obtain ⟨p, states, supply', report₁, hplace, hstates, houtcome, -, hkept, hindexed⟩ :=
    hs.indexProject_of_ok first.supply hpaths
  obtain rfl : report₁ = report := Except.ok.inj (houtcome.symm.trans hfirst)
  obtain ⟨q, hq, hid⟩ := hindexed.project
  obtain ⟨-, hqroot⟩ := hindexed.consistent.project?_eq_some.mp hq
  rw [hplace] at hq hqroot
  refine ⟨q, hq, fun report' hsecond => ?_, fun hsame => ?_⟩
  · rw [hkept, hqroot, ← hroot]
    exact hindexed.visit_kept (hroot ▸ hq) hid hsecond
  · have hpaths' : second.options.paths second.tree q.root = .ok paths := by
      rw [hsame.paths_eq, hqroot, hpaths]
    have hread := SourceState.read_of_eq hstates
    rw [← hsame.tree, ← hqroot] at hread
    obtain ⟨report', houtcome', hrest⟩ := hindexed.visit_again hread (hroot ▸ hq) hid hpaths'
    exact ⟨report', paths, houtcome', hpaths', hrest⟩

/-- Behind a project at another root a function is put before another one, or the first state is visited again in
smaller batches. -/
theorem identities_of_edited_source :
    let steps : List StoreStep := [.call (.createProject "/a" "" "")]
    let first : Visit := .ofPair "real f(real x);" "int n();" {}
    let edited : Visit := .ofPair "int g(); real f(real x);" "int n();" {}
    let again : Visit := .ofPair "real f(real x);" "int n();" { batchSize := 1 }
    let s := ((afterSteps steps).visit first).store
    ∃ report report' p, ((afterSteps steps).visit first).outcome = .ok report ∧
      (s.visit edited).outcome = .ok report' ∧ s.project? (Path.fromTop "/") = some p ∧
      s.KeepsIdentities (s.visit edited).store p ["a.stan", "b.stan"] report.result.functions
        report'.result.functions ∧
      (s.visit again).store.files = s.files ∧ (s.visit again).store.functions = s.functions := by
  intro steps first edited again s
  have htop : Path.fromTop "/" = "/" := by decide +kernel
  have hfound : first.options.paths first.tree (Path.fromTop first.root) = .ok ["a.stan", "b.stan"] :=
    htop.symm ▸ (IndexOptions.reads_ofPair _ _).found
  have hfound' : edited.options.paths edited.tree (Path.fromTop edited.root) = .ok ["a.stan", "b.stan"] :=
    htop.symm ▸ (IndexOptions.reads_ofPair _ _).found
  obtain ⟨_, _, _, report, -, -, hfirst, -, -, hindexed⟩ :=
    (consistent_afterSteps steps).indexProject_of_ok first.supply hfound
  obtain ⟨_, _, _, report', -, -, hsecond, -⟩ := hindexed.consistent.indexProject_of_ok edited.supply hfound'
  obtain ⟨p, hp, hkept, -⟩ := identities_of_visits steps first edited rfl hfirst
  obtain ⟨_, -, -, hagain⟩ := identities_of_visits steps first again rfl hfirst
  obtain ⟨_, _, -, -, hfiles, hfunctions, -⟩ := hagain ⟨rfl, rfl, rfl⟩
  obtain ⟨paths, hpaths, hkeeps⟩ := hkept report' hsecond
  have hroot : p.root = Path.fromTop edited.root := (hindexed.consistent.project?_eq_some.mp hp).2
  rw [hroot, hfound'] at hpaths
  obtain rfl := Except.ok.inj hpaths
  exact ⟨report, report', p, hfirst, hsecond, hp, hkeeps, hfiles, hfunctions⟩

end Store

end OverloadDocs
