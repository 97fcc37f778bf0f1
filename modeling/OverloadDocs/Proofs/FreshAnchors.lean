import OverloadDocs.Proofs.FailedRun
import OverloadDocs.Proofs.Incremental

/-!
Fresh anchors. A function that has a row keeps its anchor, and only a row that is new takes the one that the
supply gave. So a run can be followed without the anchors of new rows: what it does to the other columns is what
a run does that is given no anchors at all.
-/

namespace OverloadDocs

/-! ## Rows without fresh anchors -/

/-- A row without its anchor, if its identity was given after the last one of old. -/
def FunctionRow.forgetting (last : Int) (row : FunctionRow) : FunctionRow :=
  if row.id ≤ last then row else { row with anchor := "" }

/-- The rows without the anchors of functions whose identities were given after the last one of old. -/
def Store.forgetting (last : Int) (s : Store) : Store :=
  { s with functions := s.functions.map (·.forgetting last) }

theorem FunctionRow.forgetting_eq (last : Int) (row : FunctionRow) :
    ∃ anchor, row.forgetting last = { row with anchor := anchor } := by
  rw [forgetting]
  split
  · exact ⟨row.anchor, rfl⟩
  · exact ⟨"", rfl⟩

/-- All that is read of a row but its anchor is read of it without a fresh one. -/
theorem FunctionRow.read_forgetting {α : Type} {column : FunctionRow → α}
    (hcolumn : ∀ row anchor, column { row with anchor := anchor } = column row) (last : Int) (row : FunctionRow) :
    column (row.forgetting last) = column row := by
  obtain ⟨anchor, hrow⟩ := row.forgetting_eq last
  rw [hrow, hcolumn]

theorem FunctionRow.forgetting_of_new {last : Int} (row : FunctionRow) (h : last < row.id) :
    row.forgetting last = { row with anchor := "" } :=
  if_neg (Int.not_le.mpr h)

namespace Store

variable {s s' : Store} {last : Int}

theorem map_filter_forgetting {keep : FunctionRow → Bool}
    (hkeep : ∀ row anchor, keep { row with anchor := anchor } = keep row) (rows : List FunctionRow) :
    (rows.map (·.forgetting last)).filter keep = (rows.filter keep).map (·.forgetting last) := by
  rw [List.filter_map]
  exact congrArg _ (List.filter_congr fun row _ => FunctionRow.read_forgetting hkeep last row)

theorem functionAt?_forgetting (s : Store) (last fileId : Int) (key : String) :
    (s.forgetting last).functionAt? fileId key = (s.functionAt? fileId key).map (·.forgetting last) := by
  rw [functionAt?_eq, functionAt?_eq, forgetting, List.find?_map]
  have hplace : ∀ row : FunctionRow, (row.forgetting last).place = row.place :=
    FunctionRow.read_forgetting (fun _ _ => rfl) last
  simp only [Function.comp_def, hplace]

theorem withPath_forgetting (s : Store) (row : FunctionRow) :
    (s.forgetting last).withPath (row.forgetting last) = (s.withPath row).forgetting last := by
  have hrow : ∀ row : FunctionRow, (s.forgetting last).withPath row = s.withPath row := fun _ => rfl
  rw [hrow, FunctionRow.forgetting, FunctionRow.forgetting]
  have hid : (s.withPath row).id = row.id := rfl
  rw [hid]
  split <;> rfl

theorem listed_forgetting (s : Store) (rows : List FunctionRow) :
    (s.forgetting last).listed (rows.map (·.forgetting last)) = (s.listed rows).map (·.forgetting last) := by
  have hbefore : ∀ a ∈ rows, ∀ b ∈ rows,
      declaredBefore a b = declaredBefore (a.forgetting last) (b.forgetting last) := by
    intro a _ b _
    obtain ⟨anchor, ha⟩ := a.forgetting_eq last
    obtain ⟨anchor', hb⟩ := b.forgetting_eq last
    rw [ha, hb]
    rfl
  rw [listed, listed, ← List.map_mergeSort hbefore, List.map_map, List.map_map]
  exact List.map_congr_left fun row _ => s.withPath_forgetting row

theorem functionsOfFile_forgetting (s : Store) (fileId : Int) :
    (s.forgetting last).functionsOfFile fileId = (s.functionsOfFile fileId).map (·.forgetting last) := by
  rw [functionsOfFile, functionsOfFile, ← listed_forgetting, forgetting, map_filter_forgetting fun _ _ => rfl]

theorem functionsOf_forgetting (s : Store) (projectId : Int) :
    (s.forgetting last).functionsOf projectId = (s.functionsOf projectId).map (·.forgetting last) := by
  have hin : (s.forgetting last).isIn projectId = s.isIn projectId := rfl
  rw [functionsOf, functionsOf, ← listed_forgetting, hin, forgetting, map_filter_forgetting fun _ _ => rfl]

theorem withoutFunctions_forgetting (s : Store) (ids : List Int) :
    (s.forgetting last).withoutFunctions ids = (s.withoutFunctions ids).forgetting last := by
  rw [withoutFunctions, withoutFunctions, forgetting, forgetting, map_filter_forgetting fun _ _ => rfl]

theorem withoutFiles_forgetting (s : Store) (ids : List Int) :
    (s.forgetting last).withoutFiles ids = (s.withoutFiles ids).forgetting last := by
  rw [withoutFiles, withoutFiles, forgetting, forgetting, map_filter_forgetting fun _ _ => rfl]

theorem upsertFile_forgetting (s : Store) (file : FileRow) :
    (s.forgetting last).upsertFile file = (s.upsertFile file).map fun put => (put.1, put.2.forgetting last) := by
  have hproject : (s.forgetting last).projectById? = s.projectById? := rfl
  have hfile : (s.forgetting last).file? = s.file? := rfl
  rw [upsertFile, upsertFile, hproject, hfile]
  split
  · rfl
  · split <;> rfl

/-! ## Storing functions -/

theorem addFunction_forgetting (hlast : last ≤ s.lastFunction) (row : FunctionRow) :
    (s.forgetting last).addFunction { row with anchor := "" } = (s.addFunction row).forgetting last := by
  have hnew : FunctionRow.forgetting last { row with id := s.lastFunction + 1, filePath := "" } =
      { row with id := s.lastFunction + 1, anchor := "", filePath := "" } :=
    FunctionRow.forgetting_of_new _ (Int.lt_add_one_of_le hlast)
  simp only [addFunction, forgetting, List.map_append, List.map_singleton, hnew]

theorem keep_forgetting (last : Int) (row old : FunctionRow) :
    FunctionRow.forgetting last { row with id := old.id, anchor := old.anchor, filePath := "" } =
      { row with id := old.id, anchor := (old.forgetting last).anchor, filePath := "" } := by
  rw [FunctionRow.forgetting, FunctionRow.forgetting]
  by_cases h : old.id ≤ last
  · rw [if_pos h, if_pos h]
  · rw [if_neg h, if_neg h]

theorem changeFunction_forgetting (s : Store) (row old : FunctionRow) :
    (s.forgetting last).changeFunction { row with anchor := "" } (old.forgetting last) =
      (s.changeFunction row old).forgetting last := by
  have hid : ∀ row : FunctionRow, (row.forgetting last).id = row.id :=
    FunctionRow.read_forgetting (fun _ _ => rfl) last
  simp only [changeFunction, forgetting, List.map_map]
  congr 1
  refine List.map_congr_left fun f _ => ?_
  simp only [Function.comp_apply, hid]
  split
  · exact (keep_forgetting last row old).symm
  · rfl

/-- A function without an anchor is stored over rows without fresh anchors as it is over all. -/
theorem HasFile.upsertFunction_forgetting {row kept : FunctionRow} (h : s.HasFile row.fileId)
    (hlast : last ≤ s.lastFunction) (hput : s.upsertFunction row = .ok (kept, s')) :
    (s.forgetting last).upsertFunction { row with anchor := "" } = .ok (kept.forgetting last, s'.forgetting last) ∧
      last ≤ s'.lastFunction := by
  have hfile : (s.forgetting last).HasFile { row with anchor := "" }.fileId := h
  have hat := s.functionAt?_forgetting last row.fileId row.key
  have hnew : last < s.lastFunction + 1 := Int.lt_add_one_of_le hlast
  cases hold : s.functionAt? row.fileId row.key with
  | none =>
      rw [hold] at hat
      rw [h.upsertFunction_of_none hold] at hput
      obtain ⟨rfl, rfl⟩ := Prod.mk.inj (Except.ok.inj hput)
      rw [hfile.upsertFunction_of_none hat, addFunction_forgetting hlast,
        FunctionRow.forgetting_of_new { row with id := s.lastFunction + 1, filePath := "" } hnew]
      exact ⟨rfl, Int.le_of_lt hnew⟩
  | some old =>
      rw [hold] at hat
      rw [h.upsertFunction_of_some hold] at hput
      obtain ⟨rfl, rfl⟩ := Prod.mk.inj (Except.ok.inj hput)
      have hid : (old.forgetting last).id = old.id := FunctionRow.read_forgetting (fun _ _ => rfl) last old
      rw [hfile.upsertFunction_of_some hat, changeFunction_forgetting, keep_forgetting, hid]
      exact ⟨rfl, Int.le_of_lt hnew⟩

theorem HasFile.upsertAll_forgetting {fileId : Int} (h : s.HasFile fileId) (hlast : last ≤ s.lastFunction)
    {fs kept : List Documented} (hput : s.upsertAll fileId fs = .ok (kept, s')) :
    ∃ kept', (s.forgetting last).upsertAll fileId (fs.map Documented.unanchored) = .ok (kept', s'.forgetting last) ∧
      kept'.map (·.signature.key) = kept.map (·.signature.key) ∧ last ≤ s'.lastFunction := by
  induction fs generalizing s kept with
  | nil =>
      obtain ⟨rfl, rfl⟩ := Prod.mk.inj (Except.ok.inj hput)
      exact ⟨[], rfl, rfl, hlast⟩
  | cons f fs ih =>
      have hparent : s.HasFile (FunctionRow.ofDocumented f fileId).fileId := h
      obtain ⟨row, s₁, hone, -, hfiles⟩ := hparent.upsertFunction
      obtain ⟨hone', hlast₁⟩ := hparent.upsertFunction_forgetting hlast hone
      have hkept : s₁.HasFile fileId := by rwa [HasFile, hfiles]
      rw [Store.upsertAll, hone] at hput
      dsimp only at hput
      cases hrest : s₁.upsertAll fileId fs with
      | error e =>
          rw [hrest] at hput
          cases hput
      | ok put =>
          rw [hrest] at hput
          obtain ⟨rfl, rfl⟩ := Prod.mk.inj (Except.ok.inj hput)
          obtain ⟨kept', hrest', hkeys, hlast'⟩ := ih hkept hlast₁ hrest
          have hrow : FunctionRow.ofDocumented f.unanchored fileId =
              { FunctionRow.ofDocumented f fileId with anchor := "" } := rfl
          rw [List.map_cons, Store.upsertAll, hrow, hone']
          dsimp only
          rw [hrest']
          exact ⟨_, rfl, congrArg (f.signature.key :: ·) hkeys, hlast'⟩

theorem HasFile.syncFunctions_forgetting {fileId : Int} (h : s.HasFile fileId) (hlast : last ≤ s.lastFunction)
    {fs kept : List Documented} (hput : s.syncFunctions fileId fs = .ok (kept, s')) :
    ∃ kept', (s.forgetting last).syncFunctions fileId (fs.map Documented.unanchored) =
      .ok (kept', s'.forgetting last) ∧ last ≤ s'.lastFunction := by
  obtain ⟨kept₁, s₁, hall, -⟩ := h.upsertAll fs
  obtain ⟨kept', hall', hkeys, hlast'⟩ := h.upsertAll_forgetting hlast hall
  rw [Store.syncFunctions, hall] at hput
  dsimp only at hput
  rw [foldl_deleteFunction] at hput
  obtain ⟨rfl, rfl⟩ := Prod.mk.inj (Except.ok.inj hput)
  have hids : ∀ rows : List FunctionRow, (rows.map (·.forgetting last)).map (·.id) = rows.map (·.id) := by
    intro rows
    rw [List.map_map]
    exact List.map_congr_left fun row _ => FunctionRow.read_forgetting (fun _ _ => rfl) last row
  refine ⟨kept', ?_, hlast'⟩
  rw [Store.syncFunctions, hall']
  dsimp only
  rw [foldl_deleteFunction, functionsOfFile_forgetting, map_filter_forgetting fun _ _ => rfl, hids, hkeys,
    withoutFunctions_forgetting]

end Store

/-! ## Storing sources -/

/-- A source as it is built when no anchor has been given yet. -/
def SourceFile.rebuilt (source : SourceFile) : SourceFile :=
  { source with build := (FileBuild.ofSource {} source.path source.text).1 }

/-- A state whose source is built when no anchor has been given yet. -/
def SourceState.rebuilt (state : SourceState) : SourceState :=
  { state with outcome := state.outcome.map SourceFile.rebuilt }

/-- The states of the sources at paths, each built when no anchor has been given yet. -/
def SourceState.statesAt (tree : Tree) (root : String) (paths : List String) : List SourceState :=
  paths.map fun path => ⟨path, (tree.readText (Path.join [root, path])).map fun text =>
    ⟨path, text, (FileBuild.ofSource {} path text).1⟩⟩

/-- What is read depends on the supply in the builds only. -/
theorem SourceState.map_rebuilt_readAll (tree : Tree) (root : String) (supply : Anchors) (paths : List String) :
    (readAll tree root supply paths).1.map rebuilt = statesAt tree root paths := by
  induction paths generalizing supply with
  | nil => rfl
  | cons path paths ih =>
      rw [readAll, statesAt, List.map_cons, ← statesAt]
      cases tree.readText (Path.join [root, path]) with
      | error f => exact congrArg (⟨path, .error f⟩ :: ·) (ih supply)
      | ok text => exact congrArg (_ :: ·) (ih (FileBuild.ofSource supply path text).2)

theorem SourceState.failures_rebuilt (states : List SourceState) :
    (states.map rebuilt).filterMap failure? = states.filterMap failure? := by
  rw [List.filterMap_map]
  refine List.filterMap_congr fun state _ => ?_
  rw [Function.comp_apply, failure?, failure?, rebuilt]
  cases state.outcome <;> rfl

namespace Store

variable {s : Store} {last projectId : Int}

theorem storeSource_rebuilt (s : Store) (projectId : Int) {source : SourceFile} (h : source.Built) :
    s.storeSource projectId source.rebuilt = s.storeSource projectId source := by
  have hrebuilt : source.rebuilt.Built := ⟨{}, rfl⟩
  rw [storeSource, storeSource, hrebuilt.firstError?_eq, h.firstError?_eq]
  rfl

theorem storeSource_forgetting (s : Store) (projectId : Int) (source : SourceFile) :
    (s.forgetting last).storeSource projectId source =
      (s.storeSource projectId source).map fun put => (put.1, put.2.1, put.2.2.forgetting last) := by
  have hfile : (s.forgetting last).file? = s.file? := rfl
  have hmap : ∀ put : Except StoreError (FileRow × Store),
      (put.map fun put => (put.1, put.2.forgetting last)).map (fun put => (put.1, true, put.2)) =
        (put.map fun put => (put.1, true, put.2)).map fun put => (put.1, put.2.1, put.2.2.forgetting last) := by
    intro put
    cases put <;> rfl
  simp only [storeSource, hfile, upsertFile_forgetting, hmap]
  cases s.file? projectId source.path with
  | none => rfl
  | some old =>
      dsimp only
      split <;> rfl

theorem lastFunction_upsertFile {file row : FileRow} {s' : Store} (h : s.upsertFile file = .ok (row, s')) :
    s'.lastFunction = s.lastFunction := by
  rw [upsertFile] at h
  split at h
  · cases h
  · split at h
    · obtain ⟨-, rfl⟩ := Prod.mk.inj (Except.ok.inj h)
      rfl
    · obtain ⟨-, rfl⟩ := Prod.mk.inj (Except.ok.inj h)
      rfl

/-- A source gives an identity to a file, and none to a function. -/
theorem lastFunction_storeSource {source : SourceFile} {row : FileRow} {changed : Bool} {s' : Store}
    (h : s.storeSource projectId source = .ok (row, changed, s')) : s'.lastFunction = s.lastFunction := by
  have hmap : ∀ {put : Except StoreError (FileRow × Store)},
      (put.map fun put => (put.1, true, put.2)) = .ok (row, changed, s') → put = .ok (row, s') := by
    intro put hput
    cases put with
    | error e => cases hput
    | ok put =>
        obtain ⟨rfl, hchanged⟩ := Prod.mk.inj (Except.ok.inj hput)
        obtain ⟨-, rfl⟩ := Prod.mk.inj hchanged
        rfl
  rw [storeSource] at h
  split at h
  · split at h
    · obtain ⟨-, hkept⟩ := Prod.mk.inj (Except.ok.inj h)
      obtain ⟨-, rfl⟩ := Prod.mk.inj hkept
      rfl
    · exact lastFunction_upsertFile (hmap h)
  · exact lastFunction_upsertFile (hmap h)

/-- Storing over rows without fresh anchors, with as many files counted. -/
structure Storing.Forgets (last : Int) (p q : Storing) : Prop where
  store : q.store = p.store.forgetting last
  indexed : q.indexed = p.indexed
  skipped : q.skipped = p.skipped
  fresh : last ≤ p.store.lastFunction

section

variable {p p' q : Storing} {merged : List Documented}

/-- One more source is stored over rows without fresh anchors as it is over all. -/
theorem Storing.Forgets.add (h : Forgets last p q) (hproject : p.store.HasProject projectId) {state : SourceState}
    (hbuilt : ∀ source, state.outcome = .ok source → source.Built)
    (hadd : Storing.add projectId merged p state = .ok p') :
    ∃ q', Storing.add projectId (merged.map Documented.unanchored) q state.rebuilt = .ok q' ∧ Forgets last p' q' := by
  rw [Storing.add] at hadd ⊢
  rw [SourceState.rebuilt]
  cases houtcome : state.outcome with
  | error f =>
      rw [houtcome] at hadd
      obtain rfl := Except.ok.inj hadd
      exact ⟨q, rfl, h⟩
  | ok source =>
      obtain ⟨row, changed, s₁, hput, -, hfile⟩ := hproject.storeSource source
      obtain ⟨kept, s', hsync, -⟩ := hfile.syncFunctions (merged.filter (·.signature.source.file = state.path))
      have hlast : last ≤ s₁.lastFunction := lastFunction_storeSource hput ▸ h.fresh
      obtain ⟨kept', hsync', hlast'⟩ := hfile.syncFunctions_forgetting hlast hsync
      have hput' : q.store.storeSource projectId source.rebuilt = .ok (row, changed, s₁.forgetting last) := by
        rw [storeSource_rebuilt _ _ (hbuilt source houtcome), h.store, storeSource_forgetting, hput]
        rfl
      have hshare : (merged.map Documented.unanchored).filter (·.signature.source.file = state.path) =
          (merged.filter (·.signature.source.file = state.path)).map Documented.unanchored :=
        List.filter_map
      rw [houtcome] at hadd
      dsimp only at hadd
      rw [hput] at hadd
      dsimp only at hadd
      rw [hsync] at hadd
      obtain rfl := Except.ok.inj hadd
      dsimp only [Except.map]
      rw [hput']
      dsimp only
      rw [hshare, hsync', h.indexed, h.skipped]
      exact ⟨_, rfl, rfl, rfl, rfl, hlast'⟩

theorem Storing.Forgets.foldlM_add (h : Forgets last p q) (hproject : p.store.HasProject projectId)
    {states : List SourceState}
    (hbuilt : ∀ state ∈ states, ∀ source, state.outcome = .ok source → source.Built)
    (hadd : states.foldlM (Storing.add projectId merged) p = .ok p') :
    ∃ q', (states.map SourceState.rebuilt).foldlM
        (Storing.add projectId (merged.map Documented.unanchored)) q = .ok q' ∧ Forgets last p' q' := by
  induction states generalizing p q with
  | nil =>
      obtain rfl := Except.ok.inj hadd
      exact ⟨q, rfl, h⟩
  | cons state states ih =>
      obtain ⟨hhead, htail⟩ := List.forall_mem_cons.mp hbuilt
      obtain ⟨p₁, hone, hprojects⟩ := hproject.add merged state
      have hkept : p₁.store.HasProject projectId := by rwa [HasProject, hprojects]
      obtain ⟨q₁, hone', h₁⟩ := h.add hproject hhead hone
      rw [List.foldlM_cons, hone] at hadd
      rw [List.map_cons, List.foldlM_cons, hone']
      exact ih h₁ hkept htail hadd

end

/-! ## Runs -/

theorem removeStale_forgetting (s : Store) (last projectId : Int) (paths : List String) :
    (s.forgetting last).removeStale projectId paths =
      ((s.removeStale projectId paths).1, (s.removeStale projectId paths).2.forgetting last) := by
  refine Prod.ext rfl ?_
  rw [removeStale_snd, removeStale_snd, withoutFiles_forgetting]
  rfl

theorem updateCounts_forgetting (s : Store) (last : Int) (p : Project) :
    (s.forgetting last).updateCounts p = (s.updateCounts p).forgetting last := by
  rw [updateCounts, functionsOf_forgetting, List.length_map]
  rfl

end Store

/-- The numbers of a report: the files that were indexed, skipped, failed and removed. -/
def IndexReport.counts (report : IndexReport) : Nat × Nat × Nat × Nat :=
  (report.filesIndexed, report.filesSkipped, report.filesFailed, report.filesRemoved)

namespace Store

/-- A run counts and stores, but for fresh anchors, what storing the functions without any anchors comes to. Of the
options only the patterns matter to that, and the supply does not. -/
theorem HasProject.indexSources_forgetting {s : Store} {p : Project} (h : s.HasProject p.id) {last : Int}
    (hlast : last ≤ s.lastFunction) (supply : Anchors) {tree : Tree} {options : IndexOptions} {paths : List String}
    (hpaths : options.paths tree p.root = .ok paths) :
    ∃ q report, (SourceState.statesAt tree p.root paths).foldlM
        (Storing.add p.id (declaredBy (tree.textsAt p.root paths))) { store := s.forgetting last } = .ok q ∧
      (s.indexSources supply tree p options).outcome = .ok report ∧
      report.counts = (q.indexed, q.skipped,
        ((SourceState.statesAt tree p.root paths).filterMap SourceState.failure?).length,
        (q.store.removeStale p.id paths).1) ∧
      (s.indexSources supply tree p options).store.forgetting last =
        (q.store.removeStale p.id paths).2.updateCounts p := by
  obtain ⟨states, supply', hstates⟩ := SourceState.exists_readAll tree p.root supply paths
  have hread := SourceState.read_of_eq hstates
  have hrebuilt := SourceState.map_rebuilt_readAll tree p.root supply paths
  rw [hstates] at hrebuilt
  obtain ⟨done, hdone, -⟩ := HasProject.foldlM_add (p := { store := s }) h
    (SourceFile.merged supply' (SourceState.files states)) states
  have hstart : Storing.Forgets last { store := s } { store := s.forgetting last } := ⟨rfl, rfl, rfl, hlast⟩
  obtain ⟨q, hq, hforgets⟩ := hstart.foldlM_add h
    (fun state hstate source houtcome => (hread.built state hstate source houtcome).2) hdone
  rw [hrebuilt, SourceFile.merged_unanchored supply' hread.built_files, hread.texts] at hq
  rw [indexSources_of_ok hpaths hstates hdone]
  refine ⟨q, _, hq, rfl, ?_, ?_⟩
  · rw [← hrebuilt, SourceState.failures_rebuilt, hforgets.indexed, hforgets.skipped, hforgets.store,
      removeStale_forgetting]
    rfl
  · rw [hforgets.store, removeStale_forgetting]
    exact (updateCounts_forgetting _ last p).symm

end Store

end OverloadDocs
