import OverloadDocs.Proofs.Discovered
import OverloadDocs.Proofs.Indexing

/-!
What a failed run leaves. Once the project of a root has a row, nothing of what a run stores can be refused,
whatever else the rows hold: a file needs its project, a function its file, and neither is ever taken away in
between. So a run whose context stays live fails only before it has stored anything. What it may have done by then
is to add the row of a new project. A run that is cancelled is not among these: it may break off between two batches
or among the removals, with what it has stored by then.
-/

namespace OverloadDocs

namespace Store

/-! ## Storing is not refused -/

theorem HasProject.upsertFile {s : Store} {file : FileRow} (h : s.HasProject file.projectId) :
    ∃ row s', s.upsertFile file = .ok (row, s') ∧ s'.projects = s.projects ∧ s'.HasFile row.id := by
  cases hold : s.file? file.projectId file.path with
  | none => exact ⟨_, _, h.upsertFile_of_none hold, rfl, _, List.mem_append_right _ List.mem_cons_self, rfl⟩
  | some old =>
      have hmem := List.mem_of_find?_eq_some hold
      exact ⟨_, _, h.upsertFile_of_some hold, rfl, _, List.mem_map.mpr ⟨old, hmem, if_pos rfl⟩, rfl⟩

theorem HasFile.upsertFunction {s : Store} {function : FunctionRow} (h : s.HasFile function.fileId) :
    ∃ row s', s.upsertFunction function = .ok (row, s') ∧ s'.projects = s.projects ∧ s'.files = s.files := by
  cases hold : s.functionAt? function.fileId function.key with
  | none => exact ⟨_, _, h.upsertFunction_of_none hold, rfl, rfl⟩
  | some old => exact ⟨_, _, h.upsertFunction_of_some hold, rfl, rfl⟩

theorem HasFile.upsertAll {s : Store} {fileId : Int} (h : s.HasFile fileId) (fs : List Documented) :
    ∃ kept s', s.upsertAll fileId fs = .ok (kept, s') ∧ s'.projects = s.projects ∧ s'.files = s.files := by
  induction fs generalizing s with
  | nil => exact ⟨[], s, rfl, rfl, rfl⟩
  | cons f fs ih =>
      have hparent : s.HasFile (FunctionRow.ofDocumented f fileId).fileId := h
      obtain ⟨row, s₁, hput, hprojects, hfiles⟩ := hparent.upsertFunction
      have hkept : s₁.HasFile fileId := by rwa [HasFile, hfiles]
      obtain ⟨kept, s', hall, hprojects', hfiles'⟩ := ih hkept
      rw [Store.upsertAll, hput]
      dsimp only
      rw [hall]
      exact ⟨_, s', rfl, hprojects'.trans hprojects, hfiles'.trans hfiles⟩

theorem foldl_deleteFunction_projects (s : Store) (rows : List FunctionRow) :
    (rows.foldl (fun s row => s.deleteFunction row.id) s).projects = s.projects := by
  induction rows generalizing s with
  | nil => rfl
  | cons row rows ih => exact ih (s.deleteFunction row.id)

theorem HasFile.syncFunctions {s : Store} {fileId : Int} (h : s.HasFile fileId) (fs : List Documented) :
    ∃ kept s', s.syncFunctions fileId fs = .ok (kept, s') ∧ s'.projects = s.projects := by
  obtain ⟨kept, s₁, hall, hprojects, -⟩ := h.upsertAll fs
  rw [Store.syncFunctions, hall]
  exact ⟨kept, _, rfl, (foldl_deleteFunction_projects s₁ _).trans hprojects⟩

theorem HasProject.storeSource {s : Store} {projectId : Int} (h : s.HasProject projectId)
    (source : SourceFile) :
    ∃ row changed s', s.storeSource projectId source = .ok (row, changed, s') ∧
      s'.projects = s.projects ∧ s'.HasFile row.id := by
  let file : FileRow :=
    { projectId := projectId
      path := source.path
      hash := Digest.ofText source.text
      size := source.text.utf8ByteSize
      parseError := source.build.result.errors.head?.map (·.message) }
  have hparent : s.HasProject file.projectId := h
  obtain ⟨row, s', hput, hprojects, hfile⟩ := hparent.upsertFile
  have hmap : (s.upsertFile file).map (fun put => (put.1, true, put.2)) = .ok (row, true, s') := by
    rw [hput]
    rfl
  rw [Store.storeSource]
  cases hold : s.file? projectId source.path with
  | none => exact ⟨row, true, s', hmap, hprojects, hfile⟩
  | some old =>
      by_cases hhash : old.hash = Digest.ofText source.text
      · exact ⟨old, false, s, if_pos hhash, rfl, old, List.mem_of_find?_eq_some hold, rfl⟩
      · exact ⟨row, true, s', (if_neg hhash).trans hmap, hprojects, hfile⟩

/-- Storing one more source goes through where its project has a row, and keeps the rows of projects. -/
theorem HasProject.add {projectId : Int} {p : Storing} (h : p.store.HasProject projectId)
    (merged : List Documented) (state : SourceState) :
    ∃ p', Storing.add projectId merged p state = .ok p' ∧ p'.store.projects = p.store.projects := by
  rw [Storing.add]
  cases state.outcome with
  | error e => exact ⟨p, rfl, rfl⟩
  | ok source =>
      obtain ⟨row, changed, s₁, hput, hprojects, hfile⟩ := h.storeSource source
      obtain ⟨kept, s', hsync, hprojects'⟩ :=
        hfile.syncFunctions (merged.filter (·.signature.source.file = state.path))
      dsimp only
      rw [hput]
      dsimp only
      rw [hsync]
      exact ⟨_, rfl, hprojects'.trans hprojects⟩

theorem HasProject.foldlM_add {projectId : Int} {p : Storing} (h : p.store.HasProject projectId)
    (merged : List Documented) (states : List SourceState) :
    ∃ p', states.foldlM (Storing.add projectId merged) p = .ok p' ∧ p'.store.projects = p.store.projects := by
  induction states generalizing p with
  | nil => exact ⟨p, rfl, rfl⟩
  | cons state states ih =>
      -- The next source needs the project again.
      obtain ⟨p₁, hadd, hprojects⟩ := h.add merged state
      have hkept : p₁.store.HasProject projectId := by rwa [HasProject, hprojects]
      obtain ⟨p', hrest, hprojects'⟩ := ih hkept
      refine ⟨p', ?_, hprojects'.trans hprojects⟩
      rw [List.foldlM_cons, hadd]
      exact hrest

/-! ## Failed runs -/

/-- A run over a project with a row fails just when it finds no paths. -/
theorem indexSources_outcome_error {s : Store} {p : Project} (h : s.HasProject p.id) {supply : Anchors}
    {tree : Tree} {options : IndexOptions} {e : IndexError}
    (houtcome : (s.indexSources supply tree p options).outcome = .error e) :
    options.paths tree p.root = .error e := by
  cases hpaths : options.paths tree p.root with
  | error e' =>
      rw [indexSources_of_error hpaths] at houtcome
      rw [Except.error.inj houtcome]
  | ok paths =>
      obtain ⟨states, supply', hread⟩ := SourceState.exists_readAll tree p.root supply paths
      obtain ⟨done, hdone, -⟩ := HasProject.foldlM_add (p := { store := s }) h
        (SourceFile.merged supply' (SourceState.files states)) states
      rw [indexSources_of_ok hpaths hread hdone] at houtcome
      cases houtcome

/-- A run fails just when it finds no paths, and has then done nothing but to see to the row of the project. -/
theorem indexProject_eq_of_error {s : Store} {supply : Anchors} {tree : Tree} {root : String}
    {options : IndexOptions} {e : IndexError}
    (houtcome : (s.indexProject supply tree root options).outcome = .error e) :
    options.paths tree (Path.fromTop root) = .error e ∧
      s.indexProject supply tree root options =
        ⟨.error e, s.withProject (Path.fromTop root), supply⟩ := by
  obtain ⟨p, hget, hp, hroot⟩ := s.getOrCreateProject_eq (Path.fromTop root)
  rw [indexProject, hget] at houtcome ⊢
  dsimp only at houtcome ⊢
  have hpaths := indexSources_outcome_error ⟨p, hp, rfl⟩ houtcome
  rw [← hroot]
  refine ⟨hpaths, ?_⟩
  rw [indexSources_of_error hpaths, hroot]

end Store

/-- A failed build leaves the database as it was, but for the row of a project that is new. One that the lock or
a closed database keeps from starting leaves everything; otherwise no file and no function has changed, the rows
of the projects that there were stand as they did, and the root has a row now if it had none. The context of the
build is taken to stay live; a build that is cancelled keeps the batches that it has committed. -/
theorem Database.rows_after_failed_build (db : Database) (lock : BuildLock) (supply : Anchors) (tree : Tree)
    (root : String) (options : IndexOptions) {e : IndexError}
    (houtcome : (db.indexProject lock supply tree root options).1 = .error e) :
    (db.indexProject lock supply tree root options).2 =
      if lock.held ∨ db.closed ∨ (db.store.project? (Path.fromTop root)).isSome then (db, supply)
      else
        ({ db with store :=
            { db.store with
              projects := db.store.projects ++ [db.store.newProject (Path.fromTop root)]
              lastProject := db.store.lastProject + 1 } }, supply) := by
  unfold Database.indexProject BuildLock.tryAcquire at houtcome ⊢
  cases hheld : lock.held with
  | true => rfl
  | false =>
      rw [hheld] at houtcome
      cases hclosed : db.closed with
      | true => rfl
      | false =>
          rw [hclosed] at houtcome
          obtain ⟨-, hrun⟩ := Store.indexProject_eq_of_error houtcome
          simp only [Bool.not_false, Bool.false_eq_true, if_false, false_or, hrun, Store.withProject]
          split
          · rw [← hclosed]
          · rfl

/-- A build whose pattern cannot be read, over the rows of another project. -/
theorem Database.rows_after_broken_pattern :
    let db : Database := { store := { projects := [{ id := 1, root := "/a" }], lastProject := 1 } }
    ∃ e, (db.indexProject {} {} (.ofPair "" "") "/a" { includes := ["["] }).1 = .error e ∧
      (db.indexProject {} {} (.ofPair "" "") "/a" { includes := ["["] }).2 = (db, {}) := by
  intro db
  have hfailed : (db.indexProject {} {} (.ofPair "" "") "/a" { includes := ["["] }).1.isOk = false := by
    decide +kernel
  cases houtcome : (db.indexProject {} {} (.ofPair "" "") "/a" { includes := ["["] }).1 with
  | ok report =>
      rw [houtcome] at hfailed
      contradiction
  | error e =>
      refine ⟨e, rfl, ?_⟩
      rw [Database.rows_after_failed_build db {} {} _ _ _ houtcome]
      exact if_pos (by decide +kernel)

/-- The same build of a root without a row fails and gives the root one. -/
theorem Database.project_of_broken_pattern :
    let db : Database := {}
    (db.indexProject {} {} (.ofPair "" "") "/a" { includes := ["["] }).1.isOk = false ∧
      (db.indexProject {} {} (.ofPair "" "") "/a" { includes := ["["] }).2.1.store.projects =
        [{ id := 1, root := "/a", name := "a", indexVersion := currentSchemaVersion }] := by
  decide +kernel

end OverloadDocs
