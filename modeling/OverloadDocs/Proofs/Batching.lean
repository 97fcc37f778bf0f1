import OverloadDocs.Proofs.FreshAnchors

/-!
Batches. Storing is not refused once the project has its row, so that every batch is stored, and batch after batch
the sources are stored one by one in the order of their paths. So the size of the batches cannot be told from what
a run leaves and reports. Every source that was found is counted once: as indexed, as skipped, or as failed.
-/

namespace OverloadDocs

namespace Store

/-! ## Counts -/

section

variable {projectId : Int} {merged : List Documented} {p p' : Storing}

theorem Storing.count_add {state : SourceState} (h : Storing.add projectId merged p state = .ok p') :
    p'.indexed + p'.skipped + state.failure?.toList.length = p.indexed + p.skipped + 1 := by
  rw [Storing.add] at h
  rw [SourceState.failure?]
  cases houtcome : state.outcome with
  | error f =>
      rw [houtcome] at h
      obtain rfl := Except.ok.inj h
      rfl
  | ok source =>
      simp only [houtcome] at h
      split at h
      · cases h
      · rename_i changed _ _
        split at h
        · cases h
        · obtain rfl := Except.ok.inj h
          cases changed with
          | true => exact Nat.add_right_comm p.indexed 1 p.skipped
          | false => rfl

theorem Storing.count_foldlM_add {states : List SourceState}
    (h : states.foldlM (Storing.add projectId merged) p = .ok p') :
    p'.indexed + p'.skipped + (states.filterMap SourceState.failure?).length =
      p.indexed + p.skipped + states.length := by
  induction states generalizing p with
  | nil =>
      obtain rfl := Except.ok.inj h
      rfl
  | cons state states ih =>
      rw [List.foldlM_cons] at h
      cases hadd : Storing.add projectId merged p state with
      | error e =>
          rw [hadd] at h
          cases h
      | ok p₁ =>
          rw [hadd] at h
          have hone := count_add hadd
          have hrest := ih h
          have hfailed : ((state :: states).filterMap SourceState.failure?).length =
              state.failure?.toList.length + (states.filterMap SourceState.failure?).length := by
            cases hfailure : state.failure? with
            | none => rw [List.filterMap_cons_none hfailure, Option.toList_none, List.length_nil, Nat.zero_add]
            | some message =>
                rw [List.filterMap_cons_some hfailure, Option.toList_some, List.length_cons, List.length_singleton,
                  Nat.add_comm]
          rw [hfailed, List.length_cons]
          omega

end

/-! ## Runs -/

section

variable {s : Store} {p : Project}

theorem HasProject.count_indexSources (h : s.HasProject p.id) {supply : Anchors} {tree : Tree}
    {options : IndexOptions} {report : IndexReport}
    (houtcome : (s.indexSources supply tree p options).outcome = .ok report) :
    ∃ paths, options.paths tree p.root = .ok paths ∧
      report.filesIndexed + report.filesSkipped + report.filesFailed = paths.length := by
  cases hpaths : options.paths tree p.root with
  | error e =>
      rw [indexSources_of_error hpaths] at houtcome
      cases houtcome
  | ok paths =>
      obtain ⟨states, supply', hstates⟩ := SourceState.exists_readAll tree p.root supply paths
      obtain ⟨done, hdone, -⟩ := HasProject.foldlM_add (p := { store := s }) h
        (SourceFile.merged supply' (SourceState.files states)) states
      rw [indexSources_of_ok hpaths hstates hdone] at houtcome
      obtain rfl := Except.ok.inj houtcome
      have hcount := Storing.count_foldlM_add hdone
      have hvisited := congrArg List.length (SourceState.read_of_eq hstates).visited
      rw [List.length_map] at hvisited
      refine ⟨paths, rfl, hcount.trans ?_⟩
      rw [hvisited, Nat.zero_add, Nat.zero_add]

/-- A run does not see how large its batches are. -/
theorem HasProject.indexSources_batchSize (h : s.HasProject p.id) (supply : Anchors) (tree : Tree)
    (options : IndexOptions) (size : Int) :
    s.indexSources supply tree p { options with batchSize := size } = s.indexSources supply tree p options := by
  have hsame : ({ options with batchSize := size } : IndexOptions).paths = options.paths := rfl
  cases hpaths : options.paths tree p.root with
  | error e => rw [indexSources_of_error hpaths, indexSources_of_error (hsame ▸ hpaths)]
  | ok paths =>
      obtain ⟨states, supply', hstates⟩ := SourceState.exists_readAll tree p.root supply paths
      obtain ⟨done, hdone, -⟩ := HasProject.foldlM_add (p := { store := s }) h
        (SourceFile.merged supply' (SourceState.files states)) states
      rw [indexSources_of_ok hpaths hstates hdone, indexSources_of_ok (hsame ▸ hpaths) hstates hdone]

/-- Two supplies make no difference to a run but for fresh anchors. -/
theorem HasProject.indexSources_supply (h : s.HasProject p.id) {last : Int} (hlast : last ≤ s.lastFunction)
    (supply supply' : Anchors) (tree : Tree) (options : IndexOptions) :
    (s.indexSources supply' tree p options).outcome.map IndexReport.counts =
        (s.indexSources supply tree p options).outcome.map IndexReport.counts ∧
      (s.indexSources supply' tree p options).store.forgetting last =
        (s.indexSources supply tree p options).store.forgetting last := by
  cases hpaths : options.paths tree p.root with
  | error e =>
      rw [indexSources_of_error hpaths, indexSources_of_error hpaths]
      exact ⟨rfl, rfl⟩
  | ok paths =>
      obtain ⟨q, report, hq, houtcome, hcounts, hstore⟩ := h.indexSources_forgetting hlast supply hpaths
      obtain ⟨q', report', hq', houtcome', hcounts', hstore'⟩ := h.indexSources_forgetting hlast supply' hpaths
      obtain rfl := Except.ok.inj (hq.symm.trans hq')
      rw [houtcome, houtcome', hstore, hstore']
      exact ⟨congrArg Except.ok (hcounts'.trans hcounts.symm), rfl⟩

end

/-- Once it has seen to the row of its project, a run is one over the sources of a project with a row. -/
theorem exists_indexSources (s : Store) (root : String) :
    ∃ (s₁ : Store) (p : Project), s₁.HasProject p.id ∧ p.root = Path.fromTop root ∧ s₁.lastFunction = s.lastFunction ∧
      ∀ supply tree options, s.indexProject supply tree root options = s₁.indexSources supply tree p options := by
  obtain ⟨p, hget, hp, hroot⟩ := s.getOrCreateProject_eq (Path.fromTop root)
  refine ⟨s.withProject (Path.fromTop root), p, ⟨p, hp, rfl⟩, hroot, ?_, fun supply tree options => ?_⟩
  · rw [withProject]
    split <;> rfl
  · rw [indexProject, hget]

end Store

/-- A database without the anchors of functions whose identities were given after the last one of old. -/
def Database.forgetting (last : Int) (db : Database) : Database :=
  { db with store := db.store.forgetting last }

namespace Database

/-- A run over a database is refused, or is one over the sources of a project with a row. -/
theorem indexProject_cases (db : Database) (lock : BuildLock) (root : String) :
    (∃ e, ∀ supply tree options, db.indexProject lock supply tree root options = (.error e, db, supply)) ∨
      ∃ (s : Store) (p : Project), s.HasProject p.id ∧ p.root = Path.fromTop root ∧ s.lastFunction = db.store.lastFunction ∧
        ∀ supply tree options, db.indexProject lock supply tree root options =
          let run := s.indexSources supply tree p options
          (run.outcome, { db with store := run.store }, run.supply) := by
  unfold Database.indexProject BuildLock.tryAcquire
  cases lock.held with
  | true => exact .inl ⟨_, fun _ _ _ => rfl⟩
  | false =>
      cases db.closed with
      | true => exact .inl ⟨_, fun _ _ _ => rfl⟩
      | false =>
          obtain ⟨s, p, hproject, hroot, hlast, hrun⟩ := db.store.exists_indexSources root
          refine .inr ⟨s, p, hproject, hroot, hlast, fun supply tree options => ?_⟩
          dsimp only
          rw [hrun]
          rfl

/-- The size of the batches cannot be told from a run. Whatever the sizes, two runs over the same sources count as
many files as indexed, skipped, failed and removed, and leave the same rows with the same identities; only new
functions may have other anchors, and with one supply everything is the same. A run that goes through counts every
source that it has found once. -/
theorem indexProject_batchSize (db : Database) (lock : BuildLock) (supply supply' : Anchors) (tree : Tree)
    (root : String) (options : IndexOptions) (size size' : Int) :
    let run := db.indexProject lock supply tree root { options with batchSize := size }
    let run' := db.indexProject lock supply' tree root { options with batchSize := size' }
    run'.1.map IndexReport.counts = run.1.map IndexReport.counts ∧
      run'.2.1.forgetting db.store.lastFunction = run.2.1.forgetting db.store.lastFunction ∧
      (supply' = supply → run' = run) ∧
      ∀ report, run.1 = .ok report → ∃ paths, options.paths tree (Path.fromTop root) = .ok paths ∧
        report.filesIndexed + report.filesSkipped + report.filesFailed = paths.length := by
  intro run run'
  rcases db.indexProject_cases lock root with ⟨e, hrefused⟩ | ⟨s, p, hproject, hroot, hlast, hruns⟩
  · have hrun : run = (.error e, db, supply) := hrefused _ _ _
    have hrun' : run' = (.error e, db, supply') := hrefused _ _ _
    rw [hrun, hrun']
    exact ⟨rfl, rfl, fun hsame => hsame ▸ rfl, fun _ => nofun⟩
  · -- Both runs are runs over the sources in batches of the size that the options have.
    have hsize : ∀ supply size, db.indexProject lock supply tree root { options with batchSize := size } =
        db.indexProject lock supply tree root options := by
      intro supply size
      rw [hruns, hruns, hproject.indexSources_batchSize]
    have hrun : run = db.indexProject lock supply tree root options := hsize supply size
    have hrun' : run' = db.indexProject lock supply' tree root options := hsize supply' size'
    obtain ⟨hcounts, hstore⟩ := hproject.indexSources_supply (Int.le_of_eq hlast.symm) supply supply' tree options
    refine ⟨?_, ?_, fun hsame => ?_, fun report houtcome => ?_⟩
    · rw [hrun, hrun', hruns, hruns]
      exact hcounts
    · rw [hrun, hrun', hruns, hruns, Database.forgetting, Database.forgetting]
      dsimp only
      rw [hstore]
    · rw [hrun, hrun', hsame]
    · rw [hrun, hruns] at houtcome
      obtain ⟨paths, hpaths, hcount⟩ := hproject.count_indexSources houtcome
      exact ⟨paths, hroot ▸ hpaths, hcount⟩

/-- A folder is indexed again in which one source has become a link that leads nowhere: source by source, and with
another supply all at once. -/
theorem indexProject_of_dead_link :
    let s := (({} : Store).indexProject {} (.ofPair "real f(real x);" "int n();") "/" {}).store
    let db : Database := { store := s }
    let tree : Tree := .folder [("a.stan", .file "real f(real x);"), ("b.stan", .link "gone")]
    let run := db.indexProject {} {} tree "/" { batchSize := 1 }
    let run' := db.indexProject {} { given := 7 } tree "/" { batchSize := 2 }
    ∃ report, run.1 = .ok report ∧ report.filesIndexed + report.filesSkipped + report.filesFailed = 2 ∧
      run'.1.map IndexReport.counts = .ok report.counts ∧
      run'.2.1.forgetting s.lastFunction = run.2.1.forgetting s.lastFunction := by
  intro s db tree run run'
  obtain ⟨hcounts, hstore, -, hsum⟩ := db.indexProject_batchSize {} {} { given := 7 } tree "/" {} 1 2
  have hpaths : ({} : IndexOptions).paths tree (Path.fromTop "/") = .ok ["a.stan", "b.stan"] := by
    rw [Path.fromTop_slash]
    exact IndexOptions.paths_ofPair (fun _ => nofun) (fun _ => nofun)
  obtain ⟨s₁, p, hproject, hroot, -, hruns⟩ := s.exists_indexSources "/"
  obtain ⟨_, report, -, hreport, -⟩ := hproject.indexSources_forgetting (Int.le_refl _) {} (hroot ▸ hpaths)
  have houtcome : run.1 = .ok report := by
    have hrun : run.1 = (s.indexProject {} tree "/" { batchSize := 1 }).outcome := rfl
    rw [hrun, hruns, hproject.indexSources_batchSize {} tree {} 1]
    exact hreport
  obtain ⟨paths, hfound, hsum⟩ := hsum report houtcome
  rw [hpaths] at hfound
  obtain rfl := Except.ok.inj hfound
  refine ⟨report, houtcome, hsum, ?_, hstore⟩
  rw [hcounts]
  exact congrArg (Except.map IndexReport.counts) houtcome

end Database

end OverloadDocs
