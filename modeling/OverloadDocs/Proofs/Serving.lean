import OverloadDocs.Proofs.References
import OverloadDocs.Proofs.Roots
import OverloadDocs.Service.Call

/-!
Serving from memory. The service keeps the indexes of a few projects and, with each, the reference texts that it
has read. What is kept of a project stands at its clean path and is what loading it from the rows would give.
Indexing a project changes the rows of no other one, and drops what is kept of this one, so that nothing kept is
ever out of date. A reference is therefore answered as if nothing were kept at all.
-/

namespace OverloadDocs

/-! ## Answers without a memory -/

namespace Service

/-- What a reference comes to in the project of a path, loaded for it from the rows. -/
def resolvedAnew (s : Service) (supply : Anchors) (args : Json) (path target : String) :
    Except ToolError Json :=
  match s.database.loadIndex supply path with
  | .error (.project _ .notFound) => .error (.unknownProject path)
  | .error e => .error (.failed "failed to load index" e.message)
  | .ok (idx, _) =>
    match Query.parse target with
    | .error e => .error (.badArgument "invalid target" "target" (TargetError.message ⟨e⟩))
    | .ok q =>
      let documented := (args.bool? "include_docs").getD true
      .ok ((idx.resolve q).view (if documented then idx.docOf else fun _ => {}))

/-- The answer to a call that resolves a reference, with nothing in memory. -/
def referenceAnew (s : Service) (supply : Anchors) (tree : Tree) (args : Json) : Except CallFailure Json :=
  match s.projectPath tree args with
  | .error e => .error e
  | .ok path =>
    match args.nonEmptyText? "target" with
    | none => .error (.refused (.missing "target"))
    | some target => (s.resolvedAnew supply args path target).mapError .refused

end Service

/-! ## What is kept -/

/-- A resolver holds the index that is loaded for a clean path, and queries that are read from their texts. -/
structure Store.Serves (store : Store) (path : String) (r : Resolver) : Prop where
  clean : Path.fromTop path = path
  current : ∀ supply, store.loadIndex supply path = .ok (r.index, supply)
  read : ∀ entry ∈ r.cache.entries, Query.parse entry.1 = .ok entry.2

/-- An open service over rows in order keeps nothing that differs from them. -/
structure Service.Coherent (s : Service) : Prop where
  opened : s.database.closed = false
  consistent : s.database.store.Consistent
  anchored : s.database.store.Anchored
  serves : ∀ entry ∈ s.projects.entries, s.database.store.Serves entry.1 entry.2

theorem Cache.ne_of_mem_erase {κ ν : Type} [DecidableEq κ] {c : Cache κ ν} {entry : κ × ν} {k : κ}
    (h : entry ∈ (c.erase k).entries) : entry.1 ≠ k :=
  of_decide_eq_true (List.mem_filter.mp h).2

/-- A remembered text is resolved as one that is read anew, and what is read is remembered. -/
theorem Store.Serves.resolveTarget {store : Store} {path : String} {r : Resolver} (h : store.Serves path r)
    (target : String) :
    (r.resolveTarget target).1 = ((Query.parse target).mapError TargetError.mk).map r.index.resolve ∧
      (r.resolveTarget target).2.index = r.index ∧ store.Serves path (r.resolveTarget target).2 := by
  have hfaithful : r.Faithful := h.read
  have hindex := r.index_resolveTarget target
  exact ⟨hfaithful.answer target, hindex, h.clean, fun supply => hindex ▸ h.current supply,
    hfaithful.resolveTarget target⟩

theorem Tree.isAbsolute_of_folderFault? {tree : Tree} {path : String} (h : tree.folderFault? path = none) :
    Path.isAbsolute path = true := by
  by_contra hrelative
  have hlookUp : tree.lookUp path = .error .notAbsolute := by
    rw [lookUp, if_pos (by simpa using hrelative)]
  rw [folderFault?, hlookUp] at h
  split at h <;> cases h

theorem Database.indexProject_of_open {db : Database} (h : db.closed = false) (supply : Anchors) (tree : Tree)
    (root : String) (options : IndexOptions) :
    db.indexProject {} supply tree root options =
      ((db.store.indexProject supply tree root options).outcome,
        { db with store := (db.store.indexProject supply tree root options).store },
        (db.store.indexProject supply tree root options).supply) := by
  obtain ⟨store, transaction, closed⟩ := db
  obtain rfl : closed = false := h
  rfl

namespace Service

theorem documentFile_snd (s : Service) (tree : Tree) (args : Json) :
    ∃ supply, (s.documentFile tree args).2 = { s with supply := supply } := by
  unfold documentFile
  split
  · exact ⟨_, rfl⟩
  · split
    · exact ⟨_, rfl⟩
    · split
      · exact ⟨_, rfl⟩
      · split
        · exact ⟨_, rfl⟩
        · exact ⟨_, rfl⟩

theorem searchFunctions_snd (s : Service) (tree : Tree) (now : Int) (args : Json) :
    ∃ memory, (s.searchFunctions tree now args).2 = { s with memory := memory } := by
  unfold searchFunctions
  split
  · exact ⟨_, rfl⟩
  · split
    · exact ⟨_, rfl⟩
    · exact ⟨_, rfl⟩
    · dsimp only
      split <;> exact ⟨_, rfl⟩

theorem fromTop_projectPath {s : Service} {tree : Tree} {args : Json} {path : String}
    (h : s.projectPath tree args = .ok path) : Path.fromTop path = path := by
  unfold projectPath at h
  cases hgiven : args.nonEmptyText? "path" with
  | none =>
      rw [hgiven] at h
      cases h
  | some given =>
      rw [hgiven] at h
      dsimp only at h
      cases hfault : tree.folderFault? given with
      | some fault =>
          rw [hfault] at h
          cases h
      | none =>
          have habsolute := Tree.isAbsolute_of_folderFault? hfault
          rw [hfault] at h
          dsimp only at h
          split at h
          · cases h
          · split at h
            · cases h
            · cases h
            · cases h
            · obtain rfl := Except.ok.inj h
              exact Path.fromTop_clean habsolute

namespace Coherent

variable {s : Service}

/-- A project that is kept is loaded from the rows all the same. -/
theorem loadIndex_eq (h : s.Coherent) {path : String} {r : Resolver} (hr : s.database.store.Serves path r)
    (supply : Anchors) : s.database.loadIndex supply path = .ok (r.index, supply) := by
  rw [Database.loadIndex, h.opened]
  exact hr.current supply

theorem insert (h : s.Coherent) {path : String} {r : Resolver} (hr : s.database.store.Serves path r) :
    Coherent { s with projects := s.projects.insert path r } := by
  refine { h with serves := fun entry he => ?_ }
  rcases Cache.mem_insert he with rfl | hold
  · exact hr
  · exact h.serves entry hold

/-- The project of a clean path is the one that is loaded for it, and is kept. -/
theorem project (h : s.Coherent) {path : String} (hpath : Path.fromTop path = path) (supply : Anchors) :
    (s.project path).1.map (·.index) = (s.database.loadIndex supply path).map (·.1) ∧
      (s.project path).2.Coherent ∧ (s.project path).2.database = s.database ∧
      ∀ r, (s.project path).1 = .ok r → s.database.store.Serves path r := by
  unfold Service.project
  cases hfound : s.projects.find? path with
  | some r =>
      have hr := h.serves _ (Cache.mem_of_find? hfound)
      dsimp only at hr ⊢
      refine ⟨?_, { h with serves := fun entry he => h.serves entry (Cache.mem_of_mem_touch he) }, rfl, ?_⟩
      · rw [h.loadIndex_eq hr]
        rfl
      · rintro _ ⟨⟩
        exact hr
  | none =>
      dsimp only
      have hsupply : ∀ supply', s.database.loadIndex supply' path =
          (s.database.loadIndex s.supply path).map fun loaded => (loaded.1, supply') := by
        intro supply'
        rw [Database.loadIndex, Database.loadIndex, h.opened]
        exact h.anchored.loadIndex_supply path s.supply supply'
      cases hload : s.database.loadIndex s.supply path with
      | error e =>
          rw [hsupply, hload]
          exact ⟨rfl, h, rfl, fun _ => nofun⟩
      | ok loaded =>
          have hr : s.database.store.Serves path (.ofIndex loaded.1 s.config.cacheSize) := by
            refine ⟨hpath, fun supply' => ?_, fun _ => nofun⟩
            have hload' := hsupply supply'
            rw [hload, Database.loadIndex, h.opened] at hload'
            exact hload'
          rw [hsupply, hload]
          refine ⟨rfl, ?_, rfl, ?_⟩
          · exact Coherent.insert (s := { s with supply := loaded.2 }) { h with } hr
          · rintro _ ⟨⟩
            exact hr

/-- A reference is resolved as without a memory. -/
theorem resolveReference (h : s.Coherent) {path : String} (hpath : Path.fromTop path = path) (args : Json)
    (supply : Anchors) :
    (s.resolveReference args path).1 =
        (match args.nonEmptyText? "target" with
        | none => .error (.missing "target")
        | some target => s.resolvedAnew supply args path target) ∧
      (s.resolveReference args path).2.Coherent := by
  rw [Service.resolveReference]
  cases args.nonEmptyText? "target" with
  | none => exact ⟨rfl, h⟩
  | some target =>
      obtain ⟨hindex, hkept, hdatabase, hserves⟩ := h.project hpath supply
      dsimp only
      rw [resolvedAnew]
      cases hproject : s.project path with
      | mk outcome s' =>
          rw [hproject] at hindex hkept hdatabase hserves
          dsimp only at hindex hkept hdatabase hserves
          cases outcome with
          | error e =>
              cases hload : s.database.loadIndex supply path with
              | ok loaded =>
                  rw [hload] at hindex
                  cases hindex
              | error e' =>
                  rw [hload] at hindex
                  obtain rfl := Except.error.inj hindex
                  cases e with
                  | project root cause => cases cause <;> exact ⟨rfl, hkept⟩
                  | row | refused => exact ⟨rfl, hkept⟩
          | ok r =>
              have hr := hserves r rfl
              obtain ⟨hresolved, hsame, hr'⟩ := hr.resolveTarget target
              rw [h.loadIndex_eq hr supply]
              rw [← hdatabase] at hr'
              have hkept' := hkept.insert hr'
              dsimp only
              cases hparse : Query.parse target with
              | error e =>
                  rw [hparse] at hresolved
                  rw [hresolved]
                  exact ⟨rfl, hkept'⟩
              | ok q =>
                  rw [hparse] at hresolved
                  rw [hresolved, hsame]
                  exact ⟨rfl, hkept'⟩

/-- Indexing a project leaves nothing kept that differs from the rows. -/
theorem indexFunctions (h : s.Coherent) {path : String} (hpath : Path.fromTop path = path) (tree : Tree)
    (args : Json) : (s.indexFunctions tree args path).2.Coherent := by
  obtain ⟨hconsistent, hanchored⟩ :=
    Store.indexProject_invariant h.consistent h.anchored s.supply tree path s.indexOptions
  rw [Service.indexFunctions, Database.indexProject_of_open h.opened]
  dsimp only
  split
  · exact h
  · cases houtcome : (s.database.store.indexProject s.supply tree path s.indexOptions).outcome with
    | error e =>
        -- What is kept could be loaded, so that the failed run has not touched it.
        have hkept : ∀ entry ∈ s.projects.entries,
            (s.database.store.indexProject s.supply tree path s.indexOptions).store.Serves entry.1 entry.2 := by
          intro entry he
          obtain ⟨hclean, hcurrent, hread⟩ := h.serves entry he
          refine ⟨hclean, fun supply => ?_, hread⟩
          exact Store.loadIndex_indexProject_of_error houtcome (hcurrent supply)
        cases e <;> exact ⟨h.opened, hconsistent, hanchored, hkept⟩
    | ok report =>
        refine ⟨h.opened, hconsistent, hanchored, fun entry he => ?_⟩
        obtain ⟨hclean, hcurrent, hread⟩ := h.serves entry (Cache.mem_of_mem_erase he)
        have hne : Path.fromTop entry.1 ≠ Path.fromTop path := by
          rw [hclean, hpath]
          exact Cache.ne_of_mem_erase he
        refine ⟨hclean, fun supply => ?_, hread⟩
        exact (h.consistent.loadIndex_indexProject_of_ne hne s.supply supply tree s.indexOptions).trans
          (hcurrent supply)

/-- No call leaves anything kept that differs from the rows. -/
theorem call (h : s.Coherent) (tree : Tree) (now : Int) (readings : Readings) (tool : Tool) (args : Json) :
    (s.call tree now readings tool args).2.Coherent := by
  unfold Service.call
  cases args with
  | obj members =>
      cases tool with
      | indexFunctions =>
          dsimp only
          cases hpath : s.projectPath tree (.obj members) with
          | error e => exact h
          | ok path => exact h.indexFunctions (fromTop_projectPath hpath) tree _
      | resolveReference =>
          dsimp only
          cases hpath : s.projectPath tree (.obj members) with
          | error e => exact h
          | ok path => exact (h.resolveReference (fromTop_projectPath hpath) _ {}).2
      | documentFile =>
          obtain ⟨supply, hs⟩ := s.documentFile_snd tree (.obj members)
          dsimp only
          rw [hs]
          exact { h with }
      | searchFunctions =>
          obtain ⟨memory, hs⟩ := s.searchFunctions_snd tree now (.obj members)
          dsimp only
          rw [hs]
          exact { h with }
      | getStatus => exact h
  | null | bool | int | float | str | arr | verbatim => exact h

end Coherent

end Service

/-! ## Runs of calls -/

/-- A call to the service, with what is there at the time. -/
structure ServiceCall where
  tree : Tree
  now : Int := 0
  readings : Readings := default
  tool : Tool
  args : Json

namespace Service

def afterCalls (s : Service) (calls : List ServiceCall) : Service :=
  calls.foldl (fun s c => (s.call c.tree c.now c.readings c.tool c.args).2) s

theorem Coherent.afterCalls {s : Service} (h : s.Coherent) (calls : List ServiceCall) :
    (s.afterCalls calls).Coherent := by
  induction calls generalizing s with
  | nil => exact h
  | cons c calls ih => exact ih (h.call c.tree c.now c.readings c.tool c.args)

/-- References are never resolved against rows of the past. Let a service be started over what runs of indexing
have left, and let it answer any calls, whatever happens to the sources in between. A reference is then answered
as the rows at the time have it, with the index loaded from them and the text read for this call. -/
theorem resolveReference_afterCalls (config : Config) {store : Store} (hstore : store.Reached)
    (supply supply' : Anchors) (calls : List ServiceCall) (tree : Tree) (now : Int) (readings : Readings)
    (members : List (String × Json)) :
    let s := afterCalls { config := config, database := { store := store }, supply := supply } calls
    (s.call tree now readings .resolveReference (.obj members)).1 =
      s.referenceAnew supply' tree (.obj members) := by
  intro s
  obtain ⟨hconsistent, hanchored⟩ := hstore.invariant
  have hstart : Coherent { config := config, database := { store := store }, supply := supply } :=
    ⟨rfl, hconsistent, hanchored, fun _ => nofun⟩
  have hs : s.Coherent := hstart.afterCalls calls
  unfold Service.call
  dsimp only
  rw [referenceAnew]
  cases hpath : s.projectPath tree (.obj members) with
  | error e => rfl
  | ok path =>
      dsimp only
      rw [(hs.resolveReference (fromTop_projectPath hpath) (.obj members) supply').1]
      cases (Json.obj members).nonEmptyText? "target" <;> rfl

/-- A project is indexed, asked about, changed and indexed again. -/
theorem resolveReference_of_changed_source :
    let path : String × Json := ("path", .str "/")
    let s := afterCalls {}
      [{ tree := .ofPair "real f(real x);" "int n();", tool := .indexFunctions, args := .obj [path] },
        { tree := .ofPair "real f(real x);" "int n();", tool := .resolveReference
          args := .obj [path, ("target", .str "f")] },
        { tree := .ofPair "real f(int k);" "int n();", tool := .indexFunctions, args := .obj [path] }]
    (s.call (.ofPair "" "") 0 default .resolveReference (.obj [path, ("target", .str "f")])).1 =
      s.referenceAnew {} (.ofPair "" "") (.obj [path, ("target", .str "f")]) := by
  intro path s
  exact resolveReference_afterCalls {} .empty {} {} _ _ 0 default _

end Service

end OverloadDocs
