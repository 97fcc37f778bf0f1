import OverloadDocs.Proofs.Histories
import OverloadDocs.Proofs.Incremental

/-!
Isolation of projects. A run makes nothing but calls that concern the project of its root: this project, a file of it
or a function of such a file. A call of this kind leaves every other project as it is, with all its rows, and since
identities are not given again, what is of a project when a run looks at it still is when the run writes to it.
So a run spares the other projects wherever it ends.
-/

namespace OverloadDocs

namespace Store

/-! ## Owners -/

/-- This identity has been given, and only the project of a root can have it. -/
def Owns (s : Store) (root : String) (projectId : Int) : Prop :=
  projectId ≤ s.lastProject ∧ ∀ q ∈ s.projects, q.id = projectId → q.root = root

/-- This identity has been given, and only a file of the project of a root can have it. -/
def OwnsFile (s : Store) (root : String) (fileId : Int) : Prop :=
  fileId ≤ s.lastFile ∧ ∀ f ∈ s.files, f.id = fileId → s.Owns root f.projectId

/-- This identity has been given, and only a function in a file of the project of a root can have it. -/
def OwnsFunction (s : Store) (root : String) (id : Int) : Prop :=
  id ≤ s.lastFunction ∧ ∀ r ∈ s.functions, r.id = id → s.OwnsFile root r.fileId

/-- A call is about the project of a root. -/
def Concerns (s : Store) (root : String) : StoreCall → Prop
  | .createProject other _ _ => other = root
  | .updateProject id _ _ _ _ => s.Owns root id
  | .upsertFile file => s.Owns root file.projectId
  | .deleteFile id => s.OwnsFile root id
  | .upsertFunction function => s.OwnsFile root function.fileId
  | .deleteFunction id => s.OwnsFunction root id
  | .deleteFunctionsOf fileId => s.OwnsFile root fileId

section

variable {s s' : Store} {root : String}

theorem Consistent.owns (hs : s.Consistent) {p : Project} (hp : p ∈ s.projects) : s.Owns p.root p.id := by
  refine ⟨hs.projects.bounded p hp, fun q hq hid => ?_⟩
  rw [hs.projects.eq_of_id hq hp hid]

theorem Consistent.ownsFile (hs : s.Consistent) {f : FileRow} (hf : f ∈ s.files) (howns : s.Owns root f.projectId) :
    s.OwnsFile root f.id := by
  refine ⟨hs.files.bounded f hf, fun g hg hid => ?_⟩
  rw [hs.files.eq_of_id hg hf hid]
  exact howns

theorem Consistent.ownsFunction (hs : s.Consistent) {r : FunctionRow} (hr : r ∈ s.functions)
    (howns : s.OwnsFile root r.fileId) : s.OwnsFunction root r.id := by
  refine ⟨hs.functions.bounded r hr, fun r' hr' hid => ?_⟩
  rw [hs.functions.eq_of_id hr' hr hid]
  exact howns

/-! Identities are not given again, so what is of a project stays so. -/

theorem Onward.owns (h : s.Onward s') {projectId : Int} (howns : s.Owns root projectId) :
    s'.Owns root projectId := by
  obtain ⟨hbound, hroots⟩ := howns
  refine ⟨Int.le_trans hbound h.projects.le, ?_⟩
  rintro q hq rfl
  obtain ⟨p, hp, hid, hroot⟩ := h.projects.mem q hq hbound
  exact hroot.symm.trans (hroots p hp hid)

theorem Onward.ownsFile (h : s.Onward s') {fileId : Int} (howns : s.OwnsFile root fileId) :
    s'.OwnsFile root fileId := by
  obtain ⟨hbound, hprojects⟩ := howns
  refine ⟨Int.le_trans hbound h.files.le, ?_⟩
  rintro f hf rfl
  obtain ⟨old, hold, hid, hplace⟩ := h.files.mem f hf hbound
  have hproject : old.projectId = f.projectId := congrArg Prod.fst hplace
  exact hproject ▸ h.owns (hprojects old hold hid)

theorem Onward.ownsFunction (h : s.Onward s') {id : Int} (howns : s.OwnsFunction root id) :
    s'.OwnsFunction root id := by
  obtain ⟨hbound, hfiles⟩ := howns
  refine ⟨Int.le_trans hbound h.functions.le, ?_⟩
  rintro r hr rfl
  obtain ⟨old, hold, hid, hplace⟩ := h.functions.mem r hr hbound
  have hfile : old.fileId = r.fileId := congrArg Prod.fst hplace
  exact hfile ▸ h.ownsFile (hfiles old hold hid)

theorem Onward.concerns (h : s.Onward s') {c : StoreCall} (hc : s.Concerns root c) : s'.Concerns root c := by
  cases c with
  | createProject => exact hc
  | updateProject | upsertFile => exact h.owns hc
  | deleteFile | upsertFunction | deleteFunctionsOf => exact h.ownsFile hc
  | deleteFunction => exact h.ownsFunction hc

end

/-! ## Calls -/

/-- A store that has come from another one with all projects as they were but the one of a root: with the same rows,
files and functions. -/
structure Spares (s : Store) (root : String) (s' : Store) : Prop where
  projects : s'.projects.filter (·.root ≠ root) = s.projects.filter (·.root ≠ root)
  files : ∀ q ∈ s.projects, q.root ≠ root →
    s'.files.filter (·.projectId = q.id) = s.files.filter (·.projectId = q.id)
  functions : ∀ q ∈ s.projects, q.root ≠ root →
    s'.functions.filter (s'.isIn q.id) = s.functions.filter (s.isIn q.id)

theorem Spares.refl (s : Store) (root : String) : s.Spares root s := ⟨rfl, fun _ _ _ => rfl, fun _ _ _ => rfl⟩

theorem Spares.trans {s s' s'' : Store} {root : String} (h : s.Spares root s') (h' : s'.Spares root s'') :
    s.Spares root s'' := by
  have hkept : ∀ q ∈ s.projects, q.root ≠ root → q ∈ s'.projects := by
    intro q hq hne
    have hmem : q ∈ s.projects.filter (·.root ≠ root) := List.mem_filter.mpr ⟨hq, decide_eq_true hne⟩
    rw [← h.projects] at hmem
    exact List.mem_of_mem_filter hmem
  exact ⟨h'.projects.trans h.projects,
    fun q hq hne => (h'.files q (hkept q hq hne) hne).trans (h.files q hq hne),
    fun q hq hne => (h'.functions q (hkept q hq hne) hne).trans (h.functions q hq hne)⟩

theorem Consistent.isIn_iff {s : Store} (hs : s.Consistent) {projectId : Int} {r : FunctionRow} :
    s.isIn projectId r = true ↔ ∃ f ∈ s.files.filter (·.projectId = projectId), f.id = r.fileId := by
  rw [isIn, Option.any_eq_true]
  constructor
  · rintro ⟨f, hf, hproject⟩
    obtain ⟨hmem, hid⟩ := hs.fileById?_eq_some.mp hf
    exact ⟨f, List.mem_filter.mpr ⟨hmem, hproject⟩, hid⟩
  · rintro ⟨f, hf, hid⟩
    obtain ⟨hmem, hproject⟩ := List.mem_filter.mp hf
    exact ⟨f, hs.fileById?_eq_some.mpr ⟨hmem, hid⟩, hproject⟩

section

variable {s s' : Store} {root : String} {c : StoreCall}

/-- A function whose file can only be one of the project of a root is in no other project. -/
theorem Consistent.isIn_eq_false (hs : s.Consistent) {q : Project} (hq : q ∈ s.projects) (hne : q.root ≠ root)
    {r : FunctionRow} (howns : s.OwnsFile root r.fileId) : s.isIn q.id r = false := by
  rw [← Bool.not_eq_true, hs.isIn_iff]
  rintro ⟨f, hf, hid⟩
  obtain ⟨hmem, hproject⟩ := List.mem_filter.mp hf
  exact hne ((howns.2 f hmem hid).2 q hq (of_decide_eq_true hproject).symm)

theorem Called.filter_projects (h : s.Called c s') (hc : s.Concerns root c) :
    s'.projects.filter (·.root ≠ root) = s.projects.filter (·.root ≠ root) := by
  cases h with
  | projectAdded hnew hid hroot =>
      have hsame := hroot.trans hc
      rw [List.filter_append, List.filter_cons_of_neg (by simpa using hsame), List.filter_nil, List.append_nil]
  | projectUpdated id =>
      refine filter_map_of_kept (fun q _ => ?_) (fun q hq hkept => if_neg fun hid => ?_)
      · split <;> rfl
      · exact of_decide_eq_true hkept (hc.2 q hq hid)
  | fileAdded | fileChanged | fileDeleted | functionAdded | functionChanged | functionDeleted
  | functionsDeleted => rfl

variable {q : Project}

theorem Consistent.filter_files (hs : s.Consistent) (h : s.Called c s') (hc : s.Concerns root c)
    (hq : q ∈ s.projects) (hne : q.root ≠ root) :
    s'.files.filter (·.projectId = q.id) = s.files.filter (·.projectId = q.id) := by
  have hother : ∀ {projectId : Int}, s.Owns root projectId → ¬ projectId = q.id :=
    fun howns hid => hne (howns.2 q hq hid.symm)
  cases h with
  | fileAdded hproject hold =>
      rw [Store.addFile, List.filter_append, List.filter_cons_of_neg (by simpa using hother hc), List.filter_nil,
        List.append_nil]
  | fileChanged hproject hold =>
      obtain ⟨hmem, hpid, -⟩ := hs.file?_eq_some.mp hold
      refine hs.files.filter_replace hmem ?_ ?_
      · exact decide_eq_false (hpid ▸ hother hc)
      · exact decide_eq_false (hother hc)
  | fileDeleted id =>
      rw [deleteFile, List.filter_filter]
      refine List.filter_congr fun f hf => ?_
      rw [Bool.and_eq_left_iff_imp]
      intro hproject
      exact decide_eq_true fun hid => hother (hc.2 f hf hid) (of_decide_eq_true hproject)
  | projectAdded | projectUpdated | functionAdded | functionChanged | functionDeleted | functionsDeleted => rfl

/-- What is in a project is in it as long as its files are there. -/
theorem Consistent.isIn_congr (hs : s.Consistent) (hs' : s'.Consistent) {projectId : Int}
    (h : s'.files.filter (·.projectId = projectId) = s.files.filter (·.projectId = projectId)) :
    s'.isIn projectId = s.isIn projectId := by
  funext r
  rw [Bool.eq_iff_iff, hs'.isIn_iff, hs.isIn_iff, h]

theorem Consistent.filter_functions (hs : s.Consistent) (h : s.Called c s') (hc : s.Concerns root c)
    (hq : q ∈ s.projects) (hne : q.root ≠ root) :
    s'.functions.filter (s.isIn q.id) = s.functions.filter (s.isIn q.id) := by
  have hother : ∀ {r : FunctionRow}, s.OwnsFile root r.fileId → s.isIn q.id r = false := hs.isIn_eq_false hq hne
  -- A function that is removed is in no other project.
  have hkept : ∀ {keep : FunctionRow → Bool}, (∀ r ∈ s.functions, keep r = false → s.OwnsFile root r.fileId) →
      (s.functions.filter keep).filter (s.isIn q.id) = s.functions.filter (s.isIn q.id) := by
    intro keep hgone
    rw [List.filter_filter]
    refine List.filter_congr fun r hr => ?_
    rw [Bool.and_eq_left_iff_imp]
    intro hin
    by_contra hnot
    rw [hother (hgone r hr (Bool.not_eq_true _ ▸ hnot))] at hin
    contradiction
  cases h with
  | fileDeleted id =>
      refine hkept fun r _ hid => ?_
      obtain rfl : r.fileId = id := by simpa using hid
      exact hc
  | @functionAdded function hfile hold =>
      have hrow : s.isIn q.id { function with id := s.lastFunction + 1, filePath := "" } = false := hother hc
      rw [Store.addFunction, List.filter_append, List.filter_cons_of_neg (Bool.eq_false_iff.mp hrow), List.filter_nil,
        List.append_nil]
  | functionChanged hfile hold =>
      obtain ⟨hmem, hid, -⟩ := hs.functionAt?_eq_some.mp hold
      exact hs.functions.filter_replace hmem (hother (hid ▸ hc)) (hother hc)
  | functionDeleted id => exact hkept fun r hr hid => hc.2 r hr (by simpa using hid)
  | functionsDeleted fileId =>
      refine hkept fun r _ hid => ?_
      obtain rfl : r.fileId = fileId := by simpa using hid
      exact hc
  | projectAdded | projectUpdated | fileAdded | fileChanged => rfl

/-- A call spares the projects that it does not concern. -/
theorem Consistent.spares (hs : s.Consistent) (h : s.Called c s') (hc : s.Concerns root c) :
    s.Spares root s' where
  projects := h.filter_projects hc
  files _ hq hne := hs.filter_files h hc hq hne
  functions q hq hne := by
    rw [hs.isIn_congr (hs.called h) (hs.filter_files h hc hq hne)]
    exact hs.filter_functions h hc hq hne

theorem Spares.project?_eq (h : s.Spares root s') {other : String} (hne : other ≠ root) :
    s'.project? other = s.project? other := by
  have hkept : ∀ t : Store, (t.projects.filter (·.root ≠ root)).find? (·.root = other) = t.project? other := by
    intro t
    rw [List.find?_filter]
    refine congrArg (t.projects.find? ·) (funext fun q => ?_)
    by_cases hroot : q.root = other
    · simp [hroot, hne]
    · simp [hroot]
  rw [← hkept s', h.projects, hkept s]

theorem Spares.functionsOf_eq (h : s.Spares root s') (hs : s.Consistent) (hs' : s'.Consistent) {q : Project}
    (hq : q ∈ s.projects) (hne : q.root ≠ root) : s'.functionsOf q.id = s.functionsOf q.id := by
  rw [functionsOf, functionsOf, h.functions q hq hne, listed, listed]
  refine List.map_congr_left fun row hrow => ?_
  obtain ⟨f, hf, hid⟩ := hs.isIn_iff.mp (List.mem_filter.mp (List.mem_mergeSort.mp hrow)).2
  have hfile := hs.fileById?_eq_some.mpr ⟨List.mem_of_mem_filter hf, hid⟩
  rw [← h.files q hq hne] at hf
  have hfile' := hs'.fileById?_eq_some.mpr ⟨List.mem_of_mem_filter hf, hid⟩
  rw [withPath, withPath, hfile, hfile']

end

/-! ## Calls of a run -/

/-- A store is reached from another one by calls that concern the project of a root. -/
inductive Writes (root : String) (s : Store) : Store → Prop
  | refl : Writes root s s
  | step {s₁ s' : Store} {c : StoreCall} (h : Writes root s s₁) (hcall : s₁.call c = .ok s')
      (hc : s₁.Concerns root c) : Writes root s s'

theorem Writes.trans {root : String} {s s₁ s' : Store} (h : s.Writes root s₁) (h' : s₁.Writes root s') :
    s.Writes root s' := by
  induction h' with
  | refl => exact h
  | step _ hcall hc ih => exact ih.step hcall hc

theorem called_of_ok {s s' : Store} {c : StoreCall} (h : s.call c = .ok s') : s.Allows c ∧ s.Called c s' := by
  obtain ⟨e, herror, -⟩ | ⟨s₁, hok, hallows, hcalled⟩ := s.call_cases c
  · cases herror.symm.trans h
  · cases hok.symm.trans h
    exact ⟨hallows, hcalled⟩

/-- Calls that concern one project keep the store in order, give new identities only and spare the others. -/
theorem Writes.run {root : String} {s s' : Store} (hs : s.Consistent) (h : s.Writes root s') :
    s'.Consistent ∧ s.Onward s' ∧ s.Spares root s' := by
  induction h with
  | refl => exact ⟨hs, .refl s, .refl s root⟩
  | step _ hcall hc ih =>
      obtain ⟨hs₁, honward, hspares⟩ := ih
      obtain ⟨-, hcalled⟩ := called_of_ok hcall
      exact ⟨hs₁.called hcalled, honward.trans (hs₁.onward hcalled), hspares.trans (hs₁.spares hcalled hc)⟩

section

variable {root : String} {s s' : Store}

/-- Calls that all concern the project still do so when their turn comes. -/
theorem writes_foldl {β : Type} {f : Store → β → Store} {c : β → StoreCall}
    (hf : ∀ (s : Store) b, s.call (c b) = .ok (f s b)) (hs : s.Consistent) {bs : List β}
    (hbs : ∀ b ∈ bs, s.Concerns root (c b)) : s.Writes root (bs.foldl f s) := by
  induction bs generalizing s with
  | nil => exact .refl
  | cons b bs ih =>
      obtain ⟨hhead, htail⟩ := List.forall_mem_cons.mp hbs
      have hstep : s.Writes root (f s b) := .step .refl (hf s b) hhead
      obtain ⟨hs₁, honward, -⟩ := hstep.run hs
      exact hstep.trans (ih hs₁ fun later hlater => honward.concerns (htail later hlater))

theorem writes_upsertAll (hs : s.Consistent) {fileId : Int} (howns : s.OwnsFile root fileId)
    {fs kept : List Documented} (h : s.upsertAll fileId fs = .ok (kept, s')) : s.Writes root s' := by
  induction fs generalizing s kept with
  | nil =>
      cases h
      exact .refl
  | cons f fs ih =>
      rw [upsertAll] at h
      cases hput : s.upsertFunction (FunctionRow.ofDocumented f fileId) with
      | error e =>
          rw [hput] at h
          cases h
      | ok put =>
          rw [hput] at h
          dsimp only at h
          have hcall : s.call (.upsertFunction (FunctionRow.ofDocumented f fileId)) = .ok put.2 := by
            rw [call, hput]
            rfl
          have hstep : s.Writes root put.2 := .step .refl hcall howns
          obtain ⟨hs₁, honward, -⟩ := hstep.run hs
          cases hrest : put.2.upsertAll fileId fs with
          | error e =>
              rw [hrest] at h
              cases h
          | ok rest =>
              rw [hrest] at h
              cases h
              exact hstep.trans (ih hs₁ (honward.ownsFile howns) hrest)

theorem writes_syncFunctions (hs : s.Consistent) {fileId : Int} (howns : s.OwnsFile root fileId)
    {fs kept : List Documented} (h : s.syncFunctions fileId fs = .ok (kept, s')) : s.Writes root s' := by
  rw [syncFunctions] at h
  cases hput : s.upsertAll fileId fs with
  | error e =>
      rw [hput] at h
      cases h
  | ok put =>
      rw [hput] at h
      cases h
      have hwrites := writes_upsertAll hs howns hput
      obtain ⟨hs₁, honward, -⟩ := hwrites.run hs
      refine hwrites.trans (writes_foldl (c := fun row : FunctionRow => .deleteFunction row.id) (fun _ _ => rfl) hs₁
        fun row hrow => ?_)
      -- A function that was in the file when it was listed is the one with its identity still.
      obtain ⟨old, hold, rfl⟩ := mem_listed.mp (List.mem_of_mem_filter hrow)
      obtain ⟨hmem, hfile⟩ := List.mem_filter.mp hold
      have hparent : s.OwnsFile root old.fileId := of_decide_eq_true hfile ▸ howns
      have howned := honward.ownsFunction (hs.ownsFunction hmem hparent)
      exact howned

theorem writes_upsertFile (hs : s.Consistent) {file row : FileRow} (howns : s.Owns root file.projectId)
    (h : s.upsertFile file = .ok (row, s')) : s.Writes root s' ∧ s'.OwnsFile root row.id := by
  have hcall : s.call (.upsertFile file) = .ok s' := by
    rw [call, h]
    rfl
  have hwrites : s.Writes root s' := .step .refl hcall howns
  obtain ⟨hs', honward, -⟩ := hwrites.run hs
  obtain ⟨row', s₁, hput, hspec⟩ := hs.upsertFile file (called_of_ok hcall).1
  cases h.symm.trans hput
  have hfound := hspec.file? file.projectId file.path
  rw [if_pos ⟨rfl, rfl⟩] at hfound
  obtain ⟨hmem, hproject, -⟩ := hs'.file?_eq_some.mp hfound
  exact ⟨hwrites, hs'.ownsFile hmem (hproject ▸ honward.owns howns)⟩

theorem writes_storeSource (hs : s.Consistent) {projectId : Int} (howns : s.Owns root projectId)
    {source : SourceFile} {row : FileRow} {changed : Bool}
    (h : s.storeSource projectId source = .ok (row, changed, s')) :
    s.Writes root s' ∧ s'.OwnsFile root row.id := by
  have hupsert : ∀ {file : FileRow}, file.projectId = projectId →
      (s.upsertFile file).map (fun put => (put.1, true, put.2)) = .ok (row, changed, s') →
      s.Writes root s' ∧ s'.OwnsFile root row.id := by
    rintro file rfl hmap
    cases hput : s.upsertFile file with
    | error e =>
        rw [hput] at hmap
        cases hmap
    | ok put =>
        rw [hput] at hmap
        cases hmap
        exact writes_upsertFile hs howns hput
  rw [storeSource] at h
  dsimp only at h
  split at h
  · rename_i old hold
    split at h
    · cases h
      obtain ⟨hmem, hproject, -⟩ := hs.file?_eq_some.mp hold
      exact ⟨.refl, hs.ownsFile hmem (hproject ▸ howns)⟩
    · exact hupsert rfl h
  · exact hupsert rfl h

/-- The rows of a run are written for the project that it is over. -/
theorem writes_add {projectId : Int} {p p' : Storing} (hs : p.store.Consistent)
    (howns : p.store.Owns root projectId) {merged : List Documented} {state : SourceState}
    (h : Storing.add projectId merged p state = .ok p') : p.store.Writes root p'.store := by
  rw [Storing.add] at h
  split at h
  · cases h
    exact .refl
  · split at h
    · cases h
    · rename_i row changed s₁ hput
      split at h
      · cases h
      · rename_i kept s₂ hsync
        cases h
        obtain ⟨hwrites, hfile⟩ := writes_storeSource hs howns hput
        exact hwrites.trans (writes_syncFunctions (hwrites.run hs).1 hfile hsync)

theorem writes_foldlM_add {projectId : Int} {merged : List Documented} {states : List SourceState}
    {p p' : Storing} (hs : p.store.Consistent) (howns : p.store.Owns root projectId)
    (h : states.foldlM (Storing.add projectId merged) p = .ok p') : p.store.Writes root p'.store := by
  induction states generalizing p with
  | nil =>
      cases h
      exact .refl
  | cons state states ih =>
      rw [List.foldlM_cons] at h
      cases hadd : Storing.add projectId merged p state with
      | error e =>
          rw [hadd] at h
          cases h
      | ok p₁ =>
          rw [hadd] at h
          have hwrites := writes_add hs howns hadd
          obtain ⟨hs₁, honward, -⟩ := hwrites.run hs
          exact hwrites.trans (ih hs₁ (honward.owns howns) h)

theorem writes_storeBatches {projectId : Int} {p : Storing} (hs : p.store.Consistent)
    (howns : p.store.Owns root projectId) (merged : List Documented) (parts : List (List SourceState)) :
    p.store.Writes root (storeBatches projectId merged p parts).2 := by
  induction parts generalizing p with
  | nil => exact .refl
  | cons part parts ih =>
      rw [storeBatches]
      cases hpart : part.foldlM (Storing.add projectId merged) p with
      | error e => exact .refl
      | ok p₁ =>
          have hwrites := writes_foldlM_add hs howns hpart
          obtain ⟨hs₁, honward, -⟩ := hwrites.run hs
          exact hwrites.trans (ih hs₁ (honward.owns howns))

/-- Stale files of a project are removed, or some of them. -/
theorem writes_deleteStale (hs : s.Consistent) {projectId : Int} (howns : s.Owns root projectId)
    {files : List FileRow} (hfiles : files ⊆ s.filesOf projectId) :
    s.Writes root (files.foldl (fun s f => s.deleteFile f.id) s) := by
  refine writes_foldl (c := fun f : FileRow => .deleteFile f.id) (fun _ _ => rfl) hs fun f hf => ?_
  obtain ⟨hmem, hproject⟩ := List.mem_filter.mp (List.mem_mergeSort.mp (hfiles hf))
  exact hs.ownsFile hmem (of_decide_eq_true hproject ▸ howns)

end

/-! ## Runs that break off -/

end Store

/-- The states of sources in the batches in which a run stores them. -/
def IndexOptions.batchesOf (options : IndexOptions) (states : List SourceState) : List (List SourceState) :=
  batches ((if options.batchSize ≤ 0 then defaultBatchSize else options.batchSize.toNat) - 1) states

namespace Store

/-- The files of a project that are not listed, in the order in which a run removes them. -/
def staleFiles (s : Store) (projectId : Int) (paths : List String) : List FileRow :=
  (s.filesOf projectId).filter fun f => !paths.contains f.path

/-- What a run over these paths has stored when it breaks off after so many batches and so many stale files. -/
def storedPart (s : Store) (supply : Anchors) (tree : Tree) (p : Project) (options : IndexOptions)
    (paths : List String) (stored removed : Nat) : Store :=
  let (states, supply) := SourceState.readAll tree p.root supply paths
  let merged := SourceFile.merged supply (SourceState.files states)
  let s := (storeBatches p.id merged { store := s } ((options.batchesOf states).take stored)).2
  ((s.staleFiles p.id paths).take removed).foldl (fun s f => s.deleteFile f.id) s

/-- What a run leaves that breaks off after so many batches and so many stale files, before it counts. So a run ends
when its context is cancelled. -/
def brokenOff (s : Store) (supply : Anchors) (tree : Tree) (root : String) (options : IndexOptions)
    (stored removed : Nat) : Store :=
  match s.getOrCreateProject (Path.fromTop root) with
  | .error _ => s
  | .ok (p, s) =>
    match options.paths tree p.root with
    | .error _ => s
    | .ok paths => s.storedPart supply tree p options paths stored removed

section

variable {s : Store} {p : Project} (supply : Anchors) (tree : Tree) (options : IndexOptions)

theorem writes_storedPart (hs : s.Consistent) (hp : p ∈ s.projects) (paths : List String) (stored removed : Nat) :
    s.Writes p.root (s.storedPart supply tree p options paths stored removed) := by
  obtain ⟨states, supply', hread⟩ := SourceState.exists_readAll tree p.root supply paths
  rw [storedPart, hread]
  have hbatches := writes_storeBatches (p := { store := s }) hs (hs.owns hp)
    (SourceFile.merged supply' (SourceState.files states)) ((options.batchesOf states).take stored)
  obtain ⟨hs₁, honward, -⟩ := hbatches.run hs
  refine hbatches.trans (writes_deleteStale hs₁ (honward.owns (hs.owns hp)) fun f hf => ?_)
  exact List.mem_of_mem_filter (List.mem_of_mem_take hf)

/-- A run that goes through is one that breaks off after everything, and counts. -/
theorem indexSources_eq_storedPart (hp : p ∈ s.projects) {paths : List String}
    (hpaths : options.paths tree p.root = .ok paths) :
    ∃ stored removed, (s.indexSources supply tree p options).store =
      (s.storedPart supply tree p options paths stored removed).updateCounts p := by
  obtain ⟨states, supply', hread⟩ := SourceState.exists_readAll tree p.root supply paths
  obtain ⟨done, hdone, -⟩ := HasProject.foldlM_add (p := { store := s }) ⟨p, hp, rfl⟩
    (SourceFile.merged supply' (SourceState.files states)) states
  have hbatches : storeBatches p.id (SourceFile.merged supply' (SourceState.files states)) { store := s }
      (options.batchesOf states) = (.ok done, done.store) := by
    refine storeBatches_eq ?_
    rw [IndexOptions.batchesOf, flatten_batches]
    exact hdone
  refine ⟨(options.batchesOf states).length, (done.store.staleFiles p.id paths).length, ?_⟩
  rw [indexSources_of_ok hpaths hread hdone, storedPart, hread]
  dsimp only
  rw [List.take_length, hbatches, List.take_length]
  rfl

theorem writes_indexSources (hs : s.Consistent) (hp : p ∈ s.projects) :
    s.Writes p.root (s.indexSources supply tree p options).store := by
  cases hpaths : options.paths tree p.root with
  | error e =>
      rw [indexSources_of_error hpaths]
      exact .refl
  | ok paths =>
      obtain ⟨stored, removed, hrun⟩ := indexSources_eq_storedPart supply tree options hp hpaths
      have hpart := writes_storedPart supply tree options hs hp paths stored removed
      obtain ⟨-, honward, -⟩ := hpart.run hs
      rw [hrun]
      have howns := honward.owns (hs.owns hp)
      exact hpart.step (c := .updateProject p.id p.name _ _ true) rfl howns

/-- The first thing that a run does is to see to the row of its project. -/
theorem writes_getOrCreateProject (s : Store) (root : String) :
    ∃ p s', s.getOrCreateProject root = .ok (p, s') ∧ p ∈ s'.projects ∧ p.root = root ∧ s.Writes root s' := by
  obtain ⟨p, hget, hp, hroot⟩ := s.getOrCreateProject_eq root
  refine ⟨p, s.withProject root, hget, hp, hroot, ?_⟩
  cases hold : s.project? root with
  | some old =>
      rw [withProject, hold]
      exact .refl
  | none =>
      rw [getOrCreateProject, hold] at hget
      have hcall := congrArg (Except.map Prod.snd) hget
      exact .step .refl (c := .createProject root (Path.base root) currentSchemaVersion) hcall rfl

variable (root : String)

theorem writes_indexProject (hs : s.Consistent) :
    s.Writes (Path.fromTop root) (s.indexProject supply tree root options).store := by
  obtain ⟨p, s₁, hget, hp, hroot, hwrites⟩ := s.writes_getOrCreateProject (Path.fromTop root)
  rw [indexProject, hget]
  exact hwrites.trans (hroot ▸ writes_indexSources supply tree options (hwrites.run hs).1 hp)

theorem writes_brokenOff (hs : s.Consistent) (stored removed : Nat) :
    s.Writes (Path.fromTop root) (s.brokenOff supply tree root options stored removed) := by
  obtain ⟨p, s₁, hget, hp, hroot, hwrites⟩ := s.writes_getOrCreateProject (Path.fromTop root)
  rw [brokenOff, hget]
  dsimp only
  cases options.paths tree p.root with
  | error e => exact hwrites
  | ok paths =>
      have hpart := writes_storedPart supply tree options (hwrites.run hs).1 hp paths stored removed
      exact hwrites.trans (hroot ▸ hpart)

end

end Store

/-! ## Histories -/

/-- What can happen to a store: a call, which may be refused, a run, or a run that breaks off. -/
inductive StoreStep where
  | call (c : StoreCall)
  | visit (v : Visit)
  | brokenOff (v : Visit) (stored removed : Nat)

namespace Store

def after (s : Store) : StoreStep → Store
  | .call c => (s.call c).toOption.getD s
  | .visit v => (s.visit v).store
  | .brokenOff v stored removed => s.brokenOff v.supply v.tree v.root v.options stored removed

/-- The store that steps lead to from an empty one. -/
def afterSteps (steps : List StoreStep) : Store := steps.foldl after {}

theorem Consistent.after {s : Store} (hs : s.Consistent) (step : StoreStep) : (s.after step).Consistent := by
  cases step with
  | call c =>
      obtain ⟨e, herror, -⟩ | ⟨s', hok, -, hcalled⟩ := s.call_cases c
      · rw [Store.after, herror]
        exact hs
      · rw [Store.after, hok]
        exact hs.called hcalled
  | visit v => exact ((writes_indexProject v.supply v.tree v.options v.root hs).run hs).1
  | brokenOff v stored removed =>
      exact ((writes_brokenOff v.supply v.tree v.options v.root hs stored removed).run hs).1

theorem consistent_afterSteps (steps : List StoreStep) : (afterSteps steps).Consistent := by
  induction steps using List.reverseRecOn with
  | nil => exact .empty
  | append_singleton steps step ih =>
      rw [afterSteps, List.foldl_append]
      exact ih.after step

end Store

/-- Projects are isolated. Whatever calls and runs have filled a store, a run on a root leaves the rows of all projects
with other roots as they are, with all their files and functions: whether it goes through, fails, is refused, or breaks
off after some batches and some stale files. -/
theorem Database.spares_indexProject (steps : List StoreStep) (transaction : Transaction) (closed : Bool)
    (lock : BuildLock) (supply : Anchors) (tree : Tree) (root : String) (options : IndexOptions) :
    let db : Database := { store := .afterSteps steps, transaction := transaction, closed := closed }
    db.store.Spares (Path.fromTop root) (db.indexProject lock supply tree root options).2.1.store ∧
      ∀ stored removed,
        db.store.Spares (Path.fromTop root) (db.store.brokenOff supply tree root options stored removed) := by
  intro db
  have hs : db.store.Consistent := Store.consistent_afterSteps steps
  refine ⟨?_, fun stored removed =>
    ((Store.writes_brokenOff supply tree options root hs stored removed).run hs).2.2⟩
  have hrefused := Store.Spares.refl db.store (Path.fromTop root)
  rw [indexProject]
  split
  · exact hrefused
  · split
    · exact hrefused
    · exact ((Store.writes_indexProject supply tree options root hs).run hs).2.2

end OverloadDocs
