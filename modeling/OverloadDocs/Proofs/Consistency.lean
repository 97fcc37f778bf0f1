import OverloadDocs.Proofs.Tables
import OverloadDocs.Store.Basic

/-!
Consistent stores. Each table has its identities and its places: a project stands at its root, a file at a
path of a project, a function at a key of a file. Every file has its project and every function its file. A
store is seen through what is found at its places, and each operation is described by what it changes there.
-/

namespace OverloadDocs

def FileRow.place (f : FileRow) : Int × String := (f.projectId, f.path)

def FunctionRow.place (r : FunctionRow) : Int × String := (r.fileId, r.key)

namespace Store

/-- The tables are in order, and no row is without the one it belongs to. -/
structure Consistent (s : Store) : Prop where
  projects : Keyed Project.id Project.root s.lastProject s.projects
  files : Keyed FileRow.id FileRow.place s.lastFile s.files
  functions : Keyed FunctionRow.id FunctionRow.place s.lastFunction s.functions
  fileParents : ∀ f ∈ s.files, ∃ p ∈ s.projects, p.id = f.projectId
  functionParents : ∀ r ∈ s.functions, ∃ f ∈ s.files, f.id = r.fileId
  plain : ∀ r ∈ s.functions, r.filePath = ""

theorem Consistent.empty : Consistent {} :=
  ⟨.empty, .empty, .empty, fun _ => nofun, fun _ => nofun, fun _ => nofun⟩

/-! ## What is found -/

def functionAt? (s : Store) (fileId : Int) (key : String) : Option FunctionRow :=
  s.functions.find? fun r => r.fileId = fileId ∧ r.key = key

/-- The function at a key of the file at a path of a project. -/
def functionIn? (s : Store) (projectId : Int) (path key : String) : Option FunctionRow :=
  (s.file? projectId path).bind fun f => s.functionAt? f.id key

theorem file?_eq (s : Store) (projectId : Int) (path : String) :
    s.file? projectId path = s.files.find? (·.place = (projectId, path)) := by
  simp only [file?, FileRow.place, Prod.mk.injEq]

theorem functionAt?_eq (s : Store) (fileId : Int) (key : String) :
    s.functionAt? fileId key = s.functions.find? (·.place = (fileId, key)) := by
  simp only [functionAt?, FunctionRow.place, Prod.mk.injEq]

namespace Consistent

variable {s : Store}

theorem project?_eq_some (hs : s.Consistent) {root : String} {p : Project} :
    s.project? root = some p ↔ p ∈ s.projects ∧ p.root = root :=
  hs.projects.find?_place

theorem file?_eq_some (hs : s.Consistent) {projectId : Int} {path : String} {f : FileRow} :
    s.file? projectId path = some f ↔ f ∈ s.files ∧ f.projectId = projectId ∧ f.path = path := by
  rw [file?_eq, hs.files.find?_place, FileRow.place, Prod.mk.injEq]

theorem fileById?_eq_some (hs : s.Consistent) {id : Int} {f : FileRow} :
    s.fileById? id = some f ↔ f ∈ s.files ∧ f.id = id :=
  hs.files.find?_id

theorem functionAt?_eq_some (hs : s.Consistent) {fileId : Int} {key : String} {r : FunctionRow} :
    s.functionAt? fileId key = some r ↔ r ∈ s.functions ∧ r.fileId = fileId ∧ r.key = key := by
  rw [functionAt?_eq, hs.functions.find?_place, FunctionRow.place, Prod.mk.injEq]

theorem functionIn?_eq_some (hs : s.Consistent) {projectId : Int} {path key : String} {r : FunctionRow} :
    s.functionIn? projectId path key = some r ↔
      ∃ f ∈ s.files, f.projectId = projectId ∧ f.path = path ∧ r ∈ s.functions ∧ r.fileId = f.id ∧
        r.key = key := by
  simp only [functionIn?, Option.bind_eq_some_iff, hs.file?_eq_some, hs.functionAt?_eq_some]
  constructor
  · rintro ⟨f, ⟨hf, hproject, hpath⟩, hr⟩
    exact ⟨f, hf, hproject, hpath, hr⟩
  · rintro ⟨f, hf, hproject, hpath, hr⟩
    exact ⟨f, ⟨hf, hproject, hpath⟩, hr⟩

end Consistent

/-! ## Projects -/

theorem Consistent.addProject {s : Store} (hs : s.Consistent) {p : Project} (hid : p.id = s.lastProject + 1)
    (hnew : ∀ q ∈ s.projects, q.root ≠ p.root) :
    Consistent { s with projects := s.projects ++ [p], lastProject := s.lastProject + 1 } :=
  { hs with
    projects := hs.projects.append hid hnew
    fileParents := fun f hf => by
      obtain ⟨q, hq, hproject⟩ := hs.fileParents f hf
      exact ⟨q, List.mem_append_left _ hq, hproject⟩ }

theorem Consistent.updateProject {s : Store} (hs : s.Consistent) (id : Int) (name : String)
    (totalFiles totalFunctions : Int) (indexed : Bool) :
    (s.updateProject id name totalFiles totalFunctions indexed).Consistent where
  projects := by
    refine hs.projects.map (fun q _ => ?_) (fun q _ => ?_)
    · split <;> rfl
    · split <;> rfl
  files := hs.files
  functions := hs.functions
  fileParents f hf := by
    obtain ⟨q, hq, hproject⟩ := hs.fileParents f hf
    refine ⟨_, List.mem_map_of_mem hq, ?_⟩
    split
    · exact hproject
    · exact hproject
  functionParents := hs.functionParents
  plain := hs.plain

/-! ## Removing -/

/-- Rows may be removed as long as the functions of a file go with it. -/
theorem Consistent.filter {s : Store} (hs : s.Consistent) (keepFile : FileRow → Bool)
    (keepFunction : FunctionRow → Bool)
    (hkeep : ∀ f ∈ s.files, ∀ r ∈ s.functions, r.fileId = f.id → keepFunction r = true → keepFile f = true) :
    Consistent { s with files := s.files.filter keepFile, functions := s.functions.filter keepFunction } where
  projects := hs.projects
  files := hs.files.filter keepFile
  functions := hs.functions.filter keepFunction
  fileParents f hf := hs.fileParents f (List.mem_of_mem_filter hf)
  functionParents r hr := by
    obtain ⟨hr, hkept⟩ := List.mem_filter.mp hr
    obtain ⟨f, hf, hid⟩ := hs.functionParents r hr
    exact ⟨f, List.mem_filter.mpr ⟨hf, hkeep f hf r hr hid.symm hkept⟩, hid⟩
  plain r hr := hs.plain r (List.mem_of_mem_filter hr)

theorem Consistent.filterFunctions {s : Store} (hs : s.Consistent) (keep : FunctionRow → Bool) :
    Consistent { s with functions := s.functions.filter keep } := by
  have h := hs.filter (fun _ => true) keep fun _ _ _ _ _ _ => rfl
  rwa [List.filter_eq_self.mpr fun _ _ => rfl] at h

def withoutFiles (s : Store) (ids : List Int) : Store :=
  { s with
    files := s.files.filter fun f => !ids.contains f.id
    functions := s.functions.filter fun r => !ids.contains r.fileId }

def withoutFunctions (s : Store) (ids : List Int) : Store :=
  { s with functions := s.functions.filter fun r => !ids.contains r.id }

theorem foldl_deleteFile (s : Store) (files : List FileRow) :
    files.foldl (fun s f => s.deleteFile f.id) s = s.withoutFiles (files.map (·.id)) := by
  induction files generalizing s with
  | nil => simp [withoutFiles]
  | cons f files ih =>
      rw [List.foldl_cons, ih]
      simp only [withoutFiles, deleteFile, List.filter_filter, List.map_cons, List.contains_cons]
      congr 1 <;> refine List.filter_congr fun r _ => ?_
      · by_cases h : r.id = f.id <;> simp [h]
      · by_cases h : r.fileId = f.id <;> simp [h]

theorem foldl_deleteFunction (s : Store) (rows : List FunctionRow) :
    rows.foldl (fun s r => s.deleteFunction r.id) s = s.withoutFunctions (rows.map (·.id)) := by
  induction rows generalizing s with
  | nil => simp [withoutFunctions]
  | cons r rows ih =>
      rw [List.foldl_cons, ih]
      simp only [withoutFunctions, deleteFunction, List.filter_filter, List.map_cons, List.contains_cons]
      congr 1
      refine List.filter_congr fun r' _ => ?_
      by_cases h : r'.id = r.id <;> simp [h]

theorem Consistent.withoutFiles {s : Store} (hs : s.Consistent) (ids : List Int) :
    (s.withoutFiles ids).Consistent :=
  hs.filter _ _ fun f _ r _ hid hkept => by rw [← hid]; exact hkept

theorem Consistent.withoutFunctions {s : Store} (hs : s.Consistent) (ids : List Int) :
    (s.withoutFunctions ids).Consistent :=
  hs.filterFunctions _

theorem Consistent.file?_withoutFiles {s : Store} (hs : s.Consistent) (ids : List Int) (projectId : Int)
    (path : String) :
    (s.withoutFiles ids).file? projectId path = (s.file? projectId path).filter (!ids.contains ·.id) := by
  rw [file?_eq, file?_eq]
  exact find?_filter_key hs.files.places _ _

theorem Consistent.functionAt?_withoutFunctions {s : Store} (hs : s.Consistent) (ids : List Int)
    (fileId : Int) (key : String) :
    (s.withoutFunctions ids).functionAt? fileId key =
      (s.functionAt? fileId key).filter (!ids.contains ·.id) := by
  rw [functionAt?_eq, functionAt?_eq]
  exact find?_filter_key hs.functions.places _ _

/-- The functions of a file that stays are left alone. -/
theorem Consistent.functionAt?_withoutFiles {s : Store} (hs : s.Consistent) {ids : List Int}
    {fileId : Int} (hid : fileId ∉ ids) (key : String) :
    (s.withoutFiles ids).functionAt? fileId key = s.functionAt? fileId key := by
  have hfind : (s.withoutFiles ids).functionAt? fileId key =
      (s.functionAt? fileId key).filter (!ids.contains ·.fileId) := by
    rw [functionAt?_eq, functionAt?_eq]
    exact find?_filter_key hs.functions.places _ _
  rw [hfind]
  cases hr : s.functionAt? fileId key with
  | none =>
      rfl
  | some r =>
      have hfile := (hs.functionAt?_eq_some.mp hr).2.1
      rw [Option.filter_some, if_pos (by simp [hfile, hid])]

/-! ## Putting -/

def HasProject (s : Store) (id : Int) : Prop := ∃ p ∈ s.projects, p.id = id

def HasFile (s : Store) (id : Int) : Prop := ∃ f ∈ s.files, f.id = id

theorem HasProject.isNone_eq_false {s : Store} {id : Int} (h : s.HasProject id) :
    (s.projectById? id).isNone = false := by
  obtain ⟨p, hp, rfl⟩ := h
  cases hfind : s.projectById? p.id with
  | none => exact absurd rfl (find?_key_eq_none.mp hfind p hp)
  | some q => rfl

theorem HasFile.isNone_eq_false {s : Store} {id : Int} (h : s.HasFile id) :
    (s.fileById? id).isNone = false := by
  obtain ⟨f, hf, rfl⟩ := h
  cases hfind : s.fileById? f.id with
  | none => exact absurd rfl (find?_key_eq_none.mp hfind f hf)
  | some g => rfl

def addFile (s : Store) (file : FileRow) : Store :=
  { s with files := s.files ++ [{ file with id := s.lastFile + 1 }], lastFile := s.lastFile + 1 }

/-- The store with a file in place of an old row. -/
def changeFile (s : Store) (file old : FileRow) : Store :=
  { s with
    files := s.files.map fun f => if f.id = old.id then { file with id := old.id } else f
    lastFile := s.lastFile + 1 }

def addFunction (s : Store) (function : FunctionRow) : Store :=
  { s with
    functions := s.functions ++ [{ function with id := s.lastFunction + 1, filePath := "" }]
    lastFunction := s.lastFunction + 1 }

/-- The store with a function in place of an old row. -/
def changeFunction (s : Store) (function old : FunctionRow) : Store :=
  { s with
    functions := s.functions.map fun f =>
      if f.id = old.id then { function with id := old.id, anchor := old.anchor, filePath := "" } else f
    lastFunction := s.lastFunction + 1 }

theorem HasProject.upsertFile_of_none {s : Store} {file : FileRow} (h : s.HasProject file.projectId)
    (hold : s.file? file.projectId file.path = none) :
    s.upsertFile file = .ok ({ file with id := s.lastFile + 1 }, s.addFile file) := by
  rw [Store.upsertFile, h.isNone_eq_false, hold]
  rfl

theorem HasProject.upsertFile_of_some {s : Store} {file old : FileRow} (h : s.HasProject file.projectId)
    (hold : s.file? file.projectId file.path = some old) :
    s.upsertFile file = .ok ({ file with id := old.id }, s.changeFile file old) := by
  rw [Store.upsertFile, h.isNone_eq_false, hold]
  rfl

theorem HasFile.upsertFunction_of_none {s : Store} {function : FunctionRow} (h : s.HasFile function.fileId)
    (hold : s.functionAt? function.fileId function.key = none) :
    s.upsertFunction function =
      .ok ({ function with id := s.lastFunction + 1, filePath := "" }, s.addFunction function) := by
  rw [functionAt?] at hold
  rw [Store.upsertFunction, h.isNone_eq_false, hold]
  rfl

theorem HasFile.upsertFunction_of_some {s : Store} {function old : FunctionRow} (h : s.HasFile function.fileId)
    (hold : s.functionAt? function.fileId function.key = some old) :
    s.upsertFunction function =
      .ok ({ function with id := old.id, anchor := old.anchor, filePath := "" },
        s.changeFunction function old) := by
  rw [functionAt?] at hold
  rw [Store.upsertFunction, h.isNone_eq_false, hold]
  rfl

section

variable {s : Store}

/-- What becomes of a store when a file is put at its place as a row. -/
structure FilePut (s : Store) (file row : FileRow) (s' : Store) : Prop where
  consistent : s'.Consistent
  projects : s'.projects = s.projects
  functions : s'.functions = s.functions
  content : row = { file with id := row.id }
  kept : ∀ old, s.file? file.projectId file.path = some old → row.id = old.id
  file? : ∀ projectId path, s'.file? projectId path =
    if projectId = file.projectId ∧ path = file.path then some row else s.file? projectId path

theorem Consistent.addFile (hs : s.Consistent) {file : FileRow} (hproject : s.HasProject file.projectId)
    (hold : s.file? file.projectId file.path = none) :
    FilePut s file { file with id := s.lastFile + 1 } (s.addFile file) := by
  let row : FileRow := { file with id := s.lastFile + 1 }
  have hnew : ∀ f ∈ s.files, f.place ≠ row.place := by
    rw [file?_eq] at hold
    exact find?_key_eq_none.mp hold
  refine ⟨{ hs with files := hs.files.append rfl hnew, fileParents := ?_, functionParents := ?_ },
    rfl, rfl, rfl, fun old h => ?_, fun projectId path => ?_⟩
  · intro f hf
    rcases List.mem_append.mp hf with hf | hf
    · exact hs.fileParents f hf
    · rw [List.mem_singleton.mp hf]
      exact hproject
  · intro r hr
    obtain ⟨f, hf, hid⟩ := hs.functionParents r hr
    exact ⟨f, List.mem_append_left _ hf, hid⟩
  · rw [hold] at h
    cases h
  · have hfind := Keyed.find?_append hnew (projectId, path)
    rw [Store.addFile, file?_eq, file?_eq, hfind]
    simp only [FileRow.place, Prod.mk.injEq, row]

theorem Consistent.changeFile (hs : s.Consistent) {file old : FileRow} (hproject : s.HasProject file.projectId)
    (hold : s.file? file.projectId file.path = some old) :
    FilePut s file { file with id := old.id } (s.changeFile file old) := by
  obtain ⟨hmem, hpid, hpath⟩ := hs.file?_eq_some.mp hold
  let row : FileRow := { file with id := old.id }
  have hplace : row.place = old.place := by simp only [FileRow.place, hpid, hpath, row]
  refine ⟨{ hs with
    files := (hs.files.replace hmem row rfl hplace).skip, fileParents := ?_, functionParents := ?_ },
    rfl, rfl, rfl, fun old' h => ?_, fun projectId path => ?_⟩
  · intro f hf
    rcases (hs.files.mem_replace hmem).mp hf with rfl | ⟨hf, -⟩
    · exact hproject
    · exact hs.fileParents f hf
  · intro r hr
    obtain ⟨f, hf, hid⟩ := hs.functionParents r hr
    by_cases heq : f = old
    · exact ⟨row, (hs.files.mem_replace hmem).mpr (.inl rfl), by rw [← hid, heq]⟩
    · exact ⟨f, (hs.files.mem_replace hmem).mpr (.inr ⟨hf, heq⟩), hid⟩
  · rw [hold] at h
    rw [← Option.some.inj h]
  · have hfind := hs.files.find?_replace hmem row rfl hplace (projectId, path)
    rw [Store.changeFile, file?_eq, file?_eq, hfind]
    simp only [FileRow.place, Prod.mk.injEq, row]

theorem Consistent.upsertFile (hs : s.Consistent) (file : FileRow) (hproject : s.HasProject file.projectId) :
    ∃ row s', s.upsertFile file = .ok (row, s') ∧ FilePut s file row s' := by
  cases hold : s.file? file.projectId file.path with
  | none => exact ⟨_, _, hproject.upsertFile_of_none hold, hs.addFile hproject hold⟩
  | some old => exact ⟨_, _, hproject.upsertFile_of_some hold, hs.changeFile hproject hold⟩

/-- What becomes of a store when a function is put at its place as a row. -/
structure FunctionPut (s : Store) (function row : FunctionRow) (s' : Store) : Prop where
  consistent : s'.Consistent
  projects : s'.projects = s.projects
  files : s'.files = s.files
  content : row = { function with id := row.id, anchor := row.anchor, filePath := "" }
  kept : ∀ old, s.functionAt? function.fileId function.key = some old →
    row.id = old.id ∧ row.anchor = old.anchor
  fresh : s.functionAt? function.fileId function.key = none → row.anchor = function.anchor
  functionAt? : ∀ fileId key, s'.functionAt? fileId key =
    if fileId = function.fileId ∧ key = function.key then some row else s.functionAt? fileId key

theorem Consistent.addFunction (hs : s.Consistent) {function : FunctionRow} (hfile : s.HasFile function.fileId)
    (hold : s.functionAt? function.fileId function.key = none) :
    FunctionPut s function { function with id := s.lastFunction + 1, filePath := "" } (s.addFunction function) := by
  let row : FunctionRow := { function with id := s.lastFunction + 1, filePath := "" }
  have hnew : ∀ r ∈ s.functions, r.place ≠ row.place := by
    rw [functionAt?_eq] at hold
    exact find?_key_eq_none.mp hold
  refine ⟨{ hs with functions := hs.functions.append rfl hnew, functionParents := ?_, plain := ?_ },
    rfl, rfl, rfl, fun old h => ?_, fun _ => rfl, fun fileId key => ?_⟩
  · intro r hr
    rcases List.mem_append.mp hr with hr | hr
    · exact hs.functionParents r hr
    · rw [List.mem_singleton.mp hr]
      exact hfile
  · intro r hr
    rcases List.mem_append.mp hr with hr | hr
    · exact hs.plain r hr
    · rw [List.mem_singleton.mp hr]
  · rw [hold] at h
    cases h
  · have hfind := Keyed.find?_append hnew (fileId, key)
    rw [Store.addFunction, functionAt?_eq, functionAt?_eq, hfind]
    simp only [FunctionRow.place, Prod.mk.injEq, row]

theorem Consistent.changeFunction (hs : s.Consistent) {function old : FunctionRow}
    (hfile : s.HasFile function.fileId) (hold : s.functionAt? function.fileId function.key = some old) :
    FunctionPut s function { function with id := old.id, anchor := old.anchor, filePath := "" }
      (s.changeFunction function old) := by
  obtain ⟨hmem, hid, hkey⟩ := hs.functionAt?_eq_some.mp hold
  let row : FunctionRow := { function with id := old.id, anchor := old.anchor, filePath := "" }
  have hplace : row.place = old.place := by simp only [FunctionRow.place, hid, hkey, row]
  refine ⟨{ hs with
    functions := (hs.functions.replace hmem row rfl hplace).skip, functionParents := ?_, plain := ?_ },
    rfl, rfl, rfl, fun old' h => ?_, fun h => ?_, fun fileId key => ?_⟩
  · intro r hr
    rcases (hs.functions.mem_replace hmem).mp hr with rfl | ⟨hr, -⟩
    · exact hfile
    · exact hs.functionParents r hr
  · intro r hr
    rcases (hs.functions.mem_replace hmem).mp hr with rfl | ⟨hr, -⟩
    · rfl
    · exact hs.plain r hr
  · rw [hold] at h
    rw [← Option.some.inj h]
    exact ⟨rfl, rfl⟩
  · rw [hold] at h
    cases h
  · have hfind := hs.functions.find?_replace hmem row rfl hplace (fileId, key)
    rw [Store.changeFunction, functionAt?_eq, functionAt?_eq, hfind]
    simp only [FunctionRow.place, Prod.mk.injEq, row]

theorem Consistent.upsertFunction (hs : s.Consistent) (function : FunctionRow)
    (hfile : s.HasFile function.fileId) :
    ∃ row s', s.upsertFunction function = .ok (row, s') ∧ FunctionPut s function row s' := by
  cases hold : s.functionAt? function.fileId function.key with
  | none => exact ⟨_, _, hfile.upsertFunction_of_none hold, hs.addFunction hfile hold⟩
  | some old => exact ⟨_, _, hfile.upsertFunction_of_some hold, hs.changeFunction hfile hold⟩

end

end Store

end OverloadDocs
