import OverloadDocs.ProjectIndex
import OverloadDocs.Proofs.Consistency

/-!
Storing sources. In a consistent store nothing that belongs together is missing, so storing a source does not
fail, and it changes only what stands at the path of the source: the row of the file, and the functions of the
file, which become the ones given. A function that was there before keeps its identity and its anchor.
-/

namespace OverloadDocs

namespace Documented

def withAnchor (f : Documented) (anchor : String) : Documented :=
  { f with signature := { f.signature with anchor := anchor } }

/-- A function as it is stored over the row found in its place: with the anchor of that row. -/
def keeping (f : Documented) (before : Option FunctionRow) : Documented :=
  f.withAnchor ((before.map (·.anchor)).getD f.signature.anchor)

end Documented

/-- A row that a function has been stored as, over the row found in its place. -/
structure FunctionRow.Stores (row : FunctionRow) (f : Documented) (before : Option FunctionRow) : Prop where
  content : row = { FunctionRow.ofDocumented (f.keeping before) row.fileId with id := row.id }
  identity : ∀ old ∈ before, row.id = old.id

namespace Store

@[simp]
theorem mem_listed {s : Store} {rows : List FunctionRow} {r : FunctionRow} :
    r ∈ s.listed rows ↔ ∃ row ∈ rows, s.withPath row = r := by
  rw [listed, List.mem_map]
  simp only [List.mem_mergeSort]

/-- Functions of a file as they are stored over what is there. -/
def keptIn (s : Store) (fileId : Int) (fs : List Documented) : List Documented :=
  fs.map fun f => f.keeping (s.functionAt? fileId f.signature.key)

/-- What becomes of a store when functions are put into a file. -/
structure AllPut (s : Store) (fileId : Int) (fs : List Documented) (s' : Store) : Prop where
  consistent : s'.Consistent
  projects : s'.projects = s.projects
  files : s'.files = s.files
  holds : ∀ f ∈ fs, ∃ row, s'.functionAt? fileId f.signature.key = some row ∧
    row.Stores f (s.functionAt? fileId f.signature.key)
  others : ∀ id key, (id = fileId → key ∉ fs.map (·.signature.key)) →
    s'.functionAt? id key = s.functionAt? id key

theorem Consistent.upsertAll {s : Store} (hs : s.Consistent) {fileId : Int}
    (hfile : ∃ f ∈ s.files, f.id = fileId) {fs : List Documented}
    (hkeys : (fs.map (·.signature.key)).Nodup) :
    ∃ s', s.upsertAll fileId fs = .ok (s.keptIn fileId fs, s') ∧ s.AllPut fileId fs s' := by
  induction fs generalizing s with
  | nil =>
      exact ⟨s, rfl, hs, rfl, rfl, fun _ => nofun, fun _ _ _ => rfl⟩
  | cons f fs ih =>
      rw [List.map_cons, List.nodup_cons] at hkeys
      obtain ⟨row, s₁, hput, h₁⟩ := hs.upsertFunction (FunctionRow.ofDocumented f fileId) hfile
      obtain ⟨s₂, hrest, h₂⟩ := ih h₁.consistent (h₁.files ▸ hfile) hkeys.2
      have hat : ∀ g ∈ fs,
          s₁.functionAt? fileId g.signature.key = s.functionAt? fileId g.signature.key := by
        intro g hg
        rw [h₁.functionAt?, if_neg]
        rintro ⟨-, hkey⟩
        exact hkeys.1 (List.mem_map.mpr ⟨g, hg, hkey⟩)
      have hkept : s₁.keptIn fileId fs = s.keptIn fileId fs :=
        List.map_congr_left fun g hg => by rw [hat g hg]
      have hanchor : f.withAnchor row.anchor = f.keeping (s.functionAt? fileId f.signature.key) := by
        rw [Documented.keeping]
        congr 1
        cases hold : s.functionAt? fileId f.signature.key with
        | none =>
            exact h₁.fresh hold
        | some old =>
            exact (h₁.kept old hold).2
      refine ⟨s₂, ?_, h₂.consistent, h₂.projects.trans h₁.projects, h₂.files.trans h₁.files, ?_, ?_⟩
      · rw [Store.upsertAll, hput]
        dsimp only
        rw [hrest]
        dsimp only
        rw [hkept, keptIn, keptIn, List.map_cons, ← hanchor]
        rfl
      · intro g hg
        rcases List.mem_cons.mp hg with rfl | hg
        · refine ⟨row, ?_, ?_, fun old hold => (h₁.kept old hold).1⟩
          · rw [h₂.others _ _ (fun _ => hkeys.1), h₁.functionAt?, if_pos ⟨rfl, rfl⟩]
          · have hfile : row.fileId = fileId := congrArg FunctionRow.fileId h₁.content
            rw [← hanchor, hfile]
            exact h₁.content
        · rw [← hat g hg]
          exact h₂.holds g hg
      · intro id key hkey
        rw [List.map_cons] at hkey
        rw [h₂.others id key fun hid hmem => hkey hid (List.mem_cons_of_mem _ hmem), h₁.functionAt?, if_neg]
        rintro ⟨hid, rfl⟩
        exact hkey hid List.mem_cons_self

/-- The identities of the functions of a file that are not among those given. -/
def leftoverIds (s : Store) (fileId : Int) (fs : List Documented) : List Int :=
  ((s.functionsOfFile fileId).filter fun row => !(fs.map (·.signature.key)).contains row.key).map (·.id)

theorem mem_leftoverIds {s : Store} {fileId : Int} {fs : List Documented} {id : Int} :
    id ∈ s.leftoverIds fileId fs ↔ ∃ old ∈ s.functions, old.fileId = fileId ∧
      old.key ∉ fs.map (·.signature.key) ∧ old.id = id := by
  simp only [leftoverIds, functionsOfFile, List.mem_map, List.mem_filter, mem_listed]
  constructor
  · rintro ⟨_, ⟨⟨old, ⟨hold, hfile⟩, rfl⟩, hkey⟩, rfl⟩
    exact ⟨old, hold, by simpa using hfile, by simpa [withPath] using hkey, rfl⟩
  · rintro ⟨old, hold, hfile, hkey, rfl⟩
    exact ⟨_, ⟨⟨old, ⟨hold, by simpa using hfile⟩, rfl⟩, by simpa [withPath] using hkey⟩, rfl⟩

namespace AllPut

variable {s s' : Store} {fileId : Int} {fs : List Documented}

/-- Rows with keys that are not put are the same before and after. -/
theorem mem_functions_iff (h : s.AllPut fileId fs s') (hs : s.Consistent) {row : FunctionRow}
    (hkey : row.key ∉ fs.map (·.signature.key)) : row ∈ s'.functions ↔ row ∈ s.functions := by
  have hfind := h.others row.fileId row.key fun _ => hkey
  constructor
  · intro hrow
    rw [h.consistent.functionAt?_eq_some.mpr ⟨hrow, rfl, rfl⟩] at hfind
    exact (hs.functionAt?_eq_some.mp hfind.symm).1
  · intro hrow
    rw [hs.functionAt?_eq_some.mpr ⟨hrow, rfl, rfl⟩] at hfind
    exact (h.consistent.functionAt?_eq_some.mp hfind).1

-- Leftovers are listed before the functions are put, so an identity has to be traced to the same row after.
theorem mem_leftoverIds_iff (h : s.AllPut fileId fs s') (hs : s.Consistent) {row : FunctionRow}
    (hrow : row ∈ s'.functions) :
    row.id ∈ s.leftoverIds fileId fs ↔ row.fileId = fileId ∧ row.key ∉ fs.map (·.signature.key) := by
  rw [mem_leftoverIds]
  constructor
  · rintro ⟨old, hold, hfile, hkey, hid⟩
    have hsame : old = row :=
      h.consistent.functions.eq_of_id ((h.mem_functions_iff hs hkey).mpr hold) hrow hid
    exact hsame ▸ ⟨hfile, hkey⟩
  · rintro ⟨hfile, hkey⟩
    exact ⟨row, (h.mem_functions_iff hs hkey).mp hrow, hfile, hkey, rfl⟩

theorem functionAt?_withoutLeftovers (h : s.AllPut fileId fs s') (hs : s.Consistent) (id : Int)
    (key : String) :
    (s'.withoutFunctions (s.leftoverIds fileId fs)).functionAt? id key =
      if id = fileId ∧ key ∉ fs.map (·.signature.key) then none else s'.functionAt? id key := by
  rw [h.consistent.functionAt?_withoutFunctions]
  cases hrow : s'.functionAt? id key with
  | none =>
      rw [Option.filter_none, ite_self]
  | some row =>
      obtain ⟨hmem, rfl, rfl⟩ := h.consistent.functionAt?_eq_some.mp hrow
      have hleft := h.mem_leftoverIds_iff hs hmem
      by_cases hgone : row.fileId = fileId ∧ row.key ∉ fs.map (·.signature.key)
      · rw [if_pos hgone, Option.filter_some, if_neg (by simpa using hleft.mpr hgone)]
      · rw [if_neg hgone, Option.filter_some, if_pos (by simpa using mt hleft.mp hgone)]

end AllPut

/-- What becomes of a store when the functions of a file are made those given. -/
structure Synced (s : Store) (fileId : Int) (fs : List Documented) (s' : Store) : Prop where
  consistent : s'.Consistent
  projects : s'.projects = s.projects
  files : s'.files = s.files
  holds : ∀ f ∈ fs, ∃ row, s'.functionAt? fileId f.signature.key = some row ∧
    row.Stores f (s.functionAt? fileId f.signature.key)
  gone : ∀ key, key ∉ fs.map (·.signature.key) → s'.functionAt? fileId key = none
  others : ∀ id key, id ≠ fileId → s'.functionAt? id key = s.functionAt? id key

theorem Consistent.syncFunctions {s : Store} (hs : s.Consistent) {fileId : Int}
    (hfile : ∃ f ∈ s.files, f.id = fileId) {fs : List Documented}
    (hkeys : (fs.map (·.signature.key)).Nodup) :
    ∃ s', s.syncFunctions fileId fs = .ok (s.keptIn fileId fs, s') ∧ s.Synced fileId fs s' := by
  obtain ⟨s₁, hput, h₁⟩ := hs.upsertAll hfile hkeys
  have hkept : (s.keptIn fileId fs).map (·.signature.key) = fs.map (·.signature.key) := by
    rw [keptIn, List.map_map]
    rfl
  have hfind := h₁.functionAt?_withoutLeftovers hs
  refine ⟨s₁.withoutFunctions (s.leftoverIds fileId fs), ?_, h₁.consistent.withoutFunctions _, h₁.projects,
    h₁.files, ?_, ?_, ?_⟩
  · rw [Store.syncFunctions, hput]
    dsimp only
    rw [foldl_deleteFunction, hkept]
    rfl
  · intro f hf
    rw [hfind, if_neg fun hgone => hgone.2 (List.mem_map_of_mem hf)]
    exact h₁.holds f hf
  · intro key hkey
    rw [hfind, if_pos ⟨rfl, hkey⟩]
  · intro id key hid
    rw [hfind, if_neg fun hgone => hid hgone.1, h₁.others id key (fun h => absurd h hid)]

/-! ## One source -/

end Store

/-- A row that a source has been stored as, over the row found at its path: that row if it has the digest
of the source already, and otherwise a new content under its identity. -/
structure FileRow.Stores (row : FileRow) (source : SourceFile) (before : Option FileRow) : Prop where
  hash : row.hash = Digest.ofText source.text
  content : row ∈ before ∨
    row.size = source.text.utf8ByteSize ∧
      row.parseError = source.build.result.errors.head?.map (·.message)
  identity : ∀ old ∈ before, row.id = old.id

namespace Store

/-- What becomes of a store when a source is stored without its functions. -/
structure SourcePut (s : Store) (projectId : Int) (source : SourceFile) (row : FileRow) (s' : Store) :
    Prop where
  consistent : s'.Consistent
  projects : s'.projects = s.projects
  functions : s'.functions = s.functions
  stores : row.Stores source (s.file? projectId source.path)
  file? : ∀ pid path, s'.file? pid path =
    if pid = projectId ∧ path = source.path then some row else s.file? pid path

theorem Consistent.storeSource {s : Store} (hs : s.Consistent) {projectId : Int}
    (hproject : ∃ p ∈ s.projects, p.id = projectId) (source : SourceFile) :
    ∃ row changed s', s.storeSource projectId source = .ok (row, changed, s') ∧
      SourcePut s projectId source row s' := by
  let file : FileRow :=
    { projectId := projectId
      path := source.path
      hash := Digest.ofText source.text
      size := source.text.utf8ByteSize
      parseError := source.build.result.errors.head?.map (·.message) }
  obtain ⟨row, s', hput, h⟩ := hs.upsertFile file hproject
  have hspec : SourcePut s projectId source row s' := by
    refine ⟨h.consistent, h.projects, h.functions, ⟨?_, .inr ⟨?_, ?_⟩, h.kept⟩, h.file?⟩
    · exact congrArg FileRow.hash h.content
    · exact congrArg FileRow.size h.content
    · exact congrArg FileRow.parseError h.content
  have hmap : (s.upsertFile file).map (fun put => (put.1, true, put.2)) = .ok (row, true, s') := by
    rw [hput]
    rfl
  cases hold : s.file? projectId source.path with
  | none =>
      refine ⟨row, true, s', ?_, hspec⟩
      rw [Store.storeSource, hold]
      exact hmap
  | some old =>
      by_cases hhash : old.hash = Digest.ofText source.text
      · refine ⟨old, false, s, ?_, hs, rfl, rfl, ⟨hhash, .inl hold, fun old' h => ?_⟩, fun pid path => ?_⟩
        · rw [Store.storeSource, hold]
          exact if_pos hhash
        · rw [hold] at h
          rw [Option.mem_some.mp h]
        · split
          · rename_i heq
            rw [heq.1, heq.2, hold]
          · rfl
      · refine ⟨row, true, s', ?_, hspec⟩
        rw [Store.storeSource, hold]
        exact (if_neg hhash).trans hmap

/-- Functions of a file of a project as they are stored over what is there. -/
def keptAt (s : Store) (projectId : Int) (path : String) (fs : List Documented) : List Documented :=
  fs.map fun f => f.keeping (s.functionIn? projectId path f.signature.key)

/-- What becomes of a store when a source is stored with its functions. -/
structure SourceStored (s : Store) (projectId : Int) (source : SourceFile) (fs : List Documented)
    (s' : Store) : Prop where
  consistent : s'.Consistent
  projects : s'.projects = s.projects
  file : ∃ row, s'.file? projectId source.path = some row ∧
    row.Stores source (s.file? projectId source.path)
  holds : ∀ f ∈ fs, ∃ row, s'.functionIn? projectId source.path f.signature.key = some row ∧
    row.Stores f (s.functionIn? projectId source.path f.signature.key)
  gone : ∀ key, key ∉ fs.map (·.signature.key) → s'.functionIn? projectId source.path key = none
  otherFiles : ∀ pid path, ¬(pid = projectId ∧ path = source.path) → s'.file? pid path = s.file? pid path
  otherFunctions : ∀ pid path key, ¬(pid = projectId ∧ path = source.path) →
    s'.functionIn? pid path key = s.functionIn? pid path key

/-- The functions of a stored file are those that the earlier store has at its path. -/
theorem SourcePut.functionAt? {s : Store} (hs : s.Consistent) {projectId : Int} {source : SourceFile}
    {row : FileRow} {s' : Store} (h : SourcePut s projectId source row s') (key : String) :
    s'.functionAt? row.id key = s.functionIn? projectId source.path key := by
  have hat : s'.functionAt? row.id key = s.functionAt? row.id key := by
    rw [Store.functionAt?, Store.functionAt?, h.functions]
  rw [hat, functionIn?]
  cases hold : s.file? projectId source.path with
  | some old =>
      rw [h.stores.identity old hold]
      rfl
  | none =>
      -- An identity that no file had is that of no function's file.
      refine Option.eq_none_iff_forall_ne_some.mpr fun r hr => ?_
      obtain ⟨hmem, hid, -⟩ := hs.functionAt?_eq_some.mp hr
      obtain ⟨f, hf, hparent⟩ := hs.functionParents r hmem
      have hrow := h.file? projectId source.path
      rw [if_pos ⟨rfl, rfl⟩] at hrow
      have hne : ¬(f.projectId = projectId ∧ f.path = source.path) := by
        rintro ⟨hproject, hpath⟩
        rw [hs.file?_eq_some.mpr ⟨hf, hproject, hpath⟩] at hold
        cases hold
      have hf' := h.file? f.projectId f.path
      rw [if_neg hne, hs.file?_eq_some.mpr ⟨hf, rfl, rfl⟩] at hf'
      obtain ⟨hmem', hproject, hpath⟩ := h.consistent.file?_eq_some.mp hrow
      have heq := h.consistent.files.eq_of_id (h.consistent.file?_eq_some.mp hf').1 hmem'
        (hparent.trans hid)
      exact hne ⟨heq ▸ hproject, heq ▸ hpath⟩

theorem Consistent.storeWithFunctions {s : Store} (hs : s.Consistent) {projectId : Int}
    (hproject : ∃ p ∈ s.projects, p.id = projectId) (source : SourceFile) {fs : List Documented}
    (hkeys : (fs.map (·.signature.key)).Nodup) :
    ∃ row changed s₁ s', s.storeSource projectId source = .ok (row, changed, s₁) ∧
      s₁.syncFunctions row.id fs = .ok (s.keptAt projectId source.path fs, s') ∧
      SourceStored s projectId source fs s' := by
  obtain ⟨row, changed, s₁, hput, h₁⟩ := hs.storeSource hproject source
  have hrow := h₁.file? projectId source.path
  rw [if_pos ⟨rfl, rfl⟩] at hrow
  have hmem := (h₁.consistent.file?_eq_some.mp hrow).1
  obtain ⟨s', hsync, h'⟩ := h₁.consistent.syncFunctions ⟨row, hmem, rfl⟩ hkeys
  have hat := h₁.functionAt? hs
  have hkept : s₁.keptIn row.id fs = s.keptAt projectId source.path fs :=
    List.map_congr_left fun f _ => by rw [hat]
  have hfile : ∀ pid path, s'.file? pid path = s₁.file? pid path := by
    intro pid path
    rw [file?_eq, file?_eq, h'.files]
  have hin : ∀ key, s'.functionIn? projectId source.path key = s'.functionAt? row.id key := by
    intro key
    rw [functionIn?, hfile, hrow, Option.bind_some]
  refine ⟨row, changed, s₁, s', hput, hkept ▸ hsync, h'.consistent, h'.projects.trans h₁.projects,
    ⟨row, (hfile _ _).trans hrow, h₁.stores⟩, ?_, ?_, ?_, ?_⟩
  · intro f hf
    rw [hin, ← hat]
    exact h'.holds f hf
  · intro key hkey
    rw [hin]
    exact h'.gone key hkey
  · intro pid path hne
    rw [hfile, h₁.file?, if_neg hne]
  · intro pid path key hne
    have hother := h₁.file? pid path
    rw [if_neg hne] at hother
    rw [functionIn?, functionIn?, hfile, hother]
    cases hf : s.file? pid path with
    | none =>
        rfl
    | some f =>
        rw [hf] at hother
        obtain ⟨hf', hpid, hpath⟩ := h₁.consistent.file?_eq_some.mp hother
        obtain ⟨-, hrpid, hrpath⟩ := h₁.consistent.file?_eq_some.mp hrow
        have hid : f.id ≠ row.id := by
          intro heq
          have h := h₁.consistent.files.eq_of_id hf' hmem heq
          exact hne ⟨by rw [← hpid, h, hrpid], by rw [← hpath, h, hrpath]⟩
        rw [Option.bind_some, Option.bind_some, h'.others _ _ hid, Store.functionAt?, Store.functionAt?,
          h₁.functions]

/-! ## All sources -/

end Store

/-- A file stored twice is stored as one of the two sources over what was there first. -/
theorem FileRow.Stores.trans {row row₁ : FileRow} {source source₁ : SourceFile} {before : Option FileRow}
    (h : row.Stores source (some row₁)) (h₁ : row₁.Stores source₁ before) :
    row.Stores source₁ before ∨ row.Stores source before := by
  rcases h.content with hsame | hnew
  · rw [← Option.some.inj hsame]
    exact .inl h₁
  · refine .inr ⟨h.hash, .inr hnew, fun old hold => ?_⟩
    rw [h.identity row₁ rfl, h₁.identity old hold]

theorem FunctionRow.Stores.anchor_ne {row : FunctionRow} {f : Documented} {before : Option FunctionRow}
    (h : row.Stores f before) (hf : f.signature.anchor ≠ "") (hbefore : ∀ old ∈ before, old.anchor ≠ "") :
    row.anchor ≠ "" := by
  rw [h.content]
  cases before with
  | none => exact hf
  | some old => exact hbefore old rfl

theorem FunctionRow.Stores.keeping {row : FunctionRow} {f : Documented} {before : Option FunctionRow}
    (h : row.Stores f before) : f.keeping (some row) = f.keeping before :=
  congrArg f.withAnchor (congrArg FunctionRow.anchor h.content)

theorem FunctionRow.Stores.trans {row row₁ : FunctionRow} {f : Documented} {before : Option FunctionRow}
    (h : row.Stores f (some row₁)) (h₁ : row₁.Stores f before) : row.Stores f before := by
  refine ⟨?_, fun old hold => ?_⟩
  · rw [← h₁.keeping]
    exact h.content
  · rw [h.identity row₁ rfl, h₁.identity old hold]

def SourceFile.paths (sources : List SourceFile) : List String := sources.map (·.path)

/-- The functions of the source at a path. -/
def Documented.inFile (path : String) (fs : List Documented) : List Documented :=
  fs.filter (·.signature.source.file = path)

theorem Documented.mem_inFile {path : String} {fs : List Documented} {f : Documented} :
    f ∈ inFile path fs ↔ f ∈ fs ∧ f.signature.source.file = path := by
  rw [inFile, List.mem_filter, decide_eq_true_eq]

namespace Store

/-- What becomes of a store when sources are stored, each with its share of the merged functions. -/
structure AllStored (s : Store) (projectId : Int) (merged : List Documented) (sources : List SourceFile)
    (s' : Store) : Prop where
  consistent : s'.Consistent
  projects : s'.projects = s.projects
  file : ∀ path ∈ SourceFile.paths sources, ∃ source ∈ sources, source.path = path ∧
    ∃ row, s'.file? projectId path = some row ∧ row.Stores source (s.file? projectId path)
  holds : ∀ path ∈ SourceFile.paths sources, ∀ f ∈ Documented.inFile path merged,
    ∃ row, s'.functionIn? projectId path f.signature.key = some row ∧
      row.Stores f (s.functionIn? projectId path f.signature.key)
  gone : ∀ path ∈ SourceFile.paths sources, ∀ key,
    key ∉ (Documented.inFile path merged).map (·.signature.key) → s'.functionIn? projectId path key = none
  otherFiles : ∀ pid path, ¬(pid = projectId ∧ path ∈ SourceFile.paths sources) →
    s'.file? pid path = s.file? pid path
  otherFunctions : ∀ pid path key, ¬(pid = projectId ∧ path ∈ SourceFile.paths sources) →
    s'.functionIn? pid path key = s.functionIn? pid path key

/-- The functions of sources as they are stored over what is there, source by source. -/
def keptOf (s : Store) (projectId : Int) (merged : List Documented) (sources : List SourceFile) :
    List Documented :=
  sources.flatMap fun source => s.keptAt projectId source.path (Documented.inFile source.path merged)

theorem AllStored.nil {s : Store} (hs : s.Consistent) (projectId : Int) (merged : List Documented) :
    s.AllStored projectId merged [] s :=
  ⟨hs, rfl, fun _ => nofun, fun _ => nofun, fun _ => nofun, fun _ _ _ => rfl, fun _ _ _ _ => rfl⟩

theorem SourceStored.cons {s s₁ s' : Store} {projectId : Int} {merged : List Documented}
    {source : SourceFile} {sources : List SourceFile}
    (h₁ : s.SourceStored projectId source (Documented.inFile source.path merged) s₁)
    (h' : s₁.AllStored projectId merged sources s') :
    s.AllStored projectId merged (source :: sources) s' := by
  refine ⟨h'.consistent, h'.projects.trans h₁.projects, fun path hpath => ?_, fun path hpath f hf => ?_,
    fun path hpath key hkey => ?_, fun pid path hne => ?_, fun pid path key hne => ?_⟩
  · by_cases hlater : path ∈ SourceFile.paths sources
    · obtain ⟨later, hmem, heq, row, hrow, hstores⟩ := h'.file path hlater
      by_cases hsame : path = source.path
      · subst hsame
        obtain ⟨row₁, hrow₁, hstores₁⟩ := h₁.file
        rw [hrow₁] at hstores
        rcases hstores.trans hstores₁ with hstores | hstores
        · exact ⟨source, List.mem_cons_self, rfl, row, hrow, hstores⟩
        · exact ⟨later, List.mem_cons_of_mem _ hmem, heq, row, hrow, hstores⟩
      · rw [h₁.otherFiles _ _ fun h => hsame h.2] at hstores
        exact ⟨later, List.mem_cons_of_mem _ hmem, heq, row, hrow, hstores⟩
    · obtain rfl := (List.mem_cons.mp hpath).resolve_right hlater
      obtain ⟨row₁, hrow₁, hstores₁⟩ := h₁.file
      refine ⟨source, List.mem_cons_self, rfl, row₁, ?_, hstores₁⟩
      rw [h'.otherFiles _ _ fun h => hlater h.2, hrow₁]
  · by_cases hlater : path ∈ SourceFile.paths sources
    · obtain ⟨row, hrow, hstores⟩ := h'.holds path hlater f hf
      refine ⟨row, hrow, ?_⟩
      by_cases hsame : path = source.path
      · subst hsame
        obtain ⟨row₁, hrow₁, hstores₁⟩ := h₁.holds f hf
        rw [hrow₁] at hstores
        exact hstores.trans hstores₁
      · rwa [h₁.otherFunctions _ _ _ fun h => hsame h.2] at hstores
    · obtain rfl := (List.mem_cons.mp hpath).resolve_right hlater
      rw [h'.otherFunctions _ _ _ fun h => hlater h.2]
      exact h₁.holds f hf
  · by_cases hlater : path ∈ SourceFile.paths sources
    · exact h'.gone path hlater key hkey
    · obtain rfl := (List.mem_cons.mp hpath).resolve_right hlater
      rw [h'.otherFunctions _ _ _ fun h => hlater h.2]
      exact h₁.gone key hkey
  · rw [h'.otherFiles _ _ fun h => hne ⟨h.1, List.mem_cons_of_mem _ h.2⟩,
      h₁.otherFiles _ _ fun h => hne ⟨h.1, List.mem_cons.mpr (.inl h.2)⟩]
  · rw [h'.otherFunctions _ _ _ fun h => hne ⟨h.1, List.mem_cons_of_mem _ h.2⟩,
      h₁.otherFunctions _ _ _ fun h => hne ⟨h.1, List.mem_cons.mpr (.inl h.2)⟩]

/-- A source that has been stored does not change as what later ones are stored. -/
theorem SourceStored.keptOf {s s₁ : Store} {projectId : Int} {merged : List Documented}
    {source : SourceFile} (h₁ : s.SourceStored projectId source (Documented.inFile source.path merged) s₁)
    (sources : List SourceFile) :
    s₁.keptOf projectId merged sources = s.keptOf projectId merged sources := by
  rw [Store.keptOf, Store.keptOf]
  congr 1
  funext later
  refine List.map_congr_left fun f hf => ?_
  by_cases hsame : later.path = source.path
  · rw [hsame] at hf ⊢
    obtain ⟨row, hrow, hstores⟩ := h₁.holds f hf
    rw [hrow, hstores.keeping]
  · rw [h₁.otherFunctions _ _ _ fun h => hsame h.2]

/-- Storing the states of sources does not fail, and yields the functions as they are stored. -/
theorem Consistent.foldlM_storing {projectId : Int} {merged : List Documented}
    (hkeys : (merged.map (·.signature.key)).Nodup) {states : List SourceState}
    (hpaths : ∀ state ∈ states, ∀ source, state.outcome = .ok source → source.path = state.path)
    {p : Storing} (hs : p.store.Consistent) (hproject : ∃ q ∈ p.store.projects, q.id = projectId) :
    ∃ p', states.foldlM (Storing.add projectId merged) p = .ok p' ∧
      p.store.AllStored projectId merged (states.filterMap (·.file?)) p'.store ∧
      p'.functions = p.functions ++ p.store.keptOf projectId merged (states.filterMap (·.file?)) := by
  induction states generalizing p with
  | nil =>
      exact ⟨p, rfl, .nil hs _ _, (List.append_nil _).symm⟩
  | cons state states ih =>
      obtain ⟨hhead, htail⟩ := List.forall_mem_cons.mp hpaths
      rw [List.foldlM_cons]
      cases houtcome : state.outcome with
      | error e =>
          have hadd : Storing.add projectId merged p state = .ok p := by
            rw [Storing.add, houtcome]
          have hfile : state.file? = none := by
            rw [SourceState.file?, houtcome]
            rfl
          rw [hadd, List.filterMap_cons_none hfile]
          exact ih htail hs hproject
      | ok source =>
          have hshare : ((Documented.inFile source.path merged).map (·.signature.key)).Nodup :=
            hkeys.sublist (List.filter_sublist.map _)
          obtain ⟨row, changed, s₁, s', hput, hsync, h₁⟩ := hs.storeWithFunctions hproject source hshare
          -- The counts are of no interest here, so the next state is known by its rows and functions only.
          obtain ⟨p₁, hadd, hstore, hfunctions⟩ : ∃ p₁, Storing.add projectId merged p state = .ok p₁ ∧
              p₁.store = s' ∧ p₁.functions = p.functions ++
                p.store.keptAt projectId source.path (Documented.inFile source.path merged) := by
            refine ⟨⟨s', p.indexed + if changed then 1 else 0, p.skipped + if changed then 0 else 1, _⟩,
              ?_, rfl, rfl⟩
            rw [Storing.add, houtcome]
            dsimp only
            rw [hput]
            dsimp only
            rw [← hhead source houtcome, ← Documented.inFile, hsync]
          have hfile : state.file? = some source := by
            rw [SourceState.file?, houtcome]
            rfl
          subst hstore
          rw [hadd, List.filterMap_cons_some hfile]
          obtain ⟨p', hfold, hall, hfs⟩ := ih htail h₁.consistent (h₁.projects ▸ hproject)
          refine ⟨p', hfold, h₁.cons hall, ?_⟩
          rw [hfs, hfunctions, List.append_assoc, h₁.keptOf]
          rfl

end Store

end OverloadDocs
