import OverloadDocs.Proofs.Indexing

/-!
Lists of rows. The functions of a project are listed by declaration order and its files by path. Where the
order of functions tells them apart, the list is the one of their rows.
-/

namespace OverloadDocs.Store

/-! ## Functions -/

theorem declaredBefore_iff {a b : FunctionRow} :
    declaredBefore a b = true ↔ a.order < b.order ∨ a.order = b.order ∧ a.id ≤ b.id := by
  simp [declaredBefore]

theorem declaredBefore_trans (a b c : FunctionRow) (hab : declaredBefore a b = true)
    (hbc : declaredBefore b c = true) : declaredBefore a c = true := by
  rw [declaredBefore_iff] at *
  omega

theorem declaredBefore_total (a b : FunctionRow) : (declaredBefore a b || declaredBefore b a) = true := by
  rw [Bool.or_eq_true, declaredBefore_iff, declaredBefore_iff]
  omega

theorem pairwise_mergeSort_declaredBefore (rows : List FunctionRow) :
    (rows.mergeSort declaredBefore).Pairwise (declaredBefore · ·) :=
  List.pairwise_mergeSort declaredBefore_trans declaredBefore_total rows

/-- The same rows of a store have one sorted list, as rows of one order and identity are equal. -/
theorem Consistent.eq_of_sorted {s : Store} (hs : s.Consistent) {rows rows' : List FunctionRow}
    (hperm : rows.Perm rows') (hstored : ∀ row ∈ rows, row ∈ s.functions)
    (hsorted : rows.Pairwise (declaredBefore · ·)) (hsorted' : rows'.Pairwise (declaredBefore · ·)) :
    rows = rows' := by
  refine List.Perm.eq_of_pairwise (fun a b ha hb hab hba => ?_) hsorted hsorted' hperm
  refine hs.functions.eq_of_id (hstored a ha) (hstored b (hperm.mem_iff.mpr hb)) ?_
  rw [declaredBefore_iff] at hab hba
  omega

/-- The stored row of a function, with the path of its file. -/
def rowOf (s : Store) (projectId : Int) (f : Documented) : FunctionRow :=
  s.withPath ((s.functionIn? projectId f.signature.source.file f.signature.key).getD {})

theorem Consistent.mem_isIn {s : Store} (hs : s.Consistent) {projectId : Int} {row : FunctionRow} :
    row ∈ s.functions.filter (s.isIn projectId) ↔
      ∃ path key, s.functionIn? projectId path key = some row := by
  simp only [List.mem_filter, isIn, Option.any_eq_true_iff_get, hs.functionIn?_eq_some]
  constructor
  · rintro ⟨hrow, hfile, hproject⟩
    obtain ⟨file, hfind⟩ := Option.isSome_iff_exists.mp hfile
    simp only [hfind, Option.get_some, decide_eq_true_eq] at hproject
    obtain ⟨hmem, hid⟩ := hs.fileById?_eq_some.mp hfind
    exact ⟨file.path, row.key, file, hmem, hproject, rfl, hrow, hid.symm, rfl⟩
  · rintro ⟨path, key, file, hmem, hproject, -, hrow, hid, -⟩
    have hfind := hs.fileById?_eq_some.mpr ⟨hmem, hid.symm⟩
    refine ⟨hrow, ?_⟩
    simp [hfind, hproject]

/-- If the functions of a project are known, each by its place and with its own order, the list of the
project is that of their rows. -/
theorem Consistent.functionsOf_eq {s : Store} (hs : s.Consistent) {projectId : Int}
    {fs : List Documented} (horder : fs.Pairwise (·.signature.order < ·.signature.order))
    (hrows : ∀ f ∈ fs, ∃ row, s.functionIn? projectId f.signature.source.file f.signature.key = some row ∧
      row.order = f.signature.order)
    (hall : ∀ path key row, s.functionIn? projectId path key = some row →
      ∃ f ∈ fs, f.signature.source.file = path ∧ f.signature.key = key) :
    s.functionsOf projectId = fs.map (s.rowOf projectId) := by
  let found (f : Documented) : FunctionRow :=
    (s.functionIn? projectId f.signature.source.file f.signature.key).getD {}
  have hfound : ∀ f ∈ fs, s.functionIn? projectId f.signature.source.file f.signature.key = some (found f) ∧
      (found f).order = f.signature.order := by
    intro f hf
    obtain ⟨row, hrow, hord⟩ := hrows f hf
    simp only [found, hrow, Option.getD_some]
    exact ⟨trivial, hord⟩
  have hsorted : (fs.map found).Pairwise (·.order < ·.order) := by
    refine List.pairwise_map.mpr (horder.imp_of_mem fun {f g} hf hg hlt => ?_)
    rwa [(hfound f hf).2, (hfound g hg).2]
  have hnodup : (fs.map found).Nodup := hsorted.imp fun {a b} hlt heq => by
    rw [heq] at hlt
    exact absurd hlt (Int.lt_irrefl _)
  have hperm : (s.functions.filter (s.isIn projectId)).Perm (fs.map found) := by
    rw [List.perm_ext_iff_of_nodup (hs.functions.nodup.filter _) hnodup]
    intro row
    rw [hs.mem_isIn, List.mem_map]
    constructor
    · rintro ⟨path, key, hrow⟩
      obtain ⟨f, hf, rfl, rfl⟩ := hall path key row hrow
      exact ⟨f, hf, Option.some.inj ((hfound f hf).1.symm.trans hrow)⟩
    · rintro ⟨f, hf, rfl⟩
      exact ⟨_, _, (hfound f hf).1⟩
  have hlist : (s.functions.filter (s.isIn projectId)).mergeSort declaredBefore = fs.map found := by
    have hdeclared := hsorted.imp fun {a b} hlt => declaredBefore_iff.mpr (.inl hlt)
    refine hs.eq_of_sorted ((List.mergeSort_perm _ _).trans hperm) (fun row hrow => ?_)
      (pairwise_mergeSort_declaredBefore _) hdeclared
    exact List.mem_of_mem_filter (List.mem_mergeSort.mp hrow)
  rw [functionsOf, listed, hlist, List.map_map]
  rfl

namespace Indexed

variable {s s' : Store} {p : Project} {paths : List String} {merged : List Documented}
  {sources : List SourceFile}

/-- After a run the row of a merged function is the one it has been stored as. -/
theorem rowOf_eq (h : s.Indexed p paths merged sources s') {f : Documented} (hf : f ∈ merged)
    (hfile : f.signature.source.file ∈ SourceFile.paths sources) :
    ∃ row, s'.functionIn? p.id f.signature.source.file f.signature.key = some row ∧
      row.Stores f (s.functionIn? p.id f.signature.source.file f.signature.key) ∧
      s'.rowOf p.id f = { row with filePath := f.signature.source.file } := by
  obtain ⟨row, hrow, hstores⟩ := h.functionIn?_of_merged hf hfile
  refine ⟨row, hrow, hstores, ?_⟩
  obtain ⟨file, hmem, -, hpath, -, hid, -⟩ := h.consistent.functionIn?_eq_some.mp hrow
  rw [rowOf, hrow, Option.getD_some, withPath, h.consistent.fileById?_eq_some.mpr ⟨hmem, hid.symm⟩,
    Option.map_some, Option.getD_some, hpath]

/-- After a run that could read all it found, the functions of the project are the merged ones. -/
theorem functionsOf_eq (h : s.Indexed p paths merged sources s') (hpaths : SourceFile.paths sources = paths)
    (horder : merged.Pairwise (·.signature.order < ·.signature.order))
    (hfiles : ∀ f ∈ merged, f.signature.source.file ∈ SourceFile.paths sources) :
    s'.functionsOf p.id = merged.map (s'.rowOf p.id) := by
  refine h.consistent.functionsOf_eq horder (fun f hf => ?_) (fun path key row hrow => ?_)
  · obtain ⟨row, hrow, hstores, -⟩ := h.rowOf_eq hf (hfiles f hf)
    exact ⟨row, hrow, congrArg FunctionRow.order hstores.content⟩
  · by_cases hpath : path ∈ SourceFile.paths sources
    · exact h.merged_of_functionIn? hpath hrow
    · rw [hpaths] at hpath
      rw [functionIn?, h.removed path hpath] at hrow
      cases hrow

end Indexed

/-! ## Files -/

/-- The paths of a project's files, which are listed in increasing order. -/
def pathsOf (s : Store) (projectId : Int) : List String := (s.filesOf projectId).map (·.path)

theorem Consistent.mem_filesOf {s : Store} (hs : s.Consistent) {projectId : Int} {f : FileRow} :
    f ∈ s.filesOf projectId ↔ s.file? projectId f.path = some f := by
  rw [filesOf, List.mem_mergeSort, List.mem_filter, hs.file?_eq_some, decide_eq_true_eq]
  exact ⟨fun h => ⟨h.1, h.2, rfl⟩, fun h => ⟨h.1, h.2.1⟩⟩

theorem Consistent.mem_pathsOf {s : Store} (hs : s.Consistent) {projectId : Int} {path : String} :
    path ∈ s.pathsOf projectId ↔ (s.file? projectId path).isSome := by
  rw [pathsOf, List.mem_map, Option.isSome_iff_exists]
  constructor
  · rintro ⟨f, hf, rfl⟩
    exact ⟨f, hs.mem_filesOf.mp hf⟩
  · rintro ⟨f, hf⟩
    obtain ⟨-, -, rfl⟩ := hs.file?_eq_some.mp hf
    exact ⟨f, hs.mem_filesOf.mpr hf, rfl⟩

theorem Consistent.nodup_pathsOf {s : Store} (hs : s.Consistent) (projectId : Int) :
    (s.pathsOf projectId).Nodup := by
  refine List.Nodup.map_on (fun f hf g hg heq => ?_) ?_
  · have hf' := hs.mem_filesOf.mp hf
    rw [heq, hs.mem_filesOf.mp hg] at hf'
    exact (Option.some.inj hf').symm
  · exact (List.mergeSort_perm _ _).nodup_iff.mpr (hs.files.nodup.filter _)

theorem pairwise_pathsOf (s : Store) (projectId : Int) : (s.pathsOf projectId).Pairwise (· ≤ ·) := by
  have htrans : ∀ a b c : FileRow, decide (a.path ≤ b.path) = true → decide (b.path ≤ c.path) = true →
      decide (a.path ≤ c.path) = true := fun a b c hab hbc =>
    decide_eq_true (String.le_trans (of_decide_eq_true hab) (of_decide_eq_true hbc))
  have htotal : ∀ a b : FileRow, (decide (a.path ≤ b.path) || decide (b.path ≤ a.path)) = true := fun a b => by
    simpa using String.le_total a.path b.path
  have hsorted := List.pairwise_mergeSort htrans htotal (s.files.filter (·.projectId = projectId))
  exact List.pairwise_map.mpr (hsorted.imp fun hle => of_decide_eq_true hle)

/-- Stores that have files at the same paths list the same paths. -/
theorem Consistent.pathsOf_eq {s t : Store} (hs : s.Consistent) (ht : t.Consistent) {pid qid : Int}
    (h : ∀ path, (s.file? pid path).isSome ↔ (t.file? qid path).isSome) :
    s.pathsOf pid = t.pathsOf qid := by
  refine List.Perm.eq_of_pairwise (fun a b _ _ hab hba => String.le_antisymm hab hba)
    (s.pairwise_pathsOf pid) (t.pairwise_pathsOf qid) ?_
  rw [List.perm_ext_iff_of_nodup (hs.nodup_pathsOf pid) (ht.nodup_pathsOf qid)]
  intro path
  rw [hs.mem_pathsOf, ht.mem_pathsOf, h]

/-- Stores that show the same at every path list the same. -/
theorem Consistent.map_filesOf_eq {α : Type} (view : FileRow → α) {s t : Store} (hs : s.Consistent)
    (ht : t.Consistent) {pid qid : Int}
    (h : ∀ path, (s.file? pid path).map view = (t.file? qid path).map view) :
    (s.filesOf pid).map view = (t.filesOf qid).map view := by
  have hlist : ∀ {u : Store}, u.Consistent → ∀ id, ((u.filesOf id).map view).map some =
      (u.pathsOf id).map fun path => (u.file? id path).map view := by
    intro u hu id
    rw [pathsOf, List.map_map, List.map_map]
    refine List.map_congr_left fun f hf => ?_
    simp only [Function.comp_apply, hu.mem_filesOf.mp hf, Option.map_some]
  have hpaths : s.pathsOf pid = t.pathsOf qid := by
    refine hs.pathsOf_eq ht fun path => ?_
    have hsome := congrArg Option.isSome (h path)
    rw [Option.isSome_map, Option.isSome_map] at hsome
    rw [hsome]
  refine List.map_injective_iff.mpr (fun _ _ => Option.some.inj) ?_
  rw [hlist hs, hlist ht, hpaths]
  exact List.map_congr_left fun path _ => h path

end OverloadDocs.Store
