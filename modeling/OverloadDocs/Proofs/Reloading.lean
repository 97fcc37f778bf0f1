import OverloadDocs.Proofs.Discovered
import OverloadDocs.Proofs.Listing

/-!
Reloading what was built. The rows that a run leaves read back as the merged functions, with the anchors that
the store has for them, and registering them again in their order gives an index of just these functions.
-/

namespace OverloadDocs

/-- Rows that read back as different valid functions are all registered, behind what is there. -/
theorem Index.addRows_eq (idx : Index) (hopen : idx.frozen = false) (supply : Anchors)
    {rows : List FunctionRow} {fs : List Documented}
    (hrows : rows.map (·.toDocumented) = fs.map Except.ok) (hfs : ∀ f ∈ fs, Mergeable f)
    (hkeys : ((idx.entries ++ fs).map (·.signature.key)).Nodup) :
    idx.addRows supply rows = .ok ({ idx with entries := idx.entries ++ fs }, supply) := by
  induction rows generalizing idx fs with
  | nil =>
      obtain rfl := List.map_eq_nil_iff.mp hrows.symm
      rw [addRows, List.append_nil]
  | cons row rows ih =>
      obtain ⟨f, fs, rfl, hrow, hrows⟩ := List.map_eq_cons_iff.mp hrows.symm
      obtain ⟨hhead, htail⟩ := List.forall_mem_cons.mp hfs
      have hsplit : idx.entries ++ f :: fs = (idx.entries ++ [f]) ++ fs := by
        rw [List.append_assoc, List.singleton_append]
      have hnew : f.signature.key ∉ idx.entries.map (·.signature.key) := by
        rw [hsplit, List.map_append, List.map_append] at hkeys
        intro hmem
        exact (List.nodup_append.mp (List.nodup_append.mp hkeys).1).2.2 _ hmem _
          (List.mem_singleton.mpr rfl) rfl
      have hread : row.toDocumented = .ok f := hrow.symm
      have hlater : Index.addRows { idx with entries := idx.entries ++ [f] } supply rows =
          .ok ({ idx with entries := idx.entries ++ [f] ++ fs }, supply) :=
        ih { idx with entries := idx.entries ++ [f] } hopen hrows.symm htail (hsplit ▸ hkeys)
      rw [addRows, hread]
      dsimp only
      rw [hhead.register_eq hopen hnew supply]
      dsimp only
      rw [hlater, hsplit]

/-- A function that a text of fewer than 2^63 characters declares can be stored. -/
theorem SourceFile.Declares.storable {source : SourceFile} {f : Documented} (h : source.Declares f)
    (hsize : source.text.length < Nat.pow 2 63) : f.doc.Storable := by
  refine ⟨h.positions.sorted, fun e he => ?_⟩
  have hbounded := h.positions.bounded e he
  have hextent := h.extent
  generalize Nat.pow 2 63 = bound at hsize ⊢
  omega

/-- The row that a function has been stored as reads back as the function with the anchor that it kept. -/
theorem FunctionRow.Stores.toDocumented_eq {row : FunctionRow} {f : Documented}
    {before : Option FunctionRow} (h : row.Stores f before) (hs : f.signature.WellFormed)
    (hd : f.doc.Storable) :
    FunctionRow.toDocumented { row with filePath := f.signature.source.file } =
      .ok (f.keeping before) := by
  let placed : FunctionRow := { row with filePath := f.signature.source.file }
  have hcontent := h.content
  have hsignature : placed.signature = f.signature.render := congrArg FunctionRow.signature hcontent
  have horder : placed.order = f.signature.order := congrArg FunctionRow.order hcontent
  have hdoc : placed.docJson = f.doc.toJson.compact := congrArg FunctionRow.docJson hcontent
  have hstart : row.startLine = f.signature.source.line := congrArg FunctionRow.startLine hcontent
  have hend : row.endLine = f.signature.source.endLine := congrArg FunctionRow.endLine hcontent
  have hanchor : row.anchor = (f.keeping before).signature.anchor := congrArg FunctionRow.anchor hcontent
  rw [FunctionRow.toDocumented_eq_ok hs hd hsignature horder hdoc]
  simp only [placed, hstart, hend, hanchor]
  rfl

namespace Store

/-- Functions as they are stored over what is there, each at its own place. -/
def keptAll (s : Store) (projectId : Int) (fs : List Documented) : List Documented :=
  fs.map fun f => f.keeping (s.functionIn? projectId f.signature.source.file f.signature.key)

/-- Apart from the anchors what is kept is what was given. -/
theorem keptAll_unanchored (s : Store) (projectId : Int) (fs : List Documented) :
    (s.keptAll projectId fs).map Documented.unanchored = fs.map Documented.unanchored := by
  rw [keptAll, List.map_map]
  rfl

section Built

variable {sources : List SourceFile} (hbuilt : ∀ source ∈ sources, source.Built)

include hbuilt

/-- The functions as a run reports them are the merged ones, each with the anchor that it keeps. -/
theorem keptOf_eq (s : Store) (projectId : Int) (supply : Anchors)
    (hpaths : (SourceFile.paths sources).Nodup) :
    s.keptOf projectId (SourceFile.merged supply sources) sources =
      s.keptAll projectId (SourceFile.merged supply sources) := by
  have hshare : ∀ source ∈ sources,
      s.keptAt projectId source.path (Documented.inFile source.path (SourceFile.merged supply sources)) =
        s.keptAll projectId (Documented.inFile source.path (SourceFile.merged supply sources)) := by
    intro source _
    refine List.map_congr_left fun f hf => ?_
    have hfile : f.signature.source.file = source.path := (Documented.mem_inFile.mp hf).2
    rw [hfile]
  rw [keptOf, List.flatMap_congr hshare]
  unfold keptAll
  rw [← List.map_flatMap, SourceFile.flatMap_inFile_merged supply hbuilt hpaths]

theorem Consistent.mergeable_keptAll {s : Store} (hs : s.Consistent) (hanchors : s.Anchored)
    (projectId : Int) (supply : Anchors) :
    ∀ f ∈ s.keptAll projectId (SourceFile.merged supply sources), Index.Mergeable f := by
  intro g hg
  obtain ⟨f, hf, rfl⟩ := List.mem_map.mp hg
  obtain ⟨source, hsource, hdeclares⟩ := SourceFile.declares_merged supply hbuilt f hf
  refine ⟨hdeclares.wellFormed.valid, ?_⟩
  cases hold : s.functionIn? projectId f.signature.source.file f.signature.key with
  | none => exact hdeclares.anchor
  | some old =>
      obtain ⟨-, -, -, -, hmem, -, -⟩ := hs.functionIn?_eq_some.mp hold
      exact hanchors old hmem

/-- What a run leaves of a project, all of whose sources could be read, is loaded as the merged functions
with the anchors that they keep. -/
theorem Indexed.loadIndex_eq {s s' : Store} (hs : s.Consistent) (hanchors : s.Anchored) {p : Project}
    {paths : List String} {supply : Anchors}
    (h : s.Indexed p paths (SourceFile.merged supply sources) sources s')
    (hpaths : SourceFile.paths sources = paths)
    (hsize : ∀ source ∈ sources, source.text.length < Nat.pow 2 63) {root : String}
    (hroot : p.root = Path.fromTop root) (supply' : Anchors) :
    s'.loadIndex supply' root =
      .ok (⟨s.keptAll p.id (SourceFile.merged supply sources), true⟩, supply') := by
  have hfiles := SourceFile.file_mem_of_merged supply hbuilt
  have hlist := h.functionsOf_eq hpaths (SourceFile.pairwise_order_merged supply hbuilt) hfiles
  have hrows : (s'.functionsOf p.id).map (·.toDocumented) =
      (s.keptAll p.id (SourceFile.merged supply sources)).map Except.ok := by
    rw [hlist, keptAll, List.map_map, List.map_map]
    refine List.map_congr_left fun f hf => ?_
    obtain ⟨source, hsource, hdeclares⟩ := SourceFile.declares_merged supply hbuilt f hf
    obtain ⟨row, -, hstores, hrow⟩ := h.rowOf_eq hf (hfiles f hf)
    rw [Function.comp_apply, Function.comp_apply, hrow]
    exact hstores.toDocumented_eq hdeclares.wellFormed (hdeclares.storable (hsize source hsource))
  have hkeys : ((s.keptAll p.id (SourceFile.merged supply sources)).map (·.signature.key)).Nodup := by
    rw [keptAll, List.map_map]
    exact SourceFile.nodup_keys_merged supply hbuilt
  obtain ⟨q, hq, hid⟩ := h.project
  rw [loadIndex, ← hroot, hq]
  dsimp only
  rw [hid, Index.addRows_eq {} rfl supply' hrows (hs.mergeable_keptAll hbuilt hanchors p.id supply) hkeys]
  rfl

end Built

/-- The index that a run merges what it reads to. -/
def mergedIndex (supply : Anchors) (tree : Tree) (root : String) (paths : List String) : Index :=
  let (states, supply) := SourceState.readAll tree root supply paths
  (FileBuild.merge supply ((SourceState.files states).map (·.build))).1

/-- Reloading returns what was built. After any runs, a further one that finds paths and can read all the
files there goes through, and loading the project then gives a frozen index of the functions that the run
reports. These are the ones of the index that it merged, in the same order and with the anchors that the
store has for them, and there are as many rows. Texts are of less than 2^63 characters, so that the positions
of parameters are numbers of 64 bits. -/
theorem loadIndex_indexProject {s : Store} (hs : s.Reached) {tree : Tree} (htree : tree.WellFormed)
    (hsize : ∀ text ∈ tree.texts, text.length < Nat.pow 2 63) {root : String} {options : IndexOptions}
    {paths : List String} (hreads : options.Reads tree (Path.fromTop root) paths)
    (supply supply' : Anchors) :
    ∃ report p,
      (s.indexProject supply tree root options).outcome = .ok report ∧
      (s.indexProject supply tree root options).store.loadIndex supply' root =
        .ok (⟨report.result.functions, true⟩, supply') ∧
      report.result.functions.map Documented.unanchored =
        (mergedIndex supply tree (Path.fromTop root) paths).entries.map Documented.unanchored ∧
      (s.indexProject supply tree root options).store.project? (Path.fromTop root) = some p ∧
      ((s.indexProject supply tree root options).store.functionsOf p.id).length =
        report.result.functions.length := by
  obtain ⟨hconsistent, hanchors⟩ := hs.invariant
  obtain ⟨p, states, supply₁, report, hroot, hstates, houtcome, -, hfunctions, hindexed⟩ :=
    hconsistent.indexProject_of_ok supply hreads.found
  have hstate := SourceState.read_of_eq hstates
  have hbuilt := hstate.built_files
  have hall := hstate.paths_files hreads.readable
  have hnodup := IndexOptions.nodup_paths htree hreads.found
  rw [keptOf_eq hbuilt s p.id supply₁ (hall ▸ hnodup)] at hfunctions
  have hload := hindexed.loadIndex_eq hbuilt hconsistent hanchors hall
    (fun source hsource => hsize _ (hstate.text_mem hsource).2) hroot supply'
  have hmerged : (mergedIndex supply tree (Path.fromTop root) paths).entries =
      SourceFile.merged supply₁ (SourceState.files states) := by
    rw [mergedIndex, hstates]
    rfl
  have hlist := hindexed.functionsOf_eq hall (SourceFile.pairwise_order_merged supply₁ hbuilt)
    (SourceFile.file_mem_of_merged supply₁ hbuilt)
  obtain ⟨q, hq, hid⟩ := hindexed.project
  refine ⟨report, q, houtcome, ?_, ?_, hroot ▸ hq, ?_⟩
  · rw [hfunctions]
    exact hload
  · rw [hfunctions, keptAll_unanchored, hmerged]
  · rw [hid, hlist, hfunctions, keptAll, List.length_map, List.length_map]

/-- Loading after a function has moved to another file, over the rows of the run before. -/
theorem loadIndex_of_moved_function :
    ∃ report,
      ((({} : Store).indexProject {} (.ofPair "real f(real x);" "int n();") "/" {}).store.indexProject {}
        (.ofPair "int n();" "real f(real x);") "/" {}).outcome = .ok report ∧
      ((({} : Store).indexProject {} (.ofPair "real f(real x);" "int n();") "/" {}).store.indexProject {}
        (.ofPair "int n();" "real f(real x);") "/" {}).store.loadIndex {} "/" =
          .ok (⟨report.result.functions, true⟩, {}) := by
  have hreads : ({} : IndexOptions).Reads (.ofPair "int n();" "real f(real x);") (Path.fromTop "/")
      ["a.stan", "b.stan"] := by
    have htop : Path.fromTop "/" = "/" := by decide +kernel
    rw [htop]
    exact IndexOptions.reads_ofPair _ _
  have hsize : ∀ text ∈ (Tree.ofPair "int n();" "real f(real x);").texts, text.length < Nat.pow 2 63 := by
    decide +kernel
  obtain ⟨report, -, houtcome, hload, -⟩ := loadIndex_indexProject
    (.run .empty {} (.ofPair "real f(real x);" "int n();") "/" {}) (Tree.wellFormed_ofPair _ _) hsize hreads
    {} {}
  exact ⟨report, houtcome, hload⟩

end Store

end OverloadDocs
