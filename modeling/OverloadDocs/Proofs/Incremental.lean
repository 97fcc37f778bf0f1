import Mathlib.Data.List.Induction
import OverloadDocs.Proofs.Discovered
import OverloadDocs.Proofs.Listing

/-!
Indexing over the rows of earlier runs. A file whose digest is stored already keeps its row, so that rows of
earlier runs stay. Every stored row is what some text that was met on the way gives at its path, whatever was
edited, moved or removed in between. Where the digests of these texts differ, a kept row is therefore the one
that the text at hand gives, and the rows of a project depend on nothing but the last tree and options.
-/

namespace OverloadDocs

/-- Different texts have different digests. -/
def DistinctDigests (texts : List String) : Prop :=
  ∀ a ∈ texts, ∀ b ∈ texts, Digest.ofText a = Digest.ofText b → a = b

instance (texts : List String) : Decidable (DistinctDigests texts) :=
  inferInstanceAs (Decidable (∀ a ∈ texts, _))

/-! ## Rows without their identities -/

/-- The message of the first error in a text that stands at a path. -/
def firstError? (path text : String) : Option String :=
  (FileBuild.ofSource {} path text).1.result.errors.head?.map (·.message)

theorem SourceFile.Built.firstError?_eq {source : SourceFile} (h : source.Built) :
    source.build.result.errors.head?.map (·.message) = firstError? source.path source.text := by
  obtain ⟨supply, hbuild⟩ := h
  have hmessages := (FileBuild.alike_ofSource supply {} source.path source.text).2
  rw [hbuild, firstError?, ← List.head?_map, hmessages, List.head?_map]

/-- What a file is stored as, apart from the identities. -/
def FileRow.content (row : FileRow) : FileRow := { row with id := 0, projectId := 0 }

/-- What a text that stands at a path is stored as. -/
def FileRow.ofText (path text : String) : FileRow where
  projectId := 0
  path := path
  hash := Digest.ofText text
  size := text.utf8ByteSize
  parseError := firstError? path text

/-- What a function is stored as, apart from the identities and the anchor. -/
def FunctionRow.content (row : FunctionRow) : FunctionRow := { row with id := 0, fileId := 0, anchor := "" }

/-- What a function is listed as, with the path of its file. -/
def FunctionRow.ofListed (f : Documented) : FunctionRow :=
  { FunctionRow.ofDocumented f.unanchored 0 with filePath := f.signature.source.file }

theorem FunctionRow.Stores.content_eq {row : FunctionRow} {f : Documented} {before : Option FunctionRow}
    (h : row.Stores f before) :
    FunctionRow.content { row with filePath := f.signature.source.file } = FunctionRow.ofListed f := by
  rw [h.content]
  rfl

/-- A row that a source is stored as was there before, or is what the text gives. -/
theorem FileRow.Stores.kept_or_content {row : FileRow} {source : SourceFile} {before : Option FileRow}
    (h : row.Stores source before) (hbuilt : source.Built) (hpath : row.path = source.path) :
    row ∈ before ∨ row.content = FileRow.ofText row.path source.text := by
  rcases h.content with hkept | ⟨hsize, herror⟩
  · exact .inl hkept
  · right
    rw [FileRow.content, FileRow.ofText, h.hash, hsize, herror, hbuilt.firstError?_eq, hpath]

/-- A row with a digest that is stored already was given by the text with that digest. -/
theorem FileRow.Stores.content_eq {row : FileRow} {source : SourceFile} {before : Option FileRow}
    (h : row.Stores source before) (hbuilt : source.Built) (hpath : row.path = source.path)
    {texts : List String} (hdigests : DistinctDigests texts) (hsource : source.text ∈ texts)
    (hbefore : ∀ old ∈ before, ∃ text ∈ texts, old.content = FileRow.ofText old.path text) :
    row.content = FileRow.ofText row.path source.text := by
  rcases h.kept_or_content hbuilt hpath with hkept | hnew
  · -- The row may be from long ago, but equal digests make its text the one at hand.
    obtain ⟨text, htext, hrow⟩ := hbefore row hkept
    have hhash : row.hash = Digest.ofText text := congrArg FileRow.hash hrow
    have hsame : text = source.text := hdigests text htext source.text hsource (hhash.symm.trans h.hash)
    rw [hrow, hsame]
  · exact hnew

namespace Store

/-! ## What rows of files come from -/

/-- Every file is stored as what one of these texts gives at its path. -/
def FilesFrom (s : Store) (texts : List String) : Prop :=
  ∀ row ∈ s.files, ∃ text ∈ texts, row.content = FileRow.ofText row.path text

theorem FilesFrom.mono {s : Store} {texts more : List String} (h : s.FilesFrom texts)
    (hsub : texts ⊆ more) : s.FilesFrom more := by
  intro row hrow
  obtain ⟨text, htext, hcontent⟩ := h row hrow
  exact ⟨text, hsub htext, hcontent⟩

/-- After a run rows come from the texts before it and those of its tree. -/
theorem FilesFrom.indexProject {s : Store} (hs : s.Consistent) {texts : List String}
    (h : s.FilesFrom texts) (supply : Anchors) (tree : Tree) (root : String) (options : IndexOptions) :
    (s.indexProject supply tree root options).store.FilesFrom (texts ++ tree.texts) := by
  have hearlier := h.mono (List.subset_append_left texts tree.texts)
  cases hpaths : options.paths tree (Path.fromTop root) with
  | error e =>
      obtain ⟨-, -, hfiles, -⟩ := hs.indexProject_of_error supply hpaths
      rwa [FilesFrom, hfiles]
  | ok paths =>
      obtain ⟨p, states, supply', report, -, hstates, -, -, -, hindexed⟩ := hs.indexProject_of_ok supply hpaths
      have hread := SourceState.read_of_eq hstates
      intro row hrow
      rcases hindexed.mem_files hs hrow with hrow | ⟨source, hsource, hpath, hstores⟩
      · exact hearlier row hrow
      · rcases hstores.kept_or_content (hread.built_files source hsource) hpath with hkept | hnew
        · exact hearlier row (hs.file?_eq_some.mp hkept).1
        · exact ⟨source.text, List.mem_append_right _ (hread.text_mem hsource).2, hnew⟩

end Store

/-- A run of indexing, on what is there at the time and as asked for. -/
structure Visit where
  tree : Tree
  root : String
  options : IndexOptions := {}
  supply : Anchors := {}

/-- A visit to a folder of two sources. -/
def Visit.ofPair (a b : String) (options : IndexOptions) : Visit where
  tree := .ofPair a b
  root := "/"
  options := options

def Visit.texts (visits : List Visit) : List String := visits.flatMap (·.tree.texts)

namespace Store

def visit (s : Store) (v : Visit) : IndexRun := s.indexProject v.supply v.tree v.root v.options

/-- The store that visits lead to from an empty one. -/
def afterVisits (visits : List Visit) : Store := visits.foldl (fun s v => (s.visit v).store) {}

theorem afterVisits_concat (history : List Visit) (last : Visit) :
    afterVisits (history ++ [last]) = ((afterVisits history).visit last).store := by
  rw [afterVisits, List.foldl_append]
  rfl

theorem reached_afterVisits (visits : List Visit) : (afterVisits visits).Reached := by
  induction visits using List.reverseRecOn with
  | nil => exact .empty
  | append_singleton history last ih =>
      rw [afterVisits_concat]
      exact .run ih last.supply last.tree last.root last.options

/-- The files after visits come from the texts that were met. -/
theorem filesFrom_afterVisits (visits : List Visit) :
    (afterVisits visits).FilesFrom (Visit.texts visits) := by
  induction visits using List.reverseRecOn with
  | nil => exact fun _ => nofun
  | append_singleton history last ih =>
      have hconsistent := (reached_afterVisits history).invariant.1
      rw [afterVisits_concat, Visit.texts, List.flatMap_append, List.flatMap_singleton]
      exact ih.indexProject hconsistent last.supply last.tree last.root last.options

/-! ## Rows after a run -/

section Rows

variable {s s' : Store} {p : Project} {tree : Tree} {root : String} {paths : List String}
  {states : List SourceState} {merged : List Documented}

/-- After a run that could read all it found, the files are what the texts at the paths give. -/
theorem Indexed.file?_content (h : s.Indexed p paths merged (SourceState.files states) s')
    (hread : SourceState.Read tree root paths states)
    (hall : SourceFile.paths (SourceState.files states) = paths) (hs : s.Consistent)
    {texts : List String} (hfrom : s.FilesFrom texts) (hdigests : DistinctDigests texts)
    (htexts : tree.texts ⊆ texts) (path : String) :
    (s'.file? p.id path).map FileRow.content =
      if path ∈ paths then (tree.textAt? root path).map fun text => FileRow.ofText text.1 text.2
      else none := by
  split
  · rename_i hpath
    obtain ⟨source, hsource, rfl, row, hrow, hstores⟩ := h.file path (hall ▸ hpath)
    obtain ⟨htext, hmem⟩ := hread.text_mem hsource
    have hplace : row.path = source.path := (h.consistent.file?_eq_some.mp hrow).2.2
    have hbefore : ∀ old ∈ s.file? p.id source.path, ∃ text ∈ texts,
        old.content = FileRow.ofText old.path text :=
      fun old hold => hfrom old (hs.file?_eq_some.mp hold).1
    rw [hrow, Tree.textAt?, htext, Option.map_some, hstores.content_eq (hread.built_files source hsource)
      hplace hdigests (htexts hmem) hbefore, hplace]
    rfl
  · rename_i hpath
    rw [h.removed path hpath, Option.map_none]

/-- After such a run the functions are those that the texts declare together. -/
theorem Indexed.functionsOf_content {supply : Anchors}
    (h : s.Indexed p paths (SourceFile.merged supply (SourceState.files states))
      (SourceState.files states) s')
    (hread : SourceState.Read tree root paths states)
    (hall : SourceFile.paths (SourceState.files states) = paths) :
    (s'.functionsOf p.id).map FunctionRow.content =
      (declaredBy (tree.textsAt root paths)).map FunctionRow.ofListed := by
  have hbuilt := hread.built_files
  have hfiles := SourceFile.file_mem_of_merged supply hbuilt
  rw [h.functionsOf_eq hall (SourceFile.pairwise_order_merged supply hbuilt) hfiles, ← hread.texts,
    ← SourceFile.merged_unanchored supply hbuilt, List.map_map, List.map_map]
  refine List.map_congr_left fun f hf => ?_
  obtain ⟨row, -, hstores, hrow⟩ := h.rowOf_eq hf (hfiles f hf)
  rw [Function.comp_apply, hrow, hstores.content_eq]
  rfl

end Rows

/-- What a run leaves of a project depends on the tree and the options only. -/
theorem Consistent.indexProject_rows {s : Store} (hs : s.Consistent) {texts : List String}
    (hfrom : s.FilesFrom texts) (hdigests : DistinctDigests texts) {tree : Tree}
    (htexts : tree.texts ⊆ texts) {root : String} {options : IndexOptions} {paths : List String}
    (hreads : options.Reads tree (Path.fromTop root) paths) (supply : Anchors) :
    ∃ report p,
      (s.indexProject supply tree root options).outcome = .ok report ∧
      (s.indexProject supply tree root options).store.Consistent ∧
      (s.indexProject supply tree root options).store.project? (Path.fromTop root) = some p ∧
      (∀ path, ((s.indexProject supply tree root options).store.file? p.id path).map FileRow.content =
        if path ∈ paths then
          (tree.textAt? (Path.fromTop root) path).map fun text => FileRow.ofText text.1 text.2
        else none) ∧
      ((s.indexProject supply tree root options).store.functionsOf p.id).map FunctionRow.content =
        (declaredBy (tree.textsAt (Path.fromTop root) paths)).map FunctionRow.ofListed := by
  obtain ⟨p, states, supply', report, hroot, hstates, houtcome, -, -, hindexed⟩ :=
    hs.indexProject_of_ok supply hreads.found
  have hread := SourceState.read_of_eq hstates
  have hall := hread.paths_files hreads.readable
  obtain ⟨q, hq, hid⟩ := hindexed.project
  refine ⟨report, q, houtcome, hindexed.consistent, hroot ▸ hq, ?_, ?_⟩
  · rw [hid]
    exact hindexed.file?_content hread hall hs hfrom hdigests htexts
  · rw [hid]
    exact hindexed.functionsOf_content hread hall

/-- Indexing over the rows of earlier runs equals indexing from scratch. Let any visits come before one that
finds paths and can read all the files there, and let the texts met on the way have different digests. Then
the files and the functions of the project are those that the last visit alone leaves in an empty store, in
the same order, apart from identities and anchors. -/
theorem afterVisits_eq_fresh (history : List Visit) (last : Visit) {paths : List String}
    (hreads : last.options.Reads last.tree (Path.fromTop last.root) paths)
    (hdigests : DistinctDigests (Visit.texts (history ++ [last]))) (supply : Anchors) :
    ∃ report report' p q,
      ((afterVisits history).visit last).outcome = .ok report ∧
      (({} : Store).visit { last with supply := supply }).outcome = .ok report' ∧
      (afterVisits (history ++ [last])).project? (Path.fromTop last.root) = some p ∧
      (({} : Store).visit { last with supply := supply }).store.project? (Path.fromTop last.root) = some q ∧
      ((afterVisits (history ++ [last])).filesOf p.id).map FileRow.content =
        ((({} : Store).visit { last with supply := supply }).store.filesOf q.id).map FileRow.content ∧
      ((afterVisits (history ++ [last])).functionsOf p.id).map FunctionRow.content =
        ((({} : Store).visit { last with supply := supply }).store.functionsOf q.id).map
          FunctionRow.content := by
  have htexts : Visit.texts (history ++ [last]) = Visit.texts history ++ last.tree.texts := by
    rw [Visit.texts, List.flatMap_append, List.flatMap_singleton]
    rfl
  have hearlier : (afterVisits history).FilesFrom (Visit.texts (history ++ [last])) :=
    (filesFrom_afterVisits history).mono (htexts ▸ List.subset_append_left _ _)
  have hlast : last.tree.texts ⊆ Visit.texts (history ++ [last]) :=
    htexts ▸ List.subset_append_right _ _
  have hempty : FilesFrom {} (Visit.texts (history ++ [last])) := fun _ => nofun
  obtain ⟨report, p, houtcome, hconsistent, hp, hfiles, hfunctions⟩ :=
    (reached_afterVisits history).invariant.1.indexProject_rows hearlier hdigests hlast hreads last.supply
  obtain ⟨report', q, houtcome', hconsistent', hq, hfiles', hfunctions'⟩ :=
    Consistent.empty.indexProject_rows hempty hdigests hlast hreads supply
  rw [afterVisits_concat]
  refine ⟨report, report', p, q, houtcome, houtcome', hp, hq, ?_, hfunctions.trans hfunctions'.symm⟩
  exact hconsistent.map_filesOf_eq FileRow.content hconsistent' fun path =>
    (hfiles path).trans (hfiles' path).symm

/-- The sources are swapped while only one of them is included, and then a function is changed. -/
theorem afterVisits_of_swapped_sources :
    ∃ p q,
      (afterVisits [.ofPair "real f(real x);" "int n();" {},
        .ofPair "int n();" "real f(real x);" { includes := ["a.stan"] },
        .ofPair "int n();" "real f(int k);" {}]).project? "/" = some p ∧
      (({} : Store).visit (.ofPair "int n();" "real f(int k);" {})).store.project? "/" = some q ∧
      ((afterVisits [.ofPair "real f(real x);" "int n();" {},
        .ofPair "int n();" "real f(real x);" { includes := ["a.stan"] },
        .ofPair "int n();" "real f(int k);" {}]).filesOf p.id).map FileRow.content =
        ((({} : Store).visit (.ofPair "int n();" "real f(int k);" {})).store.filesOf q.id).map
          FileRow.content ∧
      ((afterVisits [.ofPair "real f(real x);" "int n();" {},
        .ofPair "int n();" "real f(real x);" { includes := ["a.stan"] },
        .ofPair "int n();" "real f(int k);" {}]).functionsOf p.id).map FunctionRow.content =
        ((({} : Store).visit (.ofPair "int n();" "real f(int k);" {})).store.functionsOf q.id).map
          FunctionRow.content := by
  have htop : Path.fromTop "/" = "/" := by decide +kernel
  have hreads : ({} : IndexOptions).Reads (.ofPair "int n();" "real f(int k);") (Path.fromTop "/")
      ["a.stan", "b.stan"] := by
    rw [htop]
    exact IndexOptions.reads_ofPair _ _
  have hdigests : DistinctDigests (Visit.texts ([.ofPair "real f(real x);" "int n();" {},
      .ofPair "int n();" "real f(real x);" { includes := ["a.stan"] }] ++
      [.ofPair "int n();" "real f(int k);" {}])) := by
    decide +kernel
  obtain ⟨-, -, p, q, -, -, hp, hq, hfiles, hfunctions⟩ := afterVisits_eq_fresh _
    (.ofPair "int n();" "real f(int k);" {}) hreads hdigests {}
  change project? _ (Path.fromTop "/") = _ at hp
  change project? _ (Path.fromTop "/") = _ at hq
  rw [htop] at hp hq
  exact ⟨p, q, hp, hq, hfiles, hfunctions⟩

end Store

end OverloadDocs
