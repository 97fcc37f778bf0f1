import OverloadDocs.Proofs.Incremental
import OverloadDocs.Proofs.Reloading

/-!
When a project can be loaded. Every row that runs leave reads back, and what is loaded is refused only where two
functions of the project have one key. A run takes care of that among the files that it reads, but it leaves
the functions of a file that is there and cannot be read as they were. So it depends on these rows of earlier
runs whether the project can be loaded after it.
-/

namespace OverloadDocs

/-! ## Rows that read back -/

/-- A row holds what is stored of a function. -/
structure FunctionRow.Holds (row : FunctionRow) (f : Documented) : Prop where
  wellFormed : f.signature.WellFormed
  storable : f.doc.Storable
  positions : f.doc.paramDocs.Within f.signature.params.length
  name : row.name = f.signature.name
  signature : row.signature = f.signature.render
  order : row.order = f.signature.order
  docJson : row.docJson = f.doc.toJson.compact
  key : row.key = f.signature.key
  anchor : row.anchor ≠ ""

/-- A row reads back as a function that can be registered under the key of the row. -/
def FunctionRow.ReadsBack (row : FunctionRow) : Prop :=
  ∃ f, row.toDocumented = .ok f ∧ Index.Mergeable f ∧ f.signature.key = row.key

namespace FunctionRow

theorem Holds.readsBack {row : FunctionRow} {f : Documented} (h : row.Holds f) : row.ReadsBack :=
  ⟨_, toDocumented_eq_ok h.wellFormed h.storable h.signature h.order h.docJson,
    ⟨h.wellFormed.valid, h.anchor⟩, h.key.symm⟩

theorem Holds.withPath {row : FunctionRow} {f : Documented} (h : row.Holds f) (s : Store) :
    (s.withPath row).Holds f :=
  ⟨h.wellFormed, h.storable, h.positions, h.name, h.signature, h.order, h.docJson, h.key, h.anchor⟩

theorem Stores.holds {row : FunctionRow} {f : Documented} {before : Option FunctionRow}
    (h : row.Stores f before) (hs : f.signature.WellFormed) (hd : f.doc.Storable)
    (hpositions : f.doc.paramDocs.Within f.signature.params.length) (hanchor : row.anchor ≠ "") :
    row.Holds f where
  wellFormed := hs
  storable := hd
  positions := hpositions
  name := congrArg FunctionRow.name h.content
  signature := congrArg FunctionRow.signature h.content
  order := congrArg FunctionRow.order h.content
  docJson := congrArg FunctionRow.docJson h.content
  key := congrArg FunctionRow.key h.content
  anchor := hanchor

end FunctionRow

namespace Store

/-- Every row of a function holds one. -/
def Readable (s : Store) : Prop := ∀ row ∈ s.functions, ∃ f, row.Holds f

/-- A run over texts of fewer than 2^63 characters leaves rows that hold functions. -/
theorem Readable.indexProject {s : Store} (h : s.Readable) (hs : s.Consistent) (supply : Anchors)
    {tree : Tree} (hsize : ∀ text ∈ tree.texts, text.length < Nat.pow 2 63) (root : String)
    (options : IndexOptions) : (s.indexProject supply tree root options).store.Readable := by
  cases hpaths : options.paths tree (Path.fromTop root) with
  | error e =>
      obtain ⟨-, -, -, hfunctions⟩ := hs.indexProject_of_error supply hpaths
      rwa [Readable, hfunctions]
  | ok paths =>
      obtain ⟨p, states, supply', report, -, hstates, -, -, -, hindexed⟩ := hs.indexProject_of_ok supply hpaths
      have hread := SourceState.read_of_eq hstates
      intro row hrow
      rcases hindexed.mem_functions hs hrow with hold | ⟨f, hf, hstores⟩
      · exact h row hold
      · obtain ⟨source, hsource, hdeclares⟩ := SourceFile.declares_merged supply' hread.built_files f hf
        have hstorable := hdeclares.storable (hsize _ (hread.text_mem hsource).2)
        refine ⟨f, hstores.holds hdeclares.wellFormed hstorable hdeclares.positions
          (hstores.anchor_ne hdeclares.anchor ?_)⟩
        intro old hold
        obtain ⟨-, -, -, -, hmem, -, -⟩ := hs.functionIn?_eq_some.mp hold
        obtain ⟨g, hg⟩ := h old hmem
        exact hg.anchor

theorem readable_afterVisits {visits : List Visit}
    (hsize : ∀ text ∈ Visit.texts visits, text.length < Nat.pow 2 63) : (afterVisits visits).Readable := by
  induction visits using List.reverseRecOn with
  | nil => exact fun _ => nofun
  | append_singleton history last ih =>
      rw [Visit.texts, List.flatMap_append, List.flatMap_singleton] at hsize
      obtain ⟨hearlier, hlast⟩ := List.forall_mem_append.mp hsize
      rw [afterVisits_concat]
      exact (ih hearlier).indexProject (reached_afterVisits history).invariant.1 last.supply hlast last.root
        last.options

end Store

/-! ## Registering rows -/

/-- Rows that read back are all registered just when they have new and different keys. -/
theorem Index.addRows_isOk_iff {idx : Index} (hopen : idx.frozen = false) (supply : Anchors)
    {rows : List FunctionRow} (hrows : ∀ row ∈ rows, row.ReadsBack) :
    (idx.addRows supply rows).isOk = true ↔
      (rows.map (·.key)).Nodup ∧ ∀ row ∈ rows, row.key ∉ idx.entries.map (·.signature.key) := by
  induction rows generalizing idx with
  | nil => exact iff_of_true rfl ⟨List.nodup_nil, fun _ => nofun⟩
  | cons row rows ih =>
      obtain ⟨hrow, hrest⟩ := List.forall_mem_cons.mp hrows
      obtain ⟨f, hread, hf, hkey⟩ := hrow
      rw [addRows, hread]
      dsimp only
      by_cases hnew : row.key ∈ idx.entries.map (·.signature.key)
      · -- The key is taken, and the row is refused whatever comes behind it.
        have hrefused : ¬(∀ r ∈ row :: rows, r.key ∉ idx.entries.map (·.signature.key)) :=
          fun hall => hall row List.mem_cons_self hnew
        cases hregister : idx.register supply (some f.signature) f.doc with
        | error e => exact iff_of_false Bool.false_ne_true fun h => hrefused h.2
        | ok next => exact absurd (hkey ▸ hnew) (register_eq_ok.mp hregister).2.2.1
      · -- The key is new, and counts as taken for the rows behind.
        have hlater := @ih { idx with entries := idx.entries ++ [f] } hopen hrest
        rw [hf.register_eq hopen (hkey ▸ hnew) supply]
        dsimp only
        rw [hlater]
        simp only [List.map_cons, List.nodup_cons, List.map_append, List.map_nil, List.mem_append,
          List.mem_singleton, hkey, List.forall_mem_cons, not_or]
        constructor
        · rintro ⟨hdistinct, hothers⟩
          refine ⟨⟨fun hmem => ?_, hdistinct⟩, hnew, fun r hr => (hothers r hr).1⟩
          obtain ⟨r, hr, hsame⟩ := List.mem_map.mp hmem
          exact (hothers r hr).2 hsame
        · rintro ⟨⟨hfirst, hdistinct⟩, -, hothers⟩
          exact ⟨hdistinct, fun r hr => ⟨hothers r hr, fun hsame =>
            hfirst (List.mem_map.mpr ⟨r, hr, hsame⟩)⟩⟩

namespace Store

/-- No two files of a project have functions with one key. -/
def KeysApart (s : Store) (projectId : Int) : Prop :=
  ∀ path path' key, (s.functionIn? projectId path key).isSome → (s.functionIn? projectId path' key).isSome →
    path = path'

theorem Consistent.nodup_keys_functionsOf {s : Store} (hs : s.Consistent) (projectId : Int) :
    ((s.functionsOf projectId).map (·.key)).Nodup ↔ s.KeysApart projectId := by
  have hlist : ((s.functionsOf projectId).map (·.key)).Perm
      ((s.functions.filter (s.isIn projectId)).map (·.key)) := by
    rw [functionsOf, listed, List.map_map]
    exact (List.mergeSort_perm _ _).map _
  have hrows : (s.functions.filter (s.isIn projectId)).Nodup := hs.functions.nodup.filter _
  -- The rows of one file have different keys anyway, so that only their paths are compared.
  rw [hlist.nodup_iff, List.nodup_map_iff_inj_on hrows]
  simp only [hs.mem_isIn]
  constructor
  · intro hinj path path' key hrow hrow'
    obtain ⟨row, hrow⟩ := Option.isSome_iff_exists.mp hrow
    obtain ⟨row', hrow'⟩ := Option.isSome_iff_exists.mp hrow'
    obtain ⟨file, hfile, -, rfl, -, hid, hkey⟩ := hs.functionIn?_eq_some.mp hrow
    obtain ⟨file', hfile', -, rfl, -, hid', hkey'⟩ := hs.functionIn?_eq_some.mp hrow'
    have hsame : row = row' := hinj row ⟨_, _, hrow⟩ row' ⟨_, _, hrow'⟩ (hkey.trans hkey'.symm)
    rw [hs.files.eq_of_id hfile hfile' (hid.symm.trans (hsame ▸ hid'))]
  · rintro hapart row ⟨path, key, hrow⟩ row' ⟨path', key', hrow'⟩ hsame
    obtain ⟨-, -, -, -, -, -, hkey⟩ := hs.functionIn?_eq_some.mp hrow
    obtain ⟨-, -, -, -, -, -, hkey'⟩ := hs.functionIn?_eq_some.mp hrow'
    obtain rfl : key = key' := hkey.symm.trans (hsame.trans hkey')
    obtain rfl := hapart path path' key (Option.isSome_of_mem hrow) (Option.isSome_of_mem hrow')
    exact Option.some.inj (hrow.symm.trans hrow')

/-- A project can be loaded just when its rows have different keys. -/
theorem Consistent.loadIndex_isOk_iff {s : Store} (hs : s.Consistent) (hread : s.Readable) {root : String}
    {p : Project} (hp : s.project? (Path.fromTop root) = some p) (supply : Anchors) :
    (s.loadIndex supply root).isOk = true ↔ s.KeysApart p.id := by
  have hrows : ∀ row ∈ s.functionsOf p.id, row.ReadsBack := by
    intro row hrow
    obtain ⟨stored, hstored, rfl⟩ := mem_listed.mp hrow
    obtain ⟨f, hf⟩ := hread stored (List.mem_filter.mp hstored).1
    exact (hf.withPath s).readsBack
  have hload : (s.loadIndex supply root).isOk = (Index.addRows {} supply (s.functionsOf p.id)).isOk := by
    rw [loadIndex]
    dsimp only
    rw [hp]
    dsimp only
    cases Index.addRows {} supply (s.functionsOf p.id) <;> rfl
  rw [hload, Index.addRows_isOk_iff rfl supply hrows, hs.nodup_keys_functionsOf]
  exact and_iff_left fun _ _ => List.not_mem_nil

/-! ## After a run -/

/-- The functions at paths that a run leaves as they are differ in their keys from each other and from those
that the run stores. -/
structure KeptApart (s : Store) (projectId : Int) (unread : List String) (keys : List String) : Prop where
  fresh : ∀ path ∈ unread, ∀ key ∈ keys, s.functionIn? projectId path key = none
  distinct : ∀ path ∈ unread, ∀ path' ∈ unread, ∀ key, (s.functionIn? projectId path key).isSome →
    (s.functionIn? projectId path' key).isSome → path = path'

namespace Indexed

variable {s s' : Store} {p : Project} {paths : List String} {merged : List Documented}
  {sources : List SourceFile}

/-- At the path of a source there are the functions that are merged from it. -/
theorem isSome_functionIn?_iff (h : s.Indexed p paths merged sources s') {path : String}
    (hpath : path ∈ SourceFile.paths sources) {key : String} :
    (s'.functionIn? p.id path key).isSome ↔ ∃ f ∈ merged, f.signature.source.file = path ∧
      f.signature.key = key := by
  constructor
  · intro hsome
    obtain ⟨row, hrow⟩ := Option.isSome_iff_exists.mp hsome
    exact h.merged_of_functionIn? hpath hrow
  · rintro ⟨f, hf, rfl, rfl⟩
    obtain ⟨row, hrow, -⟩ := h.functionIn?_of_merged hf hpath
    exact Option.isSome_of_mem hrow

theorem functionIn?_eq_kept (h : s.Indexed p paths merged sources s') {path : String} (hpath : path ∈ paths)
    (hunread : path ∉ SourceFile.paths sources) (key : String) :
    s'.functionIn? p.id path key = s.functionIn? p.id path key :=
  h.otherFunctions _ _ _ (.inr ⟨hpath, hunread⟩)

theorem mem_paths_of_isSome (h : s.Indexed p paths merged sources s') {path key : String}
    (hsome : (s'.functionIn? p.id path key).isSome) : path ∈ paths := by
  by_contra hpath
  rw [functionIn?, h.removed path hpath] at hsome
  contradiction

/-- After a run the keys of a project differ just when those of the rows it leaves as they are do. -/
theorem keysApart_iff (h : s.Indexed p paths merged sources s')
    (hkeys : (merged.map (·.signature.key)).Nodup)
    (hfiles : ∀ f ∈ merged, f.signature.source.file ∈ SourceFile.paths sources) {unread : List String}
    (hunread : ∀ path, path ∈ unread ↔ path ∈ paths ∧ path ∉ SourceFile.paths sources) :
    s'.KeysApart p.id ↔ s.KeptApart p.id unread (merged.map (·.signature.key)) := by
  constructor
  · intro hapart
    constructor
    · intro path hpath key hkey
      obtain ⟨hfound, hskipped⟩ := (hunread path).mp hpath
      obtain ⟨f, hf, rfl⟩ := List.mem_map.mp hkey
      rw [← h.functionIn?_eq_kept hfound hskipped]
      by_contra hsome
      have hmerged := (h.isSome_functionIn?_iff (hfiles f hf)).mpr ⟨f, hf, rfl, rfl⟩
      have hsame := hapart path _ _ (Option.isSome_iff_ne_none.mpr hsome) hmerged
      exact hskipped (hsame ▸ hfiles f hf)
    · intro path hpath path' hpath' key hrow hrow'
      obtain ⟨hfound, hskipped⟩ := (hunread path).mp hpath
      obtain ⟨hfound', hskipped'⟩ := (hunread path').mp hpath'
      rw [← h.functionIn?_eq_kept hfound hskipped] at hrow
      rw [← h.functionIn?_eq_kept hfound' hskipped'] at hrow'
      exact hapart path path' key hrow hrow'
  · intro hkept path path' key hrow hrow'
    have hfound := h.mem_paths_of_isSome hrow
    have hfound' := h.mem_paths_of_isSome hrow'
    -- A merged function and a row that was kept never meet in one key.
    have hmeet : ∀ {path path'}, path ∈ SourceFile.paths sources → path' ∈ paths →
        path' ∉ SourceFile.paths sources → (s'.functionIn? p.id path key).isSome →
        (s'.functionIn? p.id path' key).isSome → False := by
      intro path path' hread hfound' hskipped' hrow hrow'
      obtain ⟨f, hf, -, rfl⟩ := (h.isSome_functionIn?_iff hread).mp hrow
      rw [h.functionIn?_eq_kept hfound' hskipped',
        hkept.fresh path' ((hunread path').mpr ⟨hfound', hskipped'⟩) _ (List.mem_map_of_mem hf)] at hrow'
      contradiction
    by_cases hread : path ∈ SourceFile.paths sources
    · by_cases hread' : path' ∈ SourceFile.paths sources
      · obtain ⟨f, hf, rfl, hkey⟩ := (h.isSome_functionIn?_iff hread).mp hrow
        obtain ⟨f', hf', rfl, hkey'⟩ := (h.isSome_functionIn?_iff hread').mp hrow'
        rw [List.inj_on_of_nodup_map hkeys hf hf' (hkey.trans hkey'.symm)]
      · exact (hmeet hread hfound' hread' hrow hrow').elim
    · by_cases hread' : path' ∈ SourceFile.paths sources
      · exact (hmeet hread' hfound hread hrow' hrow).elim
      · rw [h.functionIn?_eq_kept hfound hread] at hrow
        rw [h.functionIn?_eq_kept hfound' hread'] at hrow'
        exact hkept.distinct path ((hunread path).mpr ⟨hfound, hread⟩) path'
          ((hunread path').mpr ⟨hfound', hread'⟩) key hrow hrow'

end Indexed

end Store

/-- The paths whose files cannot be read. -/
def Tree.unreadAt (tree : Tree) (root : String) (paths : List String) : List String :=
  paths.filter fun path => (tree.textAt? root path).isNone

theorem SourceState.Read.mem_unreadAt {tree : Tree} {root : String} {paths : List String}
    {states : List SourceState} (h : Read tree root paths states) (path : String) :
    path ∈ tree.unreadAt root paths ↔ path ∈ paths ∧ path ∉ SourceFile.paths (files states) := by
  have hpaths : SourceFile.paths (files states) = (tree.textsAt root paths).map (·.1) := by
    rw [← h.texts, SourceFile.paths, SourceFile.texts, List.map_map]
    rfl
  have hshape : ∀ q text, tree.textAt? root q = some text → text.1 = q := by
    intro q text htext
    obtain ⟨-, -, rfl⟩ := Option.map_eq_some_iff.mp htext
    rfl
  rw [hpaths, Tree.unreadAt, List.mem_filter, Option.isNone_iff_eq_none]
  refine and_congr_right fun hpath => ?_
  constructor
  · intro hnone hmem
    obtain ⟨text, htext, rfl⟩ := List.mem_map.mp hmem
    obtain ⟨q, -, hq⟩ := List.mem_filterMap.mp htext
    rw [hshape q text hq, hq] at hnone
    contradiction
  · intro hmissing
    cases htext : tree.textAt? root path with
    | none => rfl
    | some text =>
        have hmem : text ∈ tree.textsAt root paths := List.mem_filterMap.mpr ⟨path, hpath, htext⟩
        exact absurd (List.mem_map.mpr ⟨text, hmem, hshape path text htext⟩) hmissing

namespace Store

/-- After a run that finds paths the project can be loaded just when the rows that the run has left as they
were stand apart. -/
theorem Consistent.loadIndex_indexProject_iff {s : Store} (hs : s.Consistent) (hreadable : s.Readable)
    {tree : Tree} (hsize : ∀ text ∈ tree.texts, text.length < Nat.pow 2 63) {root : String}
    {options : IndexOptions} {paths : List String}
    (hpaths : options.paths tree (Path.fromTop root) = .ok paths) (supply supply' : Anchors) :
    ∃ report p,
      (s.indexProject supply tree root options).outcome = .ok report ∧
      (s.indexProject supply tree root options).store.project? (Path.fromTop root) = some p ∧
      (((s.indexProject supply tree root options).store.loadIndex supply' root).isOk = true ↔
        s.KeptApart p.id (tree.unreadAt (Path.fromTop root) paths)
          ((declaredBy (tree.textsAt (Path.fromTop root) paths)).map (·.signature.key))) := by
  obtain ⟨p, states, supply₁, report, hroot, hstates, houtcome, -, -, hindexed⟩ :=
    hs.indexProject_of_ok supply hpaths
  have hread := SourceState.read_of_eq hstates
  have hbuilt := hread.built_files
  have hkeys : (declaredBy (tree.textsAt (Path.fromTop root) paths)).map (·.signature.key) =
      (SourceFile.merged supply₁ (SourceState.files states)).map (·.signature.key) := by
    rw [← hread.texts, ← SourceFile.merged_unanchored supply₁ hbuilt, List.map_map]
    rfl
  obtain ⟨q, hq, hid⟩ := hindexed.project
  rw [hroot] at hq
  refine ⟨report, q, houtcome, hq, ?_⟩
  have hreadable' := hreadable.indexProject hs supply hsize root options
  rw [hindexed.consistent.loadIndex_isOk_iff hreadable' hq, hid, hkeys]
  exact hindexed.keysApart_iff (SourceFile.nodup_keys_merged supply₁ hbuilt)
    (SourceFile.file_mem_of_merged supply₁ hbuilt) hread.mem_unreadAt

/-- A run that finds paths keeps the identity of its project. -/
theorem Consistent.project?_indexProject {s : Store} (hs : s.Consistent) {tree : Tree} {root : String}
    {options : IndexOptions} {paths : List String}
    (hpaths : options.paths tree (Path.fromTop root) = .ok paths) {p : Project}
    (hp : s.project? (Path.fromTop root) = some p) (supply : Anchors) :
    ∃ q, (s.indexProject supply tree root options).store.project? (Path.fromTop root) = some q ∧
      q.id = p.id := by
  obtain ⟨hmem, hroot⟩ := hs.project?_eq_some.mp hp
  rw [← hroot] at hpaths
  obtain ⟨_, _, _, -, -, -, -, hindexed⟩ := hs.indexSources hmem supply hpaths
  rw [indexProject, Store.getOrCreateProject, hp, ← hroot]
  exact hindexed.project

end Store

/-! ## A lost source -/

/-- A folder whose first source has become a link that leads nowhere. -/
def Tree.ofLost (b : String) : Tree := .folder [("a.stan", .link "nowhere"), ("b.stan", .file b)]

/-- A visit to such a folder. -/
def Visit.ofLost (b : String) : Visit where
  tree := .ofLost b
  root := "/"

theorem IndexOptions.paths_ofLost (b : String) :
    ({} : IndexOptions).paths (.ofLost b) (Path.fromTop "/") = .ok ["a.stan", "b.stan"] := by
  rw [Path.fromTop_slash]
  exact paths_ofPair (fun _ => nofun) (fun _ => nofun)

theorem Tree.textAt?_ofLost (b : String) : (Tree.ofLost b).textAt? "/" "a.stan" = none := by
  obtain ⟨hfault, hsteps, hname, hlength⟩ := steps_ofPair "a.stan" (by decide)
  have htarget : Path.steps "nowhere" = ["nowhere"] ∧ Path.isAbsolute "nowhere" = false := by decide +kernel
  have hshort : ¬ maxName < "a.stan".utf8ByteSize ∧ ¬ maxName < "nowhere".utf8ByteSize := by decide +kernel
  have hlost : (Tree.ofLost b).locate .target (Path.join ["/", "a.stan"]) = .error .notFound := by
    simp [locate, hfault, hsteps, htarget, hshort, follow, maxLinks, Tree.at?, Tree.entry?, Goal.clashes, Goal.target,
      ofLost]
  rw [textAt?, readText, get, hlost]
  rfl

theorem Tree.textAt?_ofLost_right (b : String) :
    (Tree.ofLost b).textAt? "/" "b.stan" = some ("b.stan", b) := by
  rw [textAt?, ofLost, readText_ofPair_right]
  rfl

theorem Tree.textsAt_ofLost (b : String) :
    (Tree.ofLost b).textsAt "/" ["a.stan", "b.stan"] = [("b.stan", b)] := by
  rw [textsAt, List.filterMap_cons_none (textAt?_ofLost b), List.filterMap_cons_some (textAt?_ofLost_right b)]
  rfl

theorem Tree.unreadAt_ofLost (b : String) :
    (Tree.ofLost b).unreadAt "/" ["a.stan", "b.stan"] = ["a.stan"] := by
  simp [unreadAt, textAt?_ofLost, textAt?_ofLost_right]

theorem Tree.textsAt_ofPair (a b : String) :
    (Tree.ofPair a b).textsAt "/" ["a.stan", "b.stan"] = [("a.stan", a), ("b.stan", b)] := by
  have ha : (Tree.ofPair a b).textAt? "/" "a.stan" = some ("a.stan", a) := by
    rw [textAt?, ofPair, readText_ofPair_left]
    rfl
  have hb : (Tree.ofPair a b).textAt? "/" "b.stan" = some ("b.stan", b) := by
    rw [textAt?, ofPair, readText_ofPair_right]
    rfl
  rw [textsAt, List.filterMap_cons_some ha, List.filterMap_cons_some hb]
  rfl

namespace Store

/-- After the first run over two sources the functions at their paths are those that they declare. -/
theorem functionIn?_ofPair (a b : String) (supply : Anchors) :
    ∃ p, (({} : Store).indexProject supply (.ofPair a b) "/" {}).outcome.isOk = true ∧
      (({} : Store).indexProject supply (.ofPair a b) "/" {}).store.project? "/" = some p ∧
      ∀ path ∈ ["a.stan", "b.stan"], ∀ key,
        ((({} : Store).indexProject supply (.ofPair a b) "/" {}).store.functionIn? p.id path key).isSome ↔
          ∃ f ∈ declaredBy [("a.stan", a), ("b.stan", b)], f.signature.source.file = path ∧
            f.signature.key = key := by
  have hreads := IndexOptions.reads_ofPair a b
  rw [← Path.fromTop_slash] at hreads
  obtain ⟨p, states, supply₁, report, hroot, hstates, houtcome, -, -, hindexed⟩ :=
    Consistent.empty.indexProject_of_ok supply hreads.found
  have hread := SourceState.read_of_eq hstates
  have hdeclared : declaredBy [("a.stan", a), ("b.stan", b)] =
      (SourceFile.merged supply₁ (SourceState.files states)).map Documented.unanchored := by
    rw [SourceFile.merged_unanchored supply₁ hread.built_files, hread.texts, Path.fromTop_slash, Tree.textsAt_ofPair]
  obtain ⟨q, hq, hid⟩ := hindexed.project
  rw [hroot, Path.fromTop_slash] at hq
  refine ⟨q, by rw [houtcome]; rfl, hq, fun path hpath key => ?_⟩
  have hfound : path ∈ SourceFile.paths (SourceState.files states) :=
    (hread.paths_files hreads.readable).symm ▸ hpath
  rw [hid, hindexed.isSome_functionIn?_iff hfound, hdeclared]
  constructor
  · rintro ⟨f, hf, hplace⟩
    exact ⟨f.unanchored, List.mem_map_of_mem hf, hplace⟩
  · rintro ⟨g, hg, hplace⟩
    obtain ⟨f, hf, rfl⟩ := List.mem_map.mp hg
    exact ⟨f, hf, hplace⟩

/-- Of what has been lost at one path only the keys count that come again elsewhere. -/
theorem keptApart_singleton {s : Store} {projectId : Int} {path : String} {keys : List String} :
    s.KeptApart projectId [path] keys ↔ ∀ key ∈ keys, s.functionIn? projectId path key = none := by
  constructor
  · intro h
    exact h.fresh path List.mem_cons_self
  · intro h
    constructor
    · intro path' hpath'
      rwa [List.mem_singleton.mp hpath']
    · intro path' hpath' path'' hpath'' _ _ _
      rw [List.mem_singleton.mp hpath', List.mem_singleton.mp hpath'']

/-- Once the first of two sources is lost, the project can be loaded just when what it declared is declared
nowhere else. -/
theorem loadIndex_ofLost_iff {a b c : String}
    (hearlier : ∀ text ∈ Visit.texts [.ofPair a b {}], text.length < Nat.pow 2 63)
    (hlast : ∀ text ∈ (Tree.ofLost c).texts, text.length < Nat.pow 2 63) (supply : Anchors) :
    ((afterVisits [.ofPair a b {}]).visit (.ofLost c)).outcome.isOk = true ∧
      (((afterVisits [.ofPair a b {}, .ofLost c]).loadIndex supply "/").isOk = true ↔
        ∀ f ∈ declaredBy [("a.stan", a), ("b.stan", b)], f.signature.source.file = "a.stan" →
          f.signature.key ∉ (declaredBy [("b.stan", c)]).map (·.signature.key)) := by
  have hs : (afterVisits [.ofPair a b {}]).Consistent := (reached_afterVisits _).invariant.1
  have hpaths := IndexOptions.paths_ofLost c
  obtain ⟨q, -, hq, hfunctions⟩ := functionIn?_ofPair a b {}
  obtain ⟨report, p, houtcome, hp, hload⟩ :=
    hs.loadIndex_indexProject_iff (readable_afterVisits hearlier) hlast hpaths {} supply
  obtain ⟨q', hq', hid⟩ := hs.project?_indexProject hpaths (Path.fromTop_slash.symm ▸ hq) {}
  obtain rfl : p = q' := Option.some.inj (hp.symm.trans hq')
  rw [Path.fromTop_slash, Tree.unreadAt_ofLost, Tree.textsAt_ofLost, keptApart_singleton, hid] at hload
  refine ⟨(congrArg Except.isOk houtcome).trans rfl, hload.trans ?_⟩
  constructor
  · intro hnone f hf hfile hkey
    have hsome := (hfunctions "a.stan" (by decide) f.signature.key).mpr ⟨f, hf, hfile, rfl⟩
    exact Option.isSome_iff_ne_none.mp hsome (hnone _ hkey)
  · intro hall key hkey
    by_contra hsome
    obtain ⟨f, hf, hfile, rfl⟩ := (hfunctions "a.stan" (by decide) key).mp (Option.isSome_iff_ne_none.mpr hsome)
    exact hall f hf hfile hkey

/-! ## Loading after visits -/

/-- A successful run need not leave a project that can be loaded. After any visits, one more that finds paths
goes through. The project can then be loaded just when the functions that the store has from before at the
paths whose files cannot be read now have other keys than each other and than what the texts at the other
paths declare. Texts are of less than 2^63 characters. -/
theorem loadIndex_afterVisits_iff (history : List Visit) (last : Visit) {paths : List String}
    (hpaths : last.options.paths last.tree (Path.fromTop last.root) = .ok paths)
    (hsize : ∀ text ∈ Visit.texts (history ++ [last]), text.length < Nat.pow 2 63) (supply : Anchors) :
    ∃ report p,
      ((afterVisits history).visit last).outcome = .ok report ∧
      (afterVisits (history ++ [last])).project? (Path.fromTop last.root) = some p ∧
      (((afterVisits (history ++ [last])).loadIndex supply last.root).isOk = true ↔
        (afterVisits history).KeptApart p.id (last.tree.unreadAt (Path.fromTop last.root) paths)
          ((declaredBy (last.tree.textsAt (Path.fromTop last.root) paths)).map (·.signature.key))) := by
  rw [Visit.texts, List.flatMap_append, List.flatMap_singleton] at hsize
  obtain ⟨hearlier, hlast⟩ := List.forall_mem_append.mp hsize
  rw [afterVisits_concat]
  exact (reached_afterVisits history).invariant.1.loadIndex_indexProject_iff (readable_afterVisits hearlier)
    hlast hpaths last.supply supply

/-- A source is lost, and what is left declares none of its functions. -/
theorem loadIndex_after_lost_source :
    ∃ report p,
      ((afterVisits [.ofPair "real f(real x);" "int n();" {}]).visit (.ofLost "int n();")).outcome =
        .ok report ∧
      (afterVisits [.ofPair "real f(real x);" "int n();" {}, .ofLost "int n();"]).project? "/" = some p ∧
      (((afterVisits [.ofPair "real f(real x);" "int n();" {}, .ofLost "int n();"]).loadIndex {} "/").isOk =
          true ↔
        (afterVisits [.ofPair "real f(real x);" "int n();" {}]).KeptApart p.id ["a.stan"] ["n()"]) := by
  have hsize : ∀ text ∈ Visit.texts ([.ofPair "real f(real x);" "int n();" {}] ++ [.ofLost "int n();"]),
      text.length < Nat.pow 2 63 := by
    decide +kernel
  have hkeys : (declaredBy [("b.stan", "int n();")]).map (·.signature.key) = ["n()"] := by decide +kernel
  have happlied := loadIndex_afterVisits_iff [.ofPair "real f(real x);" "int n();" {}] (.ofLost "int n();")
    (IndexOptions.paths_ofLost "int n();") hsize {}
  change ∃ report p, _ ∧ project? _ (Path.fromTop "/") = _ ∧ (_ ↔ KeptApart _ _
    (Tree.unreadAt (.ofLost "int n();") (Path.fromTop "/") _)
    ((declaredBy (Tree.textsAt (.ofLost "int n();") (Path.fromTop "/") _)).map _)) at happlied
  rw [Path.fromTop_slash, Tree.unreadAt_ofLost, Tree.textsAt_ofLost, hkeys] at happlied
  exact happlied

/-- A function that was in a file which is there and cannot be read any more is declared in another file. Both
runs go through, and the project cannot be loaded. -/
theorem loadIndex_after_function_declared_again :
    (({} : Store).visit (.ofPair "real f(real x);" "int n();" {})).outcome.isOk = true ∧
      ((afterVisits [.ofPair "real f(real x);" "int n();" {}]).visit
        (.ofLost "real f(real x);")).outcome.isOk = true ∧
      ((afterVisits [.ofPair "real f(real x);" "int n();" {}, .ofLost "real f(real x);"]).loadIndex {}
        "/").isOk = false := by
  obtain ⟨-, hfirst, -, -⟩ := functionIn?_ofPair "real f(real x);" "int n();" {}
  have hearlier : ∀ text ∈ Visit.texts [.ofPair "real f(real x);" "int n();" {}],
      text.length < Nat.pow 2 63 := by
    decide +kernel
  have hlast : ∀ text ∈ (Tree.ofLost "real f(real x);").texts, text.length < Nat.pow 2 63 := by
    decide +kernel
  obtain ⟨hsecond, hload⟩ := loadIndex_ofLost_iff hearlier hlast {}
  refine ⟨hfirst, hsecond, Bool.eq_false_iff.mpr fun hok => ?_⟩
  exact absurd (hload.mp hok) (by decide +kernel)

end Store

end OverloadDocs
