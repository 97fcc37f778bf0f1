import Mathlib.Data.List.Nodup
import Mathlib.Data.List.TakeWhile
import OverloadDocs.Proofs.Indexing

/-!
Discovered files. In a tree whose folders give different proper names to their entries, a walk comes to every
path once, since the entries of a folder lead to paths that differ in the name of the entry. What is read at
any path is a text that the tree holds somewhere, whatever links lead there.
-/

namespace OverloadDocs

namespace Tree

/-- What an entry of a folder can be called: something without a slash that does not stand for the folder
or the one above it. -/
def IsEntryName (name : String) : Prop := name ≠ "" ∧ name ≠ "." ∧ name ≠ ".." ∧ '/' ∉ name.toList

instance (name : String) : Decidable (IsEntryName name) := inferInstanceAs (Decidable (_ ∧ _))

/-- The entries of every folder have different proper names. -/
inductive WellFormed : Tree → Prop
  | file (text : String) : WellFormed (.file text)
  | database (saved : String) : WellFormed (.database saved)
  | link (target : String) : WellFormed (.link target)
  | folder {entries : List (String × Tree)} (names : (entries.map (·.1)).Nodup)
      (proper : ∀ e ∈ entries, IsEntryName e.1) (inner : ∀ e ∈ entries, WellFormed e.2) :
      WellFormed (.folder entries)

theorem WellFormed.at? {t u : Tree} (ht : t.WellFormed) {names : List String}
    (h : t.at? names = some u) : u.WellFormed := by
  induction names generalizing t with
  | nil =>
      obtain rfl := Option.some.inj h
      exact ht
  | cons name names ih =>
      rw [Tree.at?] at h
      obtain ⟨next, hnext, h⟩ := Option.bind_eq_some_iff.mp h
      refine ih ?_ h
      cases ht with
      | file | database | link => cases hnext
      | folder _ _ inner =>
          obtain ⟨e, he, rfl⟩ := Option.map_eq_some_iff.mp hnext
          exact inner e (List.mem_of_find?_eq_some he)

theorem getEntry_eq_ok {t u : Tree} {path : String} (h : t.getEntry path = .ok u) :
    ∃ place, t.at? place = some u := by
  rw [getEntry] at h
  cases hplace : t.locate .entry path with
  | error cause =>
      rw [hplace] at h
      cases h
  | ok place =>
      simp only [hplace, bind, Except.bind] at h
      split at h
      · rename_i v hat
        obtain rfl := Except.ok.inj h
        exact ⟨place, hat⟩
      · cases h

/-! ## Walks -/

theorem filesOfEntries_eq (skip : String → Bool) (path : String) (entries : List (String × Tree)) :
    filesOfEntries skip path entries = entries.flatMap fun e => e.2.files skip (entryPath path e.1) := by
  induction entries with
  | nil => rfl
  | cons e entries ih => rw [filesOfEntries, ih, List.flatMap_cons]

/-- A path leads to a place or below it. -/
def Under (place path : List Char) : Prop := path = place ∨ ∃ rest, path = place ++ '/' :: rest

theorem Under.of_append {place more path : List Char} (h : Under (place ++ '/' :: more) path) :
    Under place path := by
  rcases h with rfl | ⟨rest, rfl⟩
  · exact .inr ⟨more, rfl⟩
  · exact .inr ⟨more ++ '/' :: rest, by rw [List.append_assoc, List.cons_append]⟩

/-- Below a folder the name of the entry can be read off a path. -/
theorem Under.name_eq {before name name' path : List Char} (hname : '/' ∉ name) (hname' : '/' ∉ name')
    (h : Under (before ++ name) path) (h' : Under (before ++ name') path) : name = name' := by
  have htake : ∀ {name path : List Char}, '/' ∉ name → Under (before ++ name) path →
      ∃ rest, path = before ++ rest ∧ rest.takeWhile (· ≠ '/') = name := by
    intro name path hname h
    have hall : ∀ c ∈ name, decide (c ≠ '/') = true :=
      fun c hc => decide_eq_true fun heq => hname (heq ▸ hc)
    rcases h with rfl | ⟨rest, rfl⟩
    · exact ⟨name, rfl, List.takeWhile_eq_self_iff.mpr hall⟩
    · refine ⟨name ++ '/' :: rest, List.append_assoc .., ?_⟩
      rw [List.takeWhile_append_of_pos hall]
      simp
  obtain ⟨rest, hpath, hrest⟩ := htake hname h
  obtain ⟨rest', hpath', hrest'⟩ := htake hname' h'
  rw [← hrest, ← hrest', List.append_cancel_left (hpath.symm.trans hpath')]

/-- What stands before the name in the path of an entry. -/
def beforeName (folder : String) : List Char := if folder = "." then [] else folder.toList ++ ['/']

theorem toList_entryPath (folder name : String) :
    (entryPath folder name).toList = beforeName folder ++ name.toList := by
  rw [entryPath, beforeName]
  split
  · rfl
  · rw [String.toList_append, String.toList_append]
    rfl

theorem entryPath_ne_top (folder : String) {name : String} (hname : IsEntryName name) :
    entryPath folder name ≠ "." := by
  rw [entryPath]
  split
  · exact hname.2.1
  · intro h
    have hmem : '/' ∈ (folder ++ "/" ++ name).toList := by
      rw [String.toList_append, String.toList_append]
      exact List.mem_append_left _ (List.mem_append_right _ (by decide))
    rw [h] at hmem
    exact absurd hmem (by decide)

theorem WellFormed.under_files {t : Tree} (ht : t.WellFormed) (skip : String → Bool) {path : String}
    (hpath : path ≠ ".") : ∀ q ∈ t.files skip path, Under path.toList q.toList := by
  induction ht generalizing path with
  | file | database | link =>
      intro q hq
      rw [files] at hq
      · rw [List.mem_singleton.mp hq]
        exact .inl rfl
      · exact fun _ => nofun
  | folder _ proper _ ih =>
      intro q hq
      rw [files] at hq
      split at hq
      · cases hq
      · rw [filesOfEntries_eq] at hq
        obtain ⟨e, he, hq⟩ := List.mem_flatMap.mp hq
        have h := ih e he (entryPath_ne_top path (proper e he)) q hq
        rw [toList_entryPath, beforeName, if_neg hpath, List.append_assoc] at h
        exact h.of_append

/-- A walk comes to no path twice. -/
theorem WellFormed.nodup_files {t : Tree} (ht : t.WellFormed) (skip : String → Bool) (path : String) :
    (t.files skip path).Nodup := by
  induction ht generalizing path with
  | file | database | link =>
      rw [files]
      · exact List.nodup_singleton _
      · exact fun _ => nofun
  | folder names proper inner ih =>
      rw [files]
      split
      · exact List.nodup_nil
      · rw [filesOfEntries_eq, List.nodup_flatMap]
        refine ⟨fun e he => ih e he _, ?_⟩
        refine (List.pairwise_map.mp names).imp_of_mem fun {e e'} he he' hne => ?_
        -- A path below two entries would continue with the names of both.
        intro q hq hq'
        have h := (inner e he).under_files skip (entryPath_ne_top path (proper e he)) q hq
        have h' := (inner e' he').under_files skip (entryPath_ne_top path (proper e' he')) q hq'
        rw [toList_entryPath] at h h'
        exact hne (String.toList_injective
          (Under.name_eq (proper e he).2.2.2 (proper e' he').2.2.2 h h'))

/-! ## Texts -/

mutual

/-- The texts that files of a tree are read as. -/
def texts : Tree → List String
  | .file text => [text]
  | .database _ => [databaseHeader]
  | .link _ => []
  | .folder entries => textsOfEntries entries

def textsOfEntries : List (String × Tree) → List String
  | [] => []
  | (_, t) :: entries => t.texts ++ textsOfEntries entries

end

theorem texts_subset_of_mem {entries : List (String × Tree)} {e : String × Tree} (he : e ∈ entries) :
    e.2.texts ⊆ textsOfEntries entries := by
  induction entries with
  | nil => cases he
  | cons e' entries ih =>
      rw [textsOfEntries]
      rcases List.mem_cons.mp he with rfl | he
      · exact List.subset_append_left _ _
      · exact List.Subset.trans (ih he) (List.subset_append_right _ _)

theorem texts_subset_of_at? {t u : Tree} {names : List String} (h : t.at? names = some u) :
    u.texts ⊆ t.texts := by
  induction names generalizing t with
  | nil =>
      obtain rfl := Option.some.inj h
      exact List.Subset.refl _
  | cons name names ih =>
      rw [Tree.at?] at h
      obtain ⟨next, hnext, h⟩ := Option.bind_eq_some_iff.mp h
      refine List.Subset.trans (ih h) ?_
      cases t with
      | file | database | link => cases hnext
      | folder entries =>
          obtain ⟨e, he, rfl⟩ := Option.map_eq_some_iff.mp hnext
          rw [texts]
          exact texts_subset_of_mem (List.mem_of_find?_eq_some he)

/-- What is read at a path is a text of the tree. -/
theorem mem_texts_of_readText {t : Tree} {path text : String} (h : t.readText path = .ok text) :
    text ∈ t.texts := by
  have hget : ∃ u, t.get path = .ok u ∧ text ∈ u.texts := by
    rw [readText] at h
    split at h
    · rename_i hget
      obtain rfl := Except.ok.inj h
      exact ⟨_, hget, by simp [texts]⟩
    · rename_i hget
      obtain rfl := Except.ok.inj h
      exact ⟨_, hget, by simp [texts]⟩
    · cases h
    · cases h
  obtain ⟨u, hget, hmem⟩ := hget
  rw [get] at hget
  cases hplace : t.locate .target path with
  | error cause =>
      rw [hplace] at hget
      cases hget
  | ok place =>
      simp only [hplace, bind, Except.bind] at hget
      split at hget
      · rename_i v hat
        obtain rfl := Except.ok.inj hget
        exact texts_subset_of_at? hat hmem
      · cases hget

end Tree

/-- The text of a source that was read is one of the tree, found at its path. -/
theorem SourceState.Read.text_mem {tree : Tree} {root : String} {paths : List String}
    {states : List SourceState} (h : Read tree root paths states) {source : SourceFile}
    (hsource : source ∈ files states) :
    tree.readText (Path.join [root, source.path]) = .ok source.text ∧ source.text ∈ tree.texts := by
  have hmem : (source.path, source.text) ∈ tree.textsAt root paths :=
    h.texts ▸ List.mem_map_of_mem (f := fun source : SourceFile => (source.path, source.text)) hsource
  obtain ⟨path, -, hpath⟩ := List.mem_filterMap.mp hmem
  rw [Tree.textAt?] at hpath
  cases htext : tree.readText (Path.join [root, path]) with
  | error e =>
      rw [htext] at hpath
      cases hpath
  | ok text =>
      rw [htext] at hpath
      obtain ⟨rfl, rfl⟩ := Prod.mk.inj (Option.some.inj hpath)
      exact ⟨htext, Tree.mem_texts_of_readText htext⟩

namespace Discovery

theorem passing_sublist {check : String → Except Glob.Overrun Bool} {paths found : List String}
    (h : passing check paths = .ok found) : found.Sublist paths := by
  induction paths generalizing found with
  | nil =>
      obtain rfl := Except.ok.inj h
      exact .slnil
  | cons path paths ih =>
      rw [passing] at h
      cases hcheck : check path with
      | error e =>
          rw [hcheck] at h
          cases h
      | ok passes =>
          cases hrest : passing check paths with
          | error e =>
              rw [hcheck, hrest] at h
              cases h
          | ok rest =>
              rw [hcheck, hrest] at h
              obtain rfl := Except.ok.inj h
              split
              · exact (ih hrest).cons_cons path
              · exact (ih hrest).cons path

/-- No source is found twice. -/
theorem nodup_sources {d : Discovery} {tree : Tree} (htree : tree.WellFormed) {root : String}
    {paths : List String} (h : d.sources tree root = .ok paths) : paths.Nodup := by
  rw [sources] at h
  split at h
  · cases h
  · rename_i start hstart
    obtain ⟨place, hplace⟩ := Tree.getEntry_eq_ok hstart
    split at h
    · rename_i found hfound
      obtain rfl := Except.ok.inj h
      rw [(List.mergeSort_perm _ _).nodup_iff]
      exact ((htree.at? hplace).nodup_files _ _).sublist (passing_sublist hfound)
    · cases h
    · cases h

end Discovery

theorem IndexOptions.nodup_paths {options : IndexOptions} {tree : Tree} (htree : tree.WellFormed)
    {root : String} {paths : List String} (h : options.paths tree root = .ok paths) : paths.Nodup := by
  rw [IndexOptions.paths] at h
  split at h
  · cases h
  · split at h
    · cases h
    · cases h
    · rename_i found hfound
      obtain rfl := Except.ok.inj h
      exact Discovery.nodup_sources htree hfound

/-! ## Files at the top -/

namespace Tree

theorem getEntry_slash (entries : List (String × Tree)) :
    (folder entries).getEntry "/" = .ok (.folder entries) := by
  have hfault : pathFault? "/" = none := by decide +kernel
  have hsteps : Path.steps "/" = [""] := by decide +kernel
  simp [getEntry, locate, hfault, hsteps, follow, Tree.at?, bind, Except.bind, pure, Except.pure]

/-- A path of one proper name leads to the file of that name. -/
theorem readText_of_entry {entries : List (String × Tree)} {path name text : String}
    (hfault : pathFault? path = none) (hsteps : Path.steps path = [name]) (hname : IsEntryName name)
    (hlength : name.utf8ByteSize ≤ maxName) (hentry : Tree.entry? (folder entries) name = some (.file text)) :
    (folder entries).readText path = .ok text := by
  obtain ⟨hempty, hdot, hdots, -⟩ := hname
  have hplace : (folder entries).locate .target path = .ok [name] := by
    simp [locate, hfault, hsteps, follow, Tree.at?, hentry, hempty, hdot, hdots, Goal.clashes,
      Nat.not_lt.mpr hlength]
  simp [readText, get, hplace, Tree.at?, hentry, bind, Except.bind, pure, Except.pure]

/-- A folder of two sources. -/
def ofPair (a b : String) : Tree := .folder [("a.stan", .file a), ("b.stan", .file b)]

theorem wellFormed_ofPair (a b : String) : (ofPair a b).WellFormed := by
  have hnames : ["a.stan", "b.stan"].Nodup := by decide
  have hproper : IsEntryName "a.stan" ∧ IsEntryName "b.stan" := by decide
  refine .folder hnames ?_ ?_
  · exact List.forall_mem_cons.mpr ⟨hproper.1, List.forall_mem_singleton.mpr hproper.2⟩
  · exact List.forall_mem_cons.mpr ⟨.file a, List.forall_mem_singleton.mpr (.file b)⟩

/-- The paths of two entries of the top folder are proper ones. -/
theorem steps_ofPair : ∀ path ∈ ["a.stan", "b.stan"], pathFault? (Path.join ["/", path]) = none ∧
    Path.steps (Path.join ["/", path]) = [path] ∧ IsEntryName path ∧ path.utf8ByteSize ≤ maxName := by
  decide +kernel

theorem readText_ofPair_left (a : String) (u : Tree) :
    (folder [("a.stan", .file a), ("b.stan", u)]).readText (Path.join ["/", "a.stan"]) = .ok a := by
  obtain ⟨hfault, hsteps, hname, hlength⟩ := steps_ofPair "a.stan" (by decide)
  exact readText_of_entry hfault hsteps hname hlength rfl

theorem readText_ofPair_right (t : Tree) (b : String) :
    (folder [("a.stan", t), ("b.stan", .file b)]).readText (Path.join ["/", "b.stan"]) = .ok b := by
  obtain ⟨hfault, hsteps, hname, hlength⟩ := steps_ofPair "b.stan" (by decide)
  exact readText_of_entry hfault hsteps hname hlength rfl

end Tree

theorem Path.fromTop_slash : fromTop "/" = "/" := by decide +kernel

theorem Discovery.sources_ofPair {d : Discovery} (ha : d.finds? "a.stan" = .ok true)
    (hb : d.finds? "b.stan" = .ok true) {t u : Tree} (ht : ∀ entries, t ≠ .folder entries)
    (hu : ∀ entries, u ≠ .folder entries) :
    d.sources (.folder [("a.stan", t), ("b.stan", u)]) "/" = .ok ["a.stan", "b.stan"] := by
  have hleaf : ∀ {t : Tree}, (∀ entries, t ≠ .folder entries) → ∀ skip path,
      t.files skip path = [path] ∧ t.folders skip path = [] := by
    intro t ht skip path
    constructor
    · rw [Tree.files]
      exact ht
    · rw [Tree.folders]
      exact ht
  have hfiles : (Tree.folder [("a.stan", t), ("b.stan", u)]).files d.ignored "." = ["a.stan", "b.stan"] := by
    simp [Tree.files, Tree.filesOfEntries, Tree.entryPath, hleaf ht, hleaf hu]
  have hfolders : (Tree.folder [("a.stan", t), ("b.stan", u)]).folders d.ignored "." = ["."] := by
    simp [Tree.folders, Tree.foldersOfEntries, hleaf ht, hleaf hu]
  have hpassing : passing d.finds? ["a.stan", "b.stan"] = .ok ["a.stan", "b.stan"] := by
    rw [passing, ha, passing, hb]
    rfl
  have hentered : d.entered? (.folder [("a.stan", t), ("b.stan", u)]) = .ok ["."] := by
    rw [entered?, hfolders]
    rfl
  have hsort : ["a.stan", "b.stan"].mergeSort (· ≤ ·) = ["a.stan", "b.stan"] :=
    List.mergeSort_of_pairwise (by decide)
  rw [sources, Tree.getEntry_slash]
  dsimp only
  rw [hentered, hfiles, hpassing]
  exact congrArg Except.ok hsort

/-- Two entries that are no folders are found when they are called like sources. -/
theorem IndexOptions.paths_ofPair {t u : Tree} (ht : ∀ entries, t ≠ .folder entries)
    (hu : ∀ entries, u ≠ .folder entries) :
    ({} : IndexOptions).paths (.folder [("a.stan", t), ("b.stan", u)]) "/" = .ok ["a.stan", "b.stan"] := by
  have hfinds : ((Discovery.ofPatterns [] Discovery.defaultIgnores).toOption.map fun d =>
      (d.finds? "a.stan", d.finds? "b.stan")) = some (.ok true, .ok true) := by
    decide +kernel
  cases hd : Discovery.ofPatterns [] Discovery.defaultIgnores with
  | error e =>
      rw [hd] at hfinds
      cases hfinds
  | ok d =>
      rw [hd] at hfinds
      obtain ⟨ha, hb⟩ := Prod.mk.inj (Option.some.inj hfinds)
      rw [IndexOptions.paths]
      dsimp only [Option.getD_none]
      rw [hd]
      dsimp only
      rw [Discovery.sources_ofPair ha hb ht hu]

/-- Both sources of such a folder are found and read. -/
theorem IndexOptions.reads_ofPair (a b : String) :
    ({} : IndexOptions).Reads (.ofPair a b) "/" ["a.stan", "b.stan"] where
  found := IndexOptions.paths_ofPair (fun _ => nofun) (fun _ => nofun)
  readable := by
    intro path hmem
    rcases List.mem_pair.mp hmem with rfl | rfl
    · exact ⟨a, Tree.readText_ofPair_left a _⟩
    · exact ⟨b, Tree.readText_ofPair_right _ b⟩

end OverloadDocs
