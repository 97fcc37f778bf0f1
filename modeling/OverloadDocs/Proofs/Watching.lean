import OverloadDocs.Proofs.ByteOrder
import OverloadDocs.Proofs.CleanPaths

/-!
Watching covers what discovery finds. Both walks enter the same folders, and what the filter for changes accepts
is what discovery finds in a folder that it enters. So a file is a source just when the folder that it is in is
watched and a change of it counts.
-/

namespace OverloadDocs

namespace Tree

/-! ## Places -/

/-- The place of something that is no folder. -/
def IsFileAt (t : Tree) (names : List String) : Prop := ∃ u, t.at? names = some u ∧ u.isFolder = false

theorem IsFileAt.ne_nil {t : Tree} {names : List String} (h : t.IsFileAt names) (ht : t.isFolder = true) :
    names ≠ [] := by
  rintro rfl
  obtain ⟨u, hat, hu⟩ := h
  obtain rfl := Option.some.inj hat
  exact Bool.false_ne_true (hu.symm.trans ht)

theorem WellFormed.entry?_eq_some_iff {entries : List (String × Tree)} (h : (Tree.folder entries).WellFormed)
    {name : String} {u : Tree} : Tree.entry? (Tree.folder entries) name = some u ↔ (name, u) ∈ entries := by
  cases h with
  | folder names _ _ =>
      rw [ Tree.entry?, Option.map_eq_some_iff]
      constructor
      · rintro ⟨e, he, rfl⟩
        have hname : e.1 = name := by simpa using List.find?_some he
        exact hname ▸ List.mem_of_find?_eq_some he
      · intro hmem
        have hsome : (entries.find? (·.1 = name)).isSome := List.find?_isSome.mpr ⟨_, hmem, decide_eq_true rfl⟩
        obtain ⟨e, he⟩ := Option.isSome_iff_exists.mp hsome
        have hname : e.1 = name := by simpa using List.find?_some he
        have heq : e = (name, u) := List.inj_on_of_nodup_map names (List.mem_of_find?_eq_some he) hmem hname
        exact ⟨e, he, congrArg Prod.snd heq⟩

/-- What stands below a well-formed folder is below one of its entries. -/
theorem WellFormed.at?_cons_iff {entries : List (String × Tree)} (h : (Tree.folder entries).WellFormed)
    {name : String} {names : List String} {v : Tree} :
    (Tree.folder entries).at? (name :: names) = some v ↔ ∃ u, (name, u) ∈ entries ∧ u.at? names = some v := by
  rw [Tree.at?, Option.bind_eq_some_iff]
  exact exists_congr fun u => and_congr_left fun _ => h.entry?_eq_some_iff

theorem WellFormed.isEntryName_of_at? {t u : Tree} (ht : t.WellFormed) {names : List String}
    (h : t.at? names = some u) : ∀ name ∈ names, IsEntryName name := by
  induction names generalizing t with
  | nil => exact fun _ => nofun
  | cons name names ih =>
      cases ht with
      | file | database | link => cases h
      | folder hnames proper inner =>
          obtain ⟨next, hmem, hat⟩ := (WellFormed.folder hnames proper inner).at?_cons_iff.mp h
          exact List.forall_mem_cons.mpr ⟨proper _ hmem, ih (inner _ hmem) hat⟩

theorem IsFileAt.isEntryName {t : Tree} {names : List String} (h : t.IsFileAt names) (ht : t.WellFormed) :
    ∀ name ∈ names, IsEntryName name := by
  obtain ⟨u, hat, -⟩ := h
  exact ht.isEntryName_of_at? hat

/-- What stands before the last name of a place is a folder. -/
theorem at?_concat {t u : Tree} {folders : List String} {name : String} (h : t.at? (folders ++ [name]) = some u) :
    ∃ entries, t.at? folders = some (.folder entries) := by
  induction folders generalizing t with
  | nil =>
      cases t with
      | folder entries => exact ⟨entries, rfl⟩
      | file | database | link => cases h
  | cons first folders ih =>
      rw [List.cons_append, at?] at h
      obtain ⟨next, hnext, h⟩ := Option.bind_eq_some_iff.mp h
      obtain ⟨entries, hat⟩ := ih h
      exact ⟨entries, by rw [at?, hnext, Option.bind_some, hat]⟩

/-! ## Walks -/

/-- A walk does not skip the folder of that path; it never skips the one where it begins. -/
def Open (skip : String → Bool) (path : String) : Prop := path = "." ∨ skip path = false

/-- A walk that begins at a path enters every folder on the way to a place. -/
def Reaches (skip : String → Bool) (path : String) : List String → Prop
  | [] => True
  | name :: names => Open skip path ∧ Reaches skip (entryPath path name) names

theorem reaches_concat {skip : String → Bool} {path : String} {folders : List String} {name : String} :
    Reaches skip path (folders ++ [name]) ↔
      Reaches skip path folders ∧ Open skip (folders.foldl entryPath path) := by
  induction folders generalizing path with
  | nil =>
      rw [List.nil_append, Reaches, Reaches, and_comm]
      exact .rfl
  | cons first folders ih => rw [List.cons_append, Reaches, Reaches, ih, and_assoc, List.foldl_cons]

theorem foldersOfEntries_eq (skip : String → Bool) (path : String) (entries : List (String × Tree)) :
    foldersOfEntries skip path entries = entries.flatMap fun e => e.2.folders skip (entryPath path e.1) := by
  induction entries with
  | nil => rfl
  | cons e entries ih => rw [foldersOfEntries, ih, List.flatMap_cons]

theorem not_skipped_iff {skip : String → Bool} {path : String} :
    ¬ (path ≠ "." ∧ skip path = true) ↔ Open skip path := by
  rw [Open, not_and, Bool.not_eq_true, ne_eq]
  exact Decidable.or_iff_not_imp_left.symm

/-- A walk comes to the files at places that it reaches. -/
theorem WellFormed.mem_files {t : Tree} (ht : t.WellFormed) {skip : String → Bool} {path q : String} :
    q ∈ t.files skip path ↔
      ∃ names, t.IsFileAt names ∧ Reaches skip path names ∧ q = names.foldl entryPath path := by
  induction ht generalizing path with
  | file | database | link =>
      rw [files, List.mem_singleton]
      · constructor
        · rintro rfl
          exact ⟨[], ⟨_, rfl, rfl⟩, trivial, rfl⟩
        · rintro ⟨names, ⟨u, hat, -⟩, -, rfl⟩
          cases names with
          | nil => rfl
          | cons name names => cases hat
      · intro _ h
        cases h
  | @folder entries names proper inner ih =>
      have hfolder := WellFormed.folder names proper inner
      rw [files]
      constructor
      · intro hq
        split at hq
        · cases hq
        · rename_i hopen
          rw [filesOfEntries_eq] at hq
          obtain ⟨e, he, hq⟩ := List.mem_flatMap.mp hq
          obtain ⟨below, ⟨u, hat, hu⟩, hreaches, rfl⟩ := (ih e he).mp hq
          exact ⟨e.1 :: below, ⟨u, hfolder.at?_cons_iff.mpr ⟨e.2, he, hat⟩, hu⟩,
            ⟨not_skipped_iff.mp hopen, hreaches⟩, rfl⟩
      · rintro ⟨place, ⟨u, hat, hu⟩, hreaches, rfl⟩
        cases place with
        | nil =>
            obtain rfl := Option.some.inj hat
            cases hu
        | cons name below =>
            obtain ⟨next, hmem, hat⟩ := hfolder.at?_cons_iff.mp hat
            rw [if_neg (not_skipped_iff.mpr hreaches.1), filesOfEntries_eq]
            exact List.mem_flatMap.mpr ⟨_, hmem, (ih _ hmem).mpr ⟨below, ⟨u, hat, hu⟩, hreaches.2, rfl⟩⟩

/-- A walk comes to the folders at places that it reaches and does not skip. -/
theorem WellFormed.mem_folders {t : Tree} (ht : t.WellFormed) {skip : String → Bool} {path q : String} :
    q ∈ t.folders skip path ↔
      ∃ names entries, t.at? names = some (.folder entries) ∧ Reaches skip path names ∧
        Open skip (names.foldl entryPath path) ∧ q = names.foldl entryPath path := by
  induction ht generalizing path with
  | file | database | link =>
      rw [folders]
      · refine iff_of_false List.not_mem_nil ?_
        rintro ⟨names, entries, hat, -⟩
        cases names <;> cases hat
      · intro _ h
        cases h
  | @folder entries names proper inner ih =>
      have hfolder := WellFormed.folder names proper inner
      rw [folders]
      constructor
      · intro hq
        split at hq
        · cases hq
        · rename_i hopen
          rw [foldersOfEntries_eq] at hq
          rcases List.mem_cons.mp hq with rfl | hq
          · exact ⟨[], entries, rfl, trivial, not_skipped_iff.mp hopen, rfl⟩
          · obtain ⟨e, he, hq⟩ := List.mem_flatMap.mp hq
            obtain ⟨below, inside, hat, hreaches, hend, rfl⟩ := (ih e he).mp hq
            exact ⟨e.1 :: below, inside, hfolder.at?_cons_iff.mpr ⟨e.2, he, hat⟩,
              ⟨not_skipped_iff.mp hopen, hreaches⟩, hend, rfl⟩
      · rintro ⟨place, inside, hat, hreaches, hend, rfl⟩
        cases place with
        | nil =>
            rw [List.foldl_nil] at hend ⊢
            rw [if_neg (not_skipped_iff.mpr hend)]
            exact List.mem_cons_self
        | cons name below =>
            obtain ⟨next, hmem, hat⟩ := hfolder.at?_cons_iff.mp hat
            rw [if_neg (not_skipped_iff.mpr hreaches.1), foldersOfEntries_eq]
            refine List.mem_cons_of_mem _ (List.mem_flatMap.mpr ⟨_, hmem, ?_⟩)
            exact (ih _ hmem).mpr ⟨below, inside, hat, hreaches.2, hend, rfl⟩

/-! ## Paths of places -/

theorem foldl_entryPath {names : List String} (hnames : ∀ name ∈ names, IsEntryName name) {path : String}
    (hpath : path ≠ ".") : names.foldl entryPath path = "/".intercalate (path :: names) := by
  induction names generalizing path with
  | nil => rfl
  | cons name names ih =>
      obtain ⟨hname, hrest⟩ := List.forall_mem_cons.mp hnames
      have hentry : entryPath path name = path ++ "/" ++ name := if_neg hpath
      rw [List.foldl_cons, ih hrest (entryPath_ne_top path hname), hentry, String.intercalate_cons_cons]
      cases names with
      | nil => rfl
      | cons next names => simp only [String.intercalate_cons_cons, String.append_assoc]

/-- The path of a place consists of its names. -/
theorem foldl_entryPath_top {names : List String} (hnames : ∀ name ∈ names, IsEntryName name) :
    names.foldl entryPath "." = Path.ofElements false names := by
  cases names with
  | nil => rfl
  | cons name names =>
      obtain ⟨hname, hrest⟩ := List.forall_mem_cons.mp hnames
      have hes := fun n hn => Path.IsElement.of_isEntryName (hnames n hn)
      have hentry : entryPath "." name = name := if_pos rfl
      rw [List.foldl_cons, hentry, foldl_entryPath hrest hname.2.1,
        Path.ofElements_relative hes (List.cons_ne_nil name names)]

/-- Different places have different paths. -/
theorem place_inj {names names' : List String} (hnames : ∀ name ∈ names, IsEntryName name)
    (hnames' : ∀ name ∈ names', IsEntryName name)
    (h : names.foldl entryPath "." = names'.foldl entryPath ".") : names = names' := by
  rw [foldl_entryPath_top hnames, foldl_entryPath_top hnames'] at h
  have hclean : Path.IsClean false names := .of_isEntryName hnames
  have hclean' : Path.IsClean false names' := .of_isEntryName hnames'
  rw [← hclean.cleanElements_ofElements, h, hclean'.cleanElements_ofElements]

end Tree

namespace Discovery

variable {d : Discovery} {root : String} {start : Tree}

/-! ## Checks -/

/-- Either the check of a path of the list breaks off, or all paths that pass are found. -/
theorem passing_cases (check : String → Except Glob.Overrun Bool) (paths : List String) :
    (∃ cause, passing check paths = .error cause ∧ ∃ path ∈ paths, check path = .error cause) ∨
      passing check paths = .ok (paths.filter fun path => (check path).toOption.getD false) ∧
        ∀ path ∈ paths, ∃ passes, check path = .ok passes := by
  induction paths with
  | nil => exact .inr ⟨rfl, fun _ => nofun⟩
  | cons path paths ih =>
      rw [passing]
      cases hcheck : check path with
      | error cause => exact .inl ⟨cause, rfl, path, List.mem_cons_self, hcheck⟩
      | ok passes =>
          rcases ih with ⟨cause, hrest, q, hq, hbreaks⟩ | ⟨hrest, hall⟩
          · rw [hrest]
            exact .inl ⟨cause, rfl, q, List.mem_cons_of_mem _ hq, hbreaks⟩
          · rw [hrest]
            refine .inr ⟨?_, List.forall_mem_cons.mpr ⟨⟨passes, hcheck⟩, hall⟩⟩
            rw [List.filter_cons, hcheck]
            rfl

/-- A folder that a walk enters is not ignored, so it passes where the check does not break off. -/
theorem entered?_cases (d : Discovery) (hstart : start.WellFormed) :
    (∃ cause, d.entered? start = .error cause) ∨ d.entered? start = .ok (start.folders d.ignored ".") := by
  rw [entered?]
  rcases passing_cases (fun path => if path = "." then .ok true else (d.ignored? path).map (!·))
    (start.folders d.ignored ".") with ⟨cause, hbreaks, -⟩ | ⟨hpassing, hall⟩
  · exact .inl ⟨cause, hbreaks⟩
  · right
    rw [hpassing, List.filter_eq_self.mpr]
    intro path hpath
    obtain ⟨names, entries, -, -, hopen, rfl⟩ := hstart.mem_folders.mp hpath
    obtain ⟨passes, hpasses⟩ := hall _ hpath
    rcases hopen with htop | hopen
    · rw [if_pos htop]
      rfl
    · split
      · rfl
      · rename_i hne
        rw [if_neg hne] at hpasses
        rw [ignored] at hopen
        cases hignored : d.ignored? (names.foldl Tree.entryPath ".") with
        | error cause =>
            rw [hignored] at hpasses
            cases hpasses
        | ok isIgnored =>
            rw [hignored] at hopen
            obtain rfl : isIgnored = false := hopen
            rfl

/-! ## Folders -/

/-- The folder of a file, given by its path from the root, is among some. -/
def HasFolderOf (dirs : List String) (root file : String) : Prop :=
  ∃ dir ∈ dirs, Path.clean dir = Path.directory (Path.join [root, file])

/-- The paths by which the folders of a walk are watched. -/
theorem clean_watchedPath {names : List String} (hroot : root ≠ "") (hnames : ∀ name ∈ names, Tree.IsEntryName name) :
    let path := names.foldl Tree.entryPath "."
    Path.clean (if path = "." then root else Path.join [root, path]) =
      Path.ofElements (Path.isAbsolute root) (Path.cleanElements root ++ names) := by
  intro path
  by_cases hne : names = []
  · subst hne
    rw [List.append_nil]
    rfl
  · have hbelow : path ≠ "." := fun htop => hne (Tree.place_inj hnames (fun _ => nofun) htop)
    have hpath : path = "/".intercalate names := (Tree.foldl_entryPath_top hnames).trans
      (Path.ofElements_relative (fun name hname => .of_isEntryName (hnames name hname)) hne)
    rw [if_neg hbelow, hpath, Path.join_below hroot hnames hne]
    exact (Path.isClean_below hnames).clean_ofElements

/-- The folders of a walk as they are watched, in any order. -/
def Watches (dirs : List String) (root : String) (start : Tree) (skip : String → Bool) : Prop :=
  ∀ dir, dir ∈ dirs ↔ ∃ path ∈ start.folders skip ".", dir = if path = "." then root else Path.join [root, path]

/-- The folder of a file is watched just when the walk reaches the file. -/
theorem Watches.hasFolderOf_iff {dirs : List String} {skip : String → Bool} (h : Watches dirs root start skip)
    (hstart : start.WellFormed) (hfolder : start.isFolder = true) (hroot : root ≠ "") {names : List String}
    (hfile : start.IsFileAt names) :
    HasFolderOf dirs root ("/".intercalate names) ↔ Tree.Reaches skip "." names := by
  obtain ⟨folders, name, rfl⟩ := (List.eq_nil_or_concat' names).resolve_left (hfile.ne_nil hfolder)
  have hnames := hfile.isEntryName hstart
  obtain ⟨u, hat, -⟩ := hfile
  obtain ⟨hfolders, hname⟩ := List.forall_mem_append.mp hnames
  obtain ⟨entries, hparent⟩ := Tree.at?_concat hat
  have hdirectory : Path.directory (Path.join [root, "/".intercalate (folders ++ [name])]) =
      Path.ofElements (Path.isAbsolute root) (Path.cleanElements root ++ folders) := by
    rw [Path.join_below hroot hnames (by simp), ← List.append_assoc]
    exact (Path.isClean_below hfolders).directory_ofElements (hname name (List.mem_singleton_self name))
  rw [HasFolderOf, hdirectory, Tree.reaches_concat]
  constructor
  · rintro ⟨dir, hdir, hclean⟩
    obtain ⟨path, hpath, rfl⟩ := (h dir).mp hdir
    obtain ⟨place, inside, hplace, hreaches, hopen, rfl⟩ := hstart.mem_folders.mp hpath
    have hproper := hstart.isEntryName_of_at? hplace
    rw [clean_watchedPath hroot hproper] at hclean
    have helements := congrArg Path.cleanElements hclean
    rw [(Path.isClean_below hproper).cleanElements_ofElements, (Path.isClean_below hfolders).cleanElements_ofElements]
      at helements
    obtain rfl := List.append_cancel_left helements
    exact ⟨hreaches, hopen⟩
  · rintro ⟨hreaches, hopen⟩
    exact ⟨_, (h _).mpr ⟨_, hstart.mem_folders.mpr ⟨folders, entries, hparent, hreaches, hopen, rfl⟩, rfl⟩,
      clean_watchedPath hroot hfolders⟩

/-! ## Files -/

/-- A change of a file below the root counts when discovery finds the file, however its path is spelled. -/
theorem relevant_below {names : List String} (d : Discovery) (hroot : root ≠ "")
    (hnames : ∀ name ∈ names, Tree.IsEntryName name) (hne : names ≠ []) {path : String}
    (hpath : Path.clean path = Path.join [root, "/".intercalate names]) :
    d.relevant root path [.write] = (d.finds? ("/".intercalate names)).map ("/".intercalate names, ·) := by
  rw [relevant, if_pos (by decide), Path.relative?_below hroot hnames hne hpath]

/-- Sources and watched folders of a root agree: the sources stand in byte order, and they are those files of the
tree whose folder is watched and of which a change counts. -/
structure Agrees (d : Discovery) (root : String) (start : Tree) (found dirs : List String) : Prop where
  increasing : found.Pairwise fun a b => Text.bytesOf a < Text.bytesOf b
  files : ∀ file ∈ found, ∃ names, start.IsFileAt names ∧ file = "/".intercalate names
  covered : ∀ names, start.IsFileAt names →
    ∀ path, Path.clean path = Path.join [root, "/".intercalate names] →
      ("/".intercalate names ∈ found ↔ HasFolderOf dirs root ("/".intercalate names) ∧
        d.relevant root path [.write] = .ok ("/".intercalate names, true))

/-- The check of a file whose folder is watched breaks off. -/
def BreaksOffAt (d : Discovery) (root : String) (start : Tree) (dirs : List String) (cause : Glob.Overrun) : Prop :=
  ∃ names, start.IsFileAt names ∧ HasFolderOf dirs root ("/".intercalate names) ∧
    ∀ path, Path.clean path = Path.join [root, "/".intercalate names] →
      d.relevant root path [.write] = .error cause

/-- The files that a walk from the top comes to, by their names. -/
theorem mem_files_top (hstart : start.WellFormed) (hfolder : start.isFolder = true) {skip : String → Bool}
    {file : String} : file ∈ start.files skip "." ↔
      ∃ names, start.IsFileAt names ∧ Tree.Reaches skip "." names ∧ file = "/".intercalate names := by
  rw [hstart.mem_files]
  refine exists_congr fun names => and_congr_right fun hfile => and_congr_right fun _ => ?_
  have hnames := hfile.isEntryName hstart
  rw [Tree.foldl_entryPath_top hnames,
    Path.ofElements_relative (fun name hname => .of_isEntryName (hnames name hname)) (hfile.ne_nil hfolder)]

/-- What passes among the files of a walk agrees with the folders of the walk. -/
theorem Watches.agrees {dirs found : List String} (h : Watches dirs root start d.ignored) (hstart : start.WellFormed)
    (hfolder : start.isFolder = true) (hroot : root ≠ "")
    (hfound : ∀ file, file ∈ found ↔
      file ∈ start.files d.ignored "." ∧ (d.finds? file).toOption.getD false = true)
    (hincreasing : found.Pairwise fun a b => Text.bytesOf a < Text.bytesOf b) : d.Agrees root start found dirs := by
  refine ⟨hincreasing, fun file hfile => ?_, fun names hfile path hpath => ?_⟩
  · obtain ⟨names, hplace, -, heq⟩ := (mem_files_top hstart hfolder).mp ((hfound file).mp hfile).1
    exact ⟨names, hplace, heq⟩
  · have hnames := hfile.isEntryName hstart
    rw [hfound, h.hasFolderOf_iff hstart hfolder hroot hfile,
      relevant_below d hroot hnames (hfile.ne_nil hfolder) hpath]
    refine and_congr ?_ ?_
    · rw [mem_files_top hstart hfolder]
      constructor
      · rintro ⟨place, hplace, hreaches, heq⟩
        exact Path.names_inj hnames (hplace.isEntryName hstart) heq ▸ hreaches
      · exact fun hreaches => ⟨names, hfile, hreaches, rfl⟩
    · cases d.finds? ("/".intercalate names) with
      | error cause => exact iff_of_false Bool.false_ne_true nofun
      | ok finds => cases finds <;> simp [Except.map, Except.toOption]

/-- Watching covers exactly what discovery reads. Either the walk over the folders breaks off and both fail, or the
check of a file in a watched folder breaks off, or there are sources and they agree with the watched folders. -/
theorem watched_covers_sources (d : Discovery) {tree start : Tree} (htree : tree.WellFormed) {root : String}
    (hentry : tree.getEntry root = .ok start) (hfolder : start.isFolder = true) :
    (∃ cause, d.watched tree root = .error cause ∧ d.sources tree root = .error (.overrun cause)) ∨
      ∃ dirs, d.watched tree root = .ok dirs ∧
        ((∃ cause, d.sources tree root = .error (.overrun cause) ∧ d.BreaksOffAt root start dirs cause) ∨
          ∃ found, d.sources tree root = .ok found ∧ d.Agrees root start found dirs) := by
  have hroot : root ≠ "" := by
    rintro rfl
    cases hentry
  obtain ⟨place, hplace⟩ := Tree.getEntry_eq_ok hentry
  have hstart := htree.at? hplace
  have hnodup : ∀ found, d.sources tree root = .ok found → found.Nodup := fun _ => nodup_sources htree
  rw [watched, hentry]
  rw [sources, hentry] at hnodup ⊢
  dsimp only at hnodup ⊢
  rcases entered?_cases d hstart with ⟨cause, hentered⟩ | hentered
  · rw [hentered]
    exact .inl ⟨cause, rfl, rfl⟩
  · rw [hentered] at hnodup ⊢
    refine .inr ⟨_, rfl, ?_⟩
    have hwatches : Watches (((start.folders d.ignored ".").map fun path =>
        if path = "." then root else Path.join [root, path]).mergeSort (· ≤ ·)) root start d.ignored := by
      intro dir
      rw [List.mem_mergeSort, List.mem_map]
      exact exists_congr fun path => and_congr_right fun _ => eq_comm
    rcases passing_cases d.finds? (start.files d.ignored ".") with ⟨cause, hpassing, file, hfile, hbreaks⟩ |
      ⟨hpassing, -⟩
    · rw [hpassing]
      obtain ⟨names, hplace, hreaches, rfl⟩ := (mem_files_top hstart hfolder).mp hfile
      refine .inl ⟨cause, rfl, names, hplace, (hwatches.hasFolderOf_iff hstart hfolder hroot hplace).mpr hreaches, ?_⟩
      intro path hpath
      rw [relevant_below d hroot (hplace.isEntryName hstart) (hplace.ne_nil hfolder) hpath, hbreaks]
      rfl
    · rw [hpassing] at hnodup ⊢
      refine .inr ⟨_, rfl, hwatches.agrees hstart hfolder hroot (fun file => ?_) ?_⟩
      · rw [List.mem_mergeSort, List.mem_filter]
      · exact Text.pairwise_bytesOf_mergeSort ((List.mergeSort_perm _ _).nodup_iff.mp (hnodup _ rfl))

/-- Of three folders one is ignored, and of the files in the others one is called like no source. -/
theorem watched_covers_sources_of_ignored_folder :
    let start : Tree := .folder [("a.stan", .file "real f();"), ("build", .folder [("b.stan", .file "")]),
      ("lib", .folder [("c.stan", .link "../a.stan"), ("d.txt", .file "")])]
    let tree : Tree := .folder [("p", start)]
    tree.WellFormed ∧ tree.getEntry "/p/" = .ok start ∧ start.isFolder = true ∧
      ∃ d, ofPatterns [] ["build/**"] = .ok d ∧ d.Agrees "/p/" start ["a.stan", "lib/c.stan"] ["/p/", "/p/lib"] := by
  intro start tree
  have hbuild : (Tree.folder [("b.stan", .file "")]).WellFormed :=
    .folder (by decide) (by decide) (List.forall_mem_singleton.mpr (.file ""))
  have hlib : (Tree.folder [("c.stan", .link "../a.stan"), ("d.txt", .file "")]).WellFormed :=
    .folder (by decide) (by decide)
      (List.forall_mem_cons.mpr ⟨.link "../a.stan", List.forall_mem_singleton.mpr (.file "")⟩)
  have hstart : start.WellFormed :=
    .folder (by decide) (by decide)
      (List.forall_mem_cons.mpr
        ⟨.file "real f();", List.forall_mem_cons.mpr ⟨hbuild, List.forall_mem_singleton.mpr hlib⟩⟩)
  have htree : tree.WellFormed := .folder (by decide) (by decide) (List.forall_mem_singleton.mpr hstart)
  have hfault : Tree.pathFault? "/p/" = none := by decide +kernel
  have hsteps : Path.steps "/p/" = ["p", ""] := by decide +kernel
  have hlength : ¬Tree.maxName < "p".utf8ByteSize := by decide +kernel
  have hentry : tree.getEntry "/p/" = .ok start := by
    simp [tree, start, Tree.getEntry, Tree.locate, hfault, hsteps, hlength, Tree.follow, Tree.Goal.clashes,
      Tree.Goal.entry, Tree.at?, Tree.entry?, bind, Except.bind, pure, Except.pure]
  have hwalks : ((ofPatterns [] ["build/**"]).toOption.map fun d =>
      (d.entered? start, passing d.finds? (start.files d.ignored "."))) =
        some (.ok [".", "lib"], .ok ["a.stan", "lib/c.stan"]) := by
    decide +kernel
  refine ⟨htree, hentry, rfl, ?_⟩
  cases hd : ofPatterns [] ["build/**"] with
  | error e =>
      rw [hd] at hwalks
      cases hwalks
  | ok d =>
      rw [hd] at hwalks
      obtain ⟨hentered, hpassing⟩ := Prod.mk.inj (Option.some.inj hwalks)
      have hwatched : d.watched tree "/p/" = .ok ["/p/", "/p/lib"] := by
        rw [watched, hentry]
        dsimp only
        rw [hentered]
        exact congrArg Except.ok (List.mergeSort_of_pairwise (by decide +kernel))
      have hsources : d.sources tree "/p/" = .ok ["a.stan", "lib/c.stan"] := by
        rw [sources, hentry]
        dsimp only
        rw [hentered, hpassing]
        exact congrArg Except.ok (List.mergeSort_of_pairwise (by decide +kernel))
      refine ⟨d, rfl, ?_⟩
      rcases d.watched_covers_sources htree hentry rfl with ⟨cause, hbreaks, -⟩ |
        ⟨dirs, hdirs, ⟨cause, hbreaks, -⟩ | ⟨found, hfound, hagrees⟩⟩
      · cases hwatched.symm.trans hbreaks
      · cases hsources.symm.trans hbreaks
      · cases hwatched.symm.trans hdirs
        cases hsources.symm.trans hfound
        exact hagrees

end Discovery

end OverloadDocs
