import OverloadDocs.Build
import OverloadDocs.Discovery
import OverloadDocs.Lock
import OverloadDocs.Store.Database

/-!
Indexing a project: the sources under a root are discovered, documented and merged, and the store is made
to hold the result. Files are stored in batches, each as a whole or not at all. Overloads that the store
has already keep their rows and anchors, and files that are gone are removed. The index of a stored
project can be loaded again without the sources.

The context of a run is taken to stay live, and the connection to be free for it. A run that is cancelled while its
sources are read stores nothing of them. One that is cancelled later ends between two batches, since the batch at hand
is rolled back, or among the removals.
-/

namespace OverloadDocs

/-- What to index and how. A batch size that is not positive means the default, no include patterns
the default ones, and ignore patterns left unsaid the default ones. -/
structure IndexOptions where
  batchSize : Int := 0
  includes : List String := []
  ignores : Option (List String) := none

structure IndexReport where
  filesIndexed : Nat := 0
  filesSkipped : Nat := 0
  filesFailed : Nat := 0
  filesRemoved : Nat := 0
  sources : Nat := 0
  errorMessages : List String := []
  warningMessages : List String := []
  result : BuildResult := {}

inductive IndexError where
  | inProgress
  | project (cause : StoreError)
  | patterns (cause : PatternError)
  | discovery (cause : Tree.Failure)
  | brokenOff (cause : Glob.Overrun)
  | storing (path : String) (cause : StoreError)
  deriving DecidableEq

def IndexError.message : IndexError → String
  | .inProgress => "indexing already in progress"
  | .project cause => "failed to get or create project: " ++ cause.message
  | .patterns cause => "failed to configure discovery: " ++ cause.message
  | .discovery cause => "failed to discover files: " ++ cause.message
  | .brokenOff cause => "failed to discover files: " ++ cause.message
  | .storing path cause => s!"failed to store functions: {path}: {cause.message}"

/-- A source that was read, with its documentation. -/
structure SourceFile where
  path : String
  text : String
  build : FileBuild

/-- A discovered source, or why it could not be read. -/
structure SourceState where
  path : String
  outcome : Except Tree.Failure SourceFile

namespace SourceState

def failure? (s : SourceState) : Option String :=
  match s.outcome with
  | .error f => some s!"{s.path}: {f.message}"
  | .ok _ => none

def file? (s : SourceState) : Option SourceFile := s.outcome.toOption

/-- Reads and documents the sources at paths relative to a root. -/
def readAll (tree : Tree) (root : String) : Anchors → List String → List SourceState × Anchors
  | supply, [] => ([], supply)
  | supply, path :: paths =>
    match tree.readText (Path.join [root, path]) with
    | .error f =>
      let (states, supply) := readAll tree root supply paths
      (⟨path, .error f⟩ :: states, supply)
    | .ok text =>
      let (build, supply) := FileBuild.ofSource supply path text
      let (states, supply) := readAll tree root supply paths
      (⟨path, .ok ⟨path, text, build⟩⟩ :: states, supply)

end SourceState

namespace Store

/-- The project of a root, added under the name of the root's folder if it is new. -/
def getOrCreateProject (s : Store) (root : String) : Except StoreError (Project × Store) :=
  match s.project? root with
  | some p => .ok (p, s)
  | none => s.createProject root (Path.base root) currentSchemaVersion

/-- Stores a source unless its content is stored already, and says whether it did. -/
def storeSource (s : Store) (projectId : Int) (source : SourceFile) :
    Except StoreError (FileRow × Bool × Store) :=
  let hash := Digest.ofText source.text
  let row : FileRow :=
    { projectId := projectId
      path := source.path
      hash := hash
      size := source.text.utf8ByteSize
      parseError := source.build.result.errors.head?.map (·.message) }
  let upsert := (s.upsertFile row).map fun (row, s) => (row, true, s)
  match s.file? projectId source.path with
  | some old => if old.hash = hash then .ok (old, false, s) else upsert
  | none => upsert

/-- Stores functions of a file, and answers them with the anchors that the store has for them. -/
def upsertAll (fileId : Int) : Store → List Documented → Except StoreError (List Documented × Store)
  | s, [] => .ok ([], s)
  | s, f :: fs =>
    match s.upsertFunction (FunctionRow.ofDocumented f fileId) with
    | .error e => .error e
    | .ok (row, s) =>
      match upsertAll fileId s fs with
      | .error e => .error e
      | .ok (fs, s) => .ok ({ f with signature := { f.signature with anchor := row.anchor } } :: fs, s)

/-- Makes the stored functions of a file those given. Overloads that stay are changed in place; the
others are removed. -/
def syncFunctions (s : Store) (fileId : Int) (functions : List Documented) :
    Except StoreError (List Documented × Store) :=
  let stored := s.functionsOfFile fileId
  match s.upsertAll fileId functions with
  | .error e => .error e
  | .ok (functions, s) =>
    let kept := functions.map (·.signature.key)
    .ok (functions, (stored.filter fun row => !kept.contains row.key).foldl
      (fun s row => s.deleteFunction row.id) s)

/-- Storing in progress: the rows, the files counted, and the functions as they are stored. -/
structure Storing where
  store : Store
  indexed : Nat := 0
  skipped : Nat := 0
  functions : List Documented := []

/-- Stores one source with its share of the merged functions. Sources that could not be read are
passed over. -/
def Storing.add (projectId : Int) (merged : List Documented) (p : Storing) (state : SourceState) :
    Except IndexError Storing :=
  match state.outcome with
  | .error _ => .ok p
  | .ok source =>
    match p.store.storeSource projectId source with
    | .error e => .error (.storing state.path e)
    | .ok (row, changed, s) =>
      match s.syncFunctions row.id (merged.filter (·.signature.source.file = state.path)) with
      | .error e => .error (.storing state.path e)
      | .ok (functions, s) => .ok
        { store := s
          indexed := p.indexed + if changed then 1 else 0
          skipped := p.skipped + if changed then 0 else 1
          functions := p.functions ++ functions }

/-- Stores batches in order. One that fails leaves what was stored before it. Between the sources of a batch the
context of the run is looked at, which stays live here. -/
def storeBatches (projectId : Int) (merged : List Documented) :
    Storing → List (List SourceState) → Except IndexError Storing × Store
  | p, [] => (.ok p, p.store)
  | p, batch :: batches =>
    match batch.foldlM (Storing.add projectId merged) p with
    | .error e => (.error e, p.store)
    | .ok p => storeBatches projectId merged p batches

/-- Removes the files of a project whose paths are not listed, and counts them. -/
def removeStale (s : Store) (projectId : Int) (paths : List String) : Nat × Store :=
  let stale := (s.filesOf projectId).filter fun f => !paths.contains f.path
  (stale.length, stale.foldl (fun s f => s.deleteFile f.id) s)

def updateCounts (s : Store) (p : Project) : Store :=
  s.updateProject p.id p.name (s.filesOf p.id).length (s.functionsOf p.id).length true

end Store

/-- The parts of a list that have at most so many elements; the size is at least one. -/
def batches {α : Type} (size : Nat) (xs : List α) : List (List α) :=
  if xs = [] then [] else xs.take (size + 1) :: batches size (xs.drop (size + 1))
termination_by xs.length
decreasing_by
  rename_i h
  have : 0 < xs.length := List.length_pos_iff.2 h
  simp only [List.length_drop]
  omega

/-- How many files are stored together unless said otherwise. -/
def defaultBatchSize : Nat := 20

/-- The outcome of a run, with the rows and the anchor supply after it. -/
structure IndexRun where
  outcome : Except IndexError IndexReport
  store : Store
  supply : Anchors

namespace Store

/-- Indexes the project of a root for which there is a row already, in a context that stays live. -/
def indexSources (s : Store) (supply : Anchors) (tree : Tree) (p : Project) (options : IndexOptions) :
    IndexRun :=
  match Discovery.ofPatterns options.includes (options.ignores.getD Discovery.defaultIgnores) with
  | .error e => ⟨.error (.patterns e), s, supply⟩
  | .ok discovery =>
    match discovery.sources tree p.root with
    | .error (.unreadable e) => ⟨.error (.discovery e), s, supply⟩
    | .error (.overrun e) => ⟨.error (.brokenOff e), s, supply⟩
    | .ok paths =>
      let (states, supply) := SourceState.readAll tree p.root supply paths
      let (_, result, supply) := FileBuild.merge supply (states.filterMap fun st => st.file?.map (·.build))
      let size := if options.batchSize ≤ 0 then defaultBatchSize else options.batchSize.toNat
      match storeBatches p.id result.functions { store := s } (batches (size - 1) states) with
      | (.error e, s) => ⟨.error e, s, supply⟩
      | (.ok stored, s) =>
        let (removed, s) := s.removeStale p.id paths
        let failures := states.filterMap SourceState.failure?
        let report : IndexReport :=
          { filesIndexed := stored.indexed
            filesSkipped := stored.skipped
            filesFailed := failures.length
            filesRemoved := removed
            sources := paths.length
            errorMessages := failures ++ result.errors.map (·.message)
            warningMessages := result.warnings.map (·.message)
            result := { result with functions := stored.functions } }
        ⟨.ok report, s.updateCounts p, supply⟩

def indexProject (s : Store) (supply : Anchors) (tree : Tree) (root : String) (options : IndexOptions) :
    IndexRun :=
  match s.getOrCreateProject (Path.fromTop root) with
  | .error e => ⟨.error (.project e), s, supply⟩
  | .ok (p, s) => s.indexSources supply tree p options

end Store

/-- Why a stored index could not be loaded. -/
inductive LoadError where
  | project (root : String) (cause : StoreError)
  | row (cause : RowError)
  | refused (cause : RegisterError)
  deriving DecidableEq

def LoadError.message : LoadError → String
  | .project root cause => s!"project {root}: {cause.message}"
  | .row cause => cause.message
  | .refused cause => cause.message

/-- Registers stored functions in order. -/
def Index.addRows : Index → Anchors → List FunctionRow → Except LoadError (Index × Anchors)
  | idx, supply, [] => .ok (idx, supply)
  | idx, supply, row :: rows =>
    match row.toDocumented with
    | .error e => .error (.row e)
    | .ok f =>
      match idx.register supply (some f.signature) f.doc with
      | .error e => .error (.refused e)
      | .ok (idx, supply) => addRows idx supply rows

/-- The frozen index of a stored project, in declaration order. -/
def Store.loadIndex (s : Store) (supply : Anchors) (root : String) : Except LoadError (Index × Anchors) :=
  let root := Path.fromTop root
  match s.project? root with
  | none => .error (.project root .notFound)
  | some p => (Index.addRows {} supply (s.functionsOf p.id)).map fun (idx, supply) => (idx.freeze, supply)

namespace Database

/-- Indexes a project while no other build holds the lock. -/
def indexProject (db : Database) (lock : BuildLock) (supply : Anchors) (tree : Tree) (root : String)
    (options : IndexOptions) : Except IndexError IndexReport × Database × Anchors :=
  match lock.tryAcquire with
  | (false, _) => (.error .inProgress, db, supply)
  | (true, _) =>
    if db.closed then (.error (.project (.closed none)), db, supply)
    else
      let run := db.store.indexProject supply tree root options
      (run.outcome, { db with store := run.store }, run.supply)

def loadIndex (db : Database) (supply : Anchors) (root : String) : Except LoadError (Index × Anchors) :=
  if db.closed then .error (.project (Path.fromTop root) (.closed none))
  else db.store.loadIndex supply root

end Database

/-- Documents one file of a tree without storing anything. -/
def Tree.document (tree : Tree) (supply : Anchors) (path : String) :
    Except Tree.Failure (FileBuild × Anchors) :=
  (tree.readText path).map fun text => FileBuild.ofSource supply path text

end OverloadDocs
