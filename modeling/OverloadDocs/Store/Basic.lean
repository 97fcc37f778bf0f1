import OverloadDocs.Digest
import OverloadDocs.Store.FunctionRow
import OverloadDocs.Store.Schema

/-!
The store: projects, their files, and the functions of the files, as rows with identities that are
never used twice. A file belongs to a project and a function to a file; what belongs to a removed row is
removed with it.
-/

namespace OverloadDocs

/-- An indexed source tree. -/
structure Project where
  id : Int := 0
  root : String
  name : String := ""
  totalFiles : Int := 0
  totalFunctions : Int := 0
  indexVersion : String := ""
  /-- Whether the time of a build is recorded. -/
  indexed : Bool := false
  deriving DecidableEq, Inhabited

/-- A stored source file, with the first error of its last build. -/
structure FileRow where
  id : Int := 0
  projectId : Int
  path : String
  hash : Digest
  size : Int := 0
  parseError : Option String := none
  deriving DecidableEq, Inhabited

/-- What is done to rows. -/
inductive StoreAction where
  | createProject
  | updateProject
  | upsertFile
  | upsertFunction
  | searchText
  deriving DecidableEq

def StoreAction.failure : StoreAction → String
  | .createProject => "failed to create project: "
  | .updateProject => "failed to update project: "
  | .upsertFile => "failed to upsert file: "
  | .upsertFunction => "failed to upsert function: "
  | .searchText => "failed to execute FTS search: "

/-- Why the store refuses something. -/
inductive StoreError where
  | notFound
  | projectExists (root : String)
  | missingParent (action : StoreAction)
  | emptyQuery
  | unterminatedQuery
  | closed (action : Option StoreAction)
  | nestedTransaction
  | transactionOver (action : Option StoreAction)
  deriving DecidableEq

def StoreError.message : StoreError → String
  | .notFound => "not found"
  | .projectExists root => s!"project {root}: already exists"
  | .missingParent action => action.failure ++ "constraint failed: FOREIGN KEY constraint failed (787)"
  | .emptyQuery => "empty search query"
  | .unterminatedQuery => StoreAction.searchText.failure ++ "SQL logic error: unterminated string (1)"
  | .closed action => (action.map StoreAction.failure).getD "" ++ "sql: database is closed"
  | .nestedTransaction => "nested transactions not supported"
  | .transactionOver action =>
    (action.map StoreAction.failure).getD "" ++ "sql: transaction has already been committed or rolled back"

/-- The rows of all tables, and the last identity given in each. -/
structure Store where
  projects : List Project := []
  files : List FileRow := []
  functions : List FunctionRow := []
  lastProject : Int := 0
  lastFile : Int := 0
  lastFunction : Int := 0
  deriving DecidableEq, Inhabited

namespace Store

/-! ## Projects -/

def project? (s : Store) (root : String) : Option Project := s.projects.find? (·.root = root)

def projectById? (s : Store) (id : Int) : Option Project := s.projects.find? (·.id = id)

/-- Adds a project whose root is new. Without a version it gets the one of the schema. -/
def createProject (s : Store) (root name indexVersion : String) : Except StoreError (Project × Store) :=
  if (s.project? root).isSome then .error (.projectExists root)
  else
    let version := if indexVersion = "" then currentSchemaVersion else indexVersion
    let p : Project := { id := s.lastProject + 1, root := root, name := name, indexVersion := version }
    .ok (p, { s with projects := s.projects ++ [p], lastProject := p.id })

/-- Changes the name, the counts and the record of a build of the project with an identity, if there is
one. -/
def updateProject (s : Store) (id : Int) (name : String) (totalFiles totalFunctions : Int)
    (indexed : Bool) : Store :=
  { s with projects := s.projects.map fun p =>
      if p.id = id then
        { p with
          name := name
          totalFiles := totalFiles
          totalFunctions := totalFunctions
          indexed := indexed }
      else p }

/-! ## Files -/

def file? (s : Store) (projectId : Int) (path : String) : Option FileRow :=
  s.files.find? fun f => f.projectId = projectId ∧ f.path = path

def fileById? (s : Store) (id : Int) : Option FileRow := s.files.find? (·.id = id)

/-- The files of a project, by path. -/
def filesOf (s : Store) (projectId : Int) : List FileRow :=
  (s.files.filter (·.projectId = projectId)).mergeSort (fun a b => a.path ≤ b.path)

/-- Stores a file: the row at its path is changed and keeps its identity, or else a row is added. An
identity is used up either way. -/
def upsertFile (s : Store) (file : FileRow) : Except StoreError (FileRow × Store) :=
  if (s.projectById? file.projectId).isNone then .error (.missingParent .upsertFile)
  else
    let next := s.lastFile + 1
    match s.file? file.projectId file.path with
    | some old =>
      let row := { file with id := old.id }
      .ok (row, { s with
        files := s.files.map fun f => if f.id = old.id then row else f
        lastFile := next })
    | none =>
      let row := { file with id := next }
      .ok (row, { s with files := s.files ++ [row], lastFile := next })

/-- Removes a file and its functions. -/
def deleteFile (s : Store) (id : Int) : Store :=
  { s with
    files := s.files.filter (·.id ≠ id)
    functions := s.functions.filter (·.fileId ≠ id) }

/-! ## Functions -/

/-- Whether one function stands before another in lists: by declaration order, then by identity. -/
def declaredBefore (a b : FunctionRow) : Bool := a.order < b.order || (a.order = b.order && a.id ≤ b.id)

/-- A function together with the path of its file. -/
def withPath (s : Store) (row : FunctionRow) : FunctionRow :=
  { row with filePath := ((s.fileById? row.fileId).map (·.path)).getD "" }

/-- Functions in declaration order, with the paths of their files. -/
def listed (s : Store) (rows : List FunctionRow) : List FunctionRow :=
  (rows.mergeSort declaredBefore).map s.withPath

/-- Whether a function is in a file of a project. -/
def isIn (s : Store) (projectId : Int) (row : FunctionRow) : Bool :=
  (s.fileById? row.fileId).any (·.projectId = projectId)

def function? (s : Store) (id : Int) : Option FunctionRow :=
  (s.functions.find? (·.id = id)).map s.withPath

def functionsOfFile (s : Store) (fileId : Int) : List FunctionRow :=
  s.listed (s.functions.filter (·.fileId = fileId))

def functionsOf (s : Store) (projectId : Int) : List FunctionRow :=
  s.listed (s.functions.filter (s.isIn projectId))

def functionsNamed (s : Store) (projectId : Int) (name : String) : List FunctionRow :=
  s.listed (s.functions.filter fun row => s.isIn projectId row ∧ row.name = name)

/-- Stores a function: the row of its file with its key is changed and keeps its identity and its
anchor, or else a row is added. An identity is used up either way. -/
def upsertFunction (s : Store) (function : FunctionRow) : Except StoreError (FunctionRow × Store) :=
  if (s.fileById? function.fileId).isNone then .error (.missingParent .upsertFunction)
  else
    let next := s.lastFunction + 1
    match s.functions.find? fun f => f.fileId = function.fileId ∧ f.key = function.key with
    | some old =>
      let row := { function with id := old.id, anchor := old.anchor, filePath := "" }
      .ok (row, { s with
        functions := s.functions.map fun f => if f.id = old.id then row else f
        lastFunction := next })
    | none =>
      let row := { function with id := next, filePath := "" }
      .ok (row, { s with functions := s.functions ++ [row], lastFunction := next })

def deleteFunction (s : Store) (id : Int) : Store :=
  { s with functions := s.functions.filter (·.id ≠ id) }

def deleteFunctionsOf (s : Store) (fileId : Int) : Store :=
  { s with functions := s.functions.filter (·.fileId ≠ fileId) }

/-! ## Status -/

/-- Counts of what is stored for a project. -/
structure Status where
  project : Project
  files : Nat
  functions : Nat
  documented : Nat
  filesWithErrors : Nat
  deriving DecidableEq

/-- The status of the project with an identity. A function counts as documented unless its record is
the empty one. -/
def status? (s : Store) (projectId : Int) : Option Status :=
  (s.projectById? projectId).map fun p =>
    let files := s.files.filter (·.projectId = projectId)
    let functions := s.functions.filter (s.isIn projectId)
    { project := p
      files := files.length
      functions := functions.length
      documented := functions.countP (·.docJson ≠ "\x7b\x7d")
      filesWithErrors := files.countP (·.parseError.isSome) }

end Store

end OverloadDocs
