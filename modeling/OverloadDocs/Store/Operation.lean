import OverloadDocs.Store.Storage
import OverloadDocs.Store.Texts

/-!
What is asked of a handle, as data: calls that change rows, questions about them, searches for texts, and to begin a
transaction or to close. Each goes to its method.
-/

namespace OverloadDocs

/-- A question about the rows. -/
inductive StoreQuestion where
  | project (root : String)
  | file (projectId : Int) (path : String)
  | fileById (id : Int)
  | files (projectId : Int)
  | function (id : Int)
  | functionsOfFile (fileId : Int)
  | functionsOf (projectId : Int)
  | functionsNamed (projectId : Int) (name : String)

/-- What a handle answers. -/
inductive StoreAnswer (α : Type) where
  | done
  | project (p : Project)
  | file (f : FileRow)
  | files (fs : List FileRow)
  | function (f : FunctionRow)
  | functions (fs : List FunctionRow)
  | found (ms : List (TextMatch α))
  | begun (id : Nat)

/-- An operation on projects, files, functions or texts. -/
inductive StoreOperation (α : Type) where
  | call (c : StoreCall)
  | question (q : StoreQuestion)
  | searchText (projectId : Int) (query : String) (limit : Int) (filter : Option (SearchFilter α))

inductive StoreRequest (α : Type) where
  | operation (o : StoreOperation α)
  | begin
  | close

def StoreRequest.isOperation {α : Type} : StoreRequest α → Bool
  | .operation _ => true
  | .begin | .close => false

namespace Storage

variable {α : Type} (h : Storage α)

def call : StoreCall → Interaction (StoreAnswer α)
  | .createProject root name indexVersion => (h.createProject root name indexVersion).map .project
  | .updateProject id name totalFiles totalFunctions indexed =>
    (h.updateProject id name totalFiles totalFunctions indexed).map fun _ => .done
  | .upsertFile file => (h.upsertFile file).map .file
  | .deleteFile id => (h.deleteFile id).map fun _ => .done
  | .upsertFunction function => (h.upsertFunction function).map .function
  | .deleteFunction id => (h.deleteFunction id).map fun _ => .done
  | .deleteFunctionsOf fileId => (h.deleteFunctionsOf fileId).map fun _ => .done

def ask : StoreQuestion → Interaction (StoreAnswer α)
  | .project root => (h.project root).map .project
  | .file projectId path => (h.file projectId path).map .file
  | .fileById id => (h.fileById id).map .file
  | .files projectId => (h.files projectId).map .files
  | .function id => (h.function id).map .function
  | .functionsOfFile fileId => (h.functionsOfFile fileId).map .functions
  | .functionsOf projectId => (h.functionsOf projectId).map .functions
  | .functionsNamed projectId name => (h.functionsNamed projectId name).map .functions

def perform : StoreOperation α → Interaction (StoreAnswer α)
  | .call c => h.call c
  | .question q => h.ask q
  | .searchText projectId query limit filter => (h.searchText projectId query limit filter).map .found

def request : StoreRequest α → Interaction (StoreAnswer α)
  | .operation o => h.perform o
  | .begin => h.begin.map .begun
  | .close => h.close.map fun _ => .done

/-- The database after some requests, refused ones among them. -/
def after (rs : List (StoreRequest α)) (db : Database) : Database :=
  rs.foldl (fun db r => (h.request r db).2) db

end Storage

end OverloadDocs
