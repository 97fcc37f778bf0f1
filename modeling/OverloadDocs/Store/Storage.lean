import OverloadDocs.Store.Querier

/-!
Handles. The store and a transaction have the same methods, each written for both. Those of the store run their
statements on the pool and those of a transaction run them on it, but for the status, which a transaction asks of the
store. A transaction cannot be closed, and begins no other.
-/

namespace OverloadDocs

/-- The methods of a handle. What begins a transaction answers with its number. -/
structure Storage (α : Type) where
  createProject (root name indexVersion : String) : Interaction Project
  project (root : String) : Interaction Project
  updateProject (id : Int) (name : String) (totalFiles totalFunctions : Int) (indexed : Bool) : Interaction Unit
  upsertFile (file : FileRow) : Interaction FileRow
  file (projectId : Int) (path : String) : Interaction FileRow
  fileById (id : Int) : Interaction FileRow
  deleteFile (id : Int) : Interaction Unit
  files (projectId : Int) : Interaction (List FileRow)
  upsertFunction (function : FunctionRow) : Interaction FunctionRow
  function (id : Int) : Interaction FunctionRow
  functionsOfFile (fileId : Int) : Interaction (List FunctionRow)
  functionsOf (projectId : Int) : Interaction (List FunctionRow)
  functionsNamed (projectId : Int) (name : String) : Interaction (List FunctionRow)
  deleteFunction (id : Int) : Interaction Unit
  deleteFunctionsOf (fileId : Int) : Interaction Unit
  searchText (projectId : Int) (query : String) (limit : Int) (filter : Option (SearchFilter α)) :
    Interaction (List (TextMatch α))
  status (projectId : Int) : Interaction Store.Status
  begin : Interaction Nat
  close : Interaction Unit

namespace Database

/-- Begins a transaction, which sees the committed rows. It needs the connection. -/
def begin : Interaction Nat := fun db =>
  if db.closed then (.answered (.error (.closed none)), db)
  else if db.transaction.isActive then (.waiting, db)
  else
    let id := db.transaction.begun + 1
    (.answered (.ok id), { db with transaction := .active id db.store })

/-- Ends a transaction, whose rows are the committed ones then. -/
def commit (id : Nat) : Interaction Unit := fun db =>
  match db.transaction.rows? id with
  | none => (.answered (.error (.transactionOver none)), db)
  | some rows => (.answered (.ok ()), { db with store := rows, transaction := .over id })

/-- Ends a transaction, whose rows are forgotten. -/
def rollback (id : Nat) : Interaction Unit := fun db =>
  match db.transaction.rows? id with
  | none => (.answered (.error (.transactionOver none)), db)
  | some _ => (.answered (.ok ()), { db with transaction := .over id })

def close : Interaction Unit := fun db => (.answered (.ok ()), { db with closed := true })

end Database

namespace Storage

variable {α : Type} [Score α] (raw : Store → String → RawScores α)

/-- The store itself, given the raw scores of functions for a query. -/
def ofPool : Storage α where
  createProject root name indexVersion := Querier.pool.createProject root name indexVersion
  project root := Querier.pool.project root
  updateProject id name totalFiles totalFunctions indexed :=
    Querier.pool.updateProject id name totalFiles totalFunctions indexed
  upsertFile file := Querier.pool.upsertFile file
  file projectId path := Querier.pool.file projectId path
  fileById id := Querier.pool.fileById id
  deleteFile id := Querier.pool.deleteFile id
  files projectId := Querier.pool.files projectId
  upsertFunction function := Querier.pool.upsertFunction function
  function id := Querier.pool.function id
  functionsOfFile fileId := Querier.pool.functionsOfFile fileId
  functionsOf projectId := Querier.pool.functionsOf projectId
  functionsNamed projectId name := Querier.pool.functionsNamed projectId name
  deleteFunction id := Querier.pool.deleteFunction id
  deleteFunctionsOf fileId := Querier.pool.deleteFunctionsOf fileId
  searchText projectId query limit filter := Querier.pool.searchText raw projectId query limit filter
  status projectId := Querier.pool.status projectId
  begin := Database.begin
  close := Database.close

/-- A transaction. Its status is that of the store. -/
def ofTransaction (number : Nat) : Storage α where
  createProject root name indexVersion := (Querier.transaction number).createProject root name indexVersion
  project root := (Querier.transaction number).project root
  updateProject id name totalFiles totalFunctions indexed :=
    (Querier.transaction number).updateProject id name totalFiles totalFunctions indexed
  upsertFile file := (Querier.transaction number).upsertFile file
  file projectId path := (Querier.transaction number).file projectId path
  fileById id := (Querier.transaction number).fileById id
  deleteFile id := (Querier.transaction number).deleteFile id
  files projectId := (Querier.transaction number).files projectId
  upsertFunction function := (Querier.transaction number).upsertFunction function
  function id := (Querier.transaction number).function id
  functionsOfFile fileId := (Querier.transaction number).functionsOfFile fileId
  functionsOf projectId := (Querier.transaction number).functionsOf projectId
  functionsNamed projectId name := (Querier.transaction number).functionsNamed projectId name
  deleteFunction id := (Querier.transaction number).deleteFunction id
  deleteFunctionsOf fileId := (Querier.transaction number).deleteFunctionsOf fileId
  searchText projectId query limit filter :=
    (Querier.transaction number).searchText raw projectId query limit filter
  status projectId := (ofPool raw).status projectId
  begin := .answer (.error .nestedTransaction)
  close := .answer (.ok ())

end Storage

end OverloadDocs
