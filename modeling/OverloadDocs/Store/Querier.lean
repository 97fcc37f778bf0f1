import OverloadDocs.Store.Database

/-!
Statements, and what they are run on. A database has one connection. The pool lends it for a single statement, and a
transaction has it until it ends, so that a statement run on the pool waits for as long. Each statement that is run on
the pool is committed at once; a transaction keeps the rows that it changes to itself. Every operation of the store is
a statement, given what to run it on.
-/

namespace OverloadDocs

/-- What comes of a statement: an answer, or a wait for the connection. -/
inductive Reply (β : Type) where
  | answered (answer : Except StoreError β)
  | waiting

def Reply.map {β γ : Type} (f : β → γ) : Reply β → Reply γ
  | .answered answer => .answered (answer.map f)
  | .waiting => .waiting

/-- What is asked of a database: the reply, and the database after it. -/
abbrev Interaction (β : Type) := Database → Reply β × Database

def Interaction.map {β γ : Type} (f : β → γ) (interaction : Interaction β) : Interaction γ := fun db =>
  ((interaction db).1.map f, (interaction db).2)

/-- An answer that does not take the database. -/
def Interaction.answer {β : Type} (answer : Except StoreError β) : Interaction β := fun db => (.answered answer, db)

/-- What a statement is run on. -/
inductive Querier where
  | pool
  | transaction (id : Nat)
  deriving DecidableEq

/-- What is there, or that it is not. -/
def Store.present {β : Type} (found : Option β) : Except StoreError β :=
  match found with
  | some b => .ok b
  | none => .error .notFound

namespace Querier

variable {α β : Type} (q : Querier)

/-- Runs a statement. That the database is closed shows before the connection is asked for, and a transaction that is
over has none to ask. A statement that fails changes nothing. -/
def execute (action : Option StoreAction) (f : Store → Except StoreError (β × Store)) : Interaction β := fun db =>
  match q with
  | .pool =>
    if db.closed = false ∧ db.transaction.isActive then (.waiting, db)
    else
      let (answer, db) := db.change action f
      (.answered answer, db)
  | .transaction id =>
    match db.transaction.rows? id with
    | none => (.answered (.error (.transactionOver action)), db)
    | some rows =>
      match f rows with
      | .error e => (.answered (.error e), db)
      | .ok (b, rows) => (.answered (.ok b), { db with transaction := .active id rows })

def query (action : Option StoreAction) (f : Store → Except StoreError β) : Interaction β :=
  q.execute action fun s => (f s).map fun b => (b, s)

/-! ## Projects -/

def createProject (root name indexVersion : String) : Interaction Project :=
  q.execute (some .createProject) fun s => s.createProject root name indexVersion

def project (root : String) : Interaction Project :=
  q.query none fun s => Store.present (s.project? root)

def updateProject (id : Int) (name : String) (totalFiles totalFunctions : Int) (indexed : Bool) : Interaction Unit :=
  q.execute (some .updateProject) fun s => .ok ((), s.updateProject id name totalFiles totalFunctions indexed)

/-! ## Files -/

def upsertFile (file : FileRow) : Interaction FileRow :=
  q.execute (some .upsertFile) fun s => s.upsertFile file

def file (projectId : Int) (path : String) : Interaction FileRow :=
  q.query none fun s => Store.present (s.file? projectId path)

def fileById (id : Int) : Interaction FileRow :=
  q.query none fun s => Store.present (s.fileById? id)

def deleteFile (id : Int) : Interaction Unit :=
  q.execute none fun s => .ok ((), s.deleteFile id)

def files (projectId : Int) : Interaction (List FileRow) :=
  q.query none fun s => .ok (s.filesOf projectId)

/-! ## Functions -/

def upsertFunction (function : FunctionRow) : Interaction FunctionRow :=
  q.execute (some .upsertFunction) fun s => s.upsertFunction function

def function (id : Int) : Interaction FunctionRow :=
  q.query none fun s => Store.present (s.function? id)

def functionsOfFile (fileId : Int) : Interaction (List FunctionRow) :=
  q.query none fun s => .ok (s.functionsOfFile fileId)

def functionsOf (projectId : Int) : Interaction (List FunctionRow) :=
  q.query none fun s => .ok (s.functionsOf projectId)

def functionsNamed (projectId : Int) (name : String) : Interaction (List FunctionRow) :=
  q.query none fun s => .ok (s.functionsNamed projectId name)

def deleteFunction (id : Int) : Interaction Unit :=
  q.execute none fun s => .ok ((), s.deleteFunction id)

def deleteFunctionsOf (fileId : Int) : Interaction Unit :=
  q.execute none fun s => .ok ((), s.deleteFunctionsOf fileId)

/-! ## Texts and counts -/

/-- That a query is empty shows before anything is run. -/
def searchText [Score α] (raw : Store → String → RawScores α) (projectId : Int) (query : String) (limit : Int)
    (filter : Option (SearchFilter α)) : Interaction (List (TextMatch α)) :=
  if FullText.terms query = [] then .answer (.error .emptyQuery)
  else q.query (some .searchText) fun s => s.searchText (raw s query) projectId query limit filter

def status (projectId : Int) : Interaction Store.Status :=
  q.query none fun s => Store.present (s.status? projectId)

end Querier

end OverloadDocs
