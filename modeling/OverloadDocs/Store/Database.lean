import OverloadDocs.Store.Search

/-!
A database: the rows that are committed, the transaction that was begun last, and whether the database has been
closed. A transaction that has not ended has rows of its own.
-/

namespace OverloadDocs

/-- The transaction that was begun last, if one was. Transactions are counted from one. -/
inductive Transaction where
  | none
  | active (id : Nat) (rows : Store)
  | over (id : Nat)
  deriving DecidableEq, Inhabited

namespace Transaction

/-- How many transactions have been begun. -/
def begun : Transaction → Nat
  | .none => 0
  | .active id _ | .over id => id

def isActive : Transaction → Bool
  | .active _ _ => true
  | .none | .over _ => false

/-- The rows as a transaction sees them until it ends. -/
def rows? (id : Nat) : Transaction → Option Store
  | .active id' rows => if id' = id then some rows else Option.none
  | .none | .over _ => Option.none

end Transaction

structure Database where
  store : Store := {}
  transaction : Transaction := .none
  closed : Bool := false
  deriving DecidableEq, Inhabited

namespace Database

variable {α : Type}

/-- Reads the committed rows, which only an open database allows. -/
def read (db : Database) (action : Option StoreAction) (f : Store → Except StoreError α) :
    Except StoreError α :=
  if db.closed then .error (.closed action) else f db.store

/-- Changes the committed rows. What fails changes nothing. -/
def change (db : Database) (action : Option StoreAction) (f : Store → Except StoreError (α × Store)) :
    Except StoreError α × Database :=
  match db.read action f with
  | .error e => (.error e, db)
  | .ok (a, store) => (.ok a, { db with store := store })

/-- Searches the functions of a project, given the raw scores of functions for a query. That a query is
empty shows before the database is asked. -/
def searchText [Score α] (db : Database) (raw : Store → String → RawScores α) (projectId : Int)
    (query : String) (limit : Int) (filter : Option (SearchFilter α)) :
    Except StoreError (List (TextMatch α)) :=
  if FullText.terms query = [] then .error .emptyQuery
  else db.read (some .searchText) fun s => s.searchText (raw s query) projectId query limit filter

end Database

end OverloadDocs
