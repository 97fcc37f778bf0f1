import OverloadDocs.Store.Search

/-!
The calls that change rows, and the text index of the functions. The index is a table of its own that triggers on
the rows of functions keep: a row that is added enters it with its texts, one that is removed leaves it, and one that
is changed leaves it with the texts that it had and enters it with those that it has. What a file takes with it when
it is removed counts as removed.
-/

namespace OverloadDocs

/-- A call that changes rows. -/
inductive StoreCall where
  | createProject (root name indexVersion : String)
  | updateProject (id : Int) (name : String) (totalFiles totalFunctions : Int) (indexed : Bool)
  | upsertFile (file : FileRow)
  | deleteFile (id : Int)
  | upsertFunction (function : FunctionRow)
  | deleteFunction (id : Int)
  | deleteFunctionsOf (fileId : Int)

/-- The rows of functions that a call removes and those that it adds. A changed row is removed as it was and added
as it is. -/
structure RowChange where
  removed : List FunctionRow := []
  added : List FunctionRow := []

namespace Store

/-- The rows after a call. -/
def call (s : Store) : StoreCall → Except StoreError Store
  | .createProject root name indexVersion => (s.createProject root name indexVersion).map (·.2)
  | .updateProject id name totalFiles totalFunctions indexed =>
    .ok (s.updateProject id name totalFiles totalFunctions indexed)
  | .upsertFile file => (s.upsertFile file).map (·.2)
  | .deleteFile id => .ok (s.deleteFile id)
  | .upsertFunction function => (s.upsertFunction function).map (·.2)
  | .deleteFunction id => .ok (s.deleteFunction id)
  | .deleteFunctionsOf fileId => .ok (s.deleteFunctionsOf fileId)

/-- What a call does to the rows of functions. -/
def rowChange (s : Store) : StoreCall → RowChange
  | .createProject _ _ _ => {}
  | .updateProject _ _ _ _ _ => {}
  | .upsertFile _ => {}
  | .deleteFile id => { removed := s.functions.filter (·.fileId = id) }
  | .upsertFunction function =>
    match s.upsertFunction function with
    | .error _ => {}
    | .ok (row, _) =>
      let before := s.functions.find? fun f => f.fileId = function.fileId ∧ f.key = function.key
      { removed := before.toList, added := [row] }
  | .deleteFunction id => { removed := s.functions.filter (·.id = id) }
  | .deleteFunctionsOf fileId => { removed := s.functions.filter (·.fileId = fileId) }

end Store

/-- An entry of the text index. -/
structure TextEntry where
  id : Int
  name : String
  signature : String
  summary : String
  deriving DecidableEq

namespace TextEntry

def ofRow (row : FunctionRow) : TextEntry := ⟨row.id, row.name, row.signature, row.summary⟩

def searchable (e : TextEntry) : FullText.Row := FullText.Row.ofTexts e.name e.signature e.summary

/-- The entries without those of removed rows, which leave one after the other. -/
def without (entries : List TextEntry) (removed : List FunctionRow) : List TextEntry :=
  removed.foldl (fun entries row => entries.erase (ofRow row)) entries

/-- The entries after a change of rows. -/
def triggered (entries : List TextEntry) (change : RowChange) : List TextEntry :=
  without entries change.removed ++ change.added.map ofRow

end TextEntry

/-- The rows with the text index. -/
structure TextedStore extends Store where
  texts : List TextEntry := []
  deriving DecidableEq

namespace TextedStore

/-- Makes a call: why it is refused, if it is, and the rows and the text index after it. -/
def call (s : TextedStore) (c : StoreCall) : Option StoreError × TextedStore :=
  match s.toStore.call c with
  | .error e => (some e, s)
  | .ok rows => (none, { toStore := rows, texts := TextEntry.triggered s.texts (s.toStore.rowChange c) })

/-- The rows and the text index after some calls, refused ones among them. -/
def calls (s : TextedStore) (cs : List StoreCall) : TextedStore := cs.foldl (fun s c => (s.call c).2) s

/-- The identities that the text index has for a query. -/
def hits (s : TextedStore) (query : String) : List Int :=
  (s.texts.filter (·.searchable.isFound (FullText.phrases query))).map (·.id)

end TextedStore

end OverloadDocs
