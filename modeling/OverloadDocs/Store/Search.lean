import OverloadDocs.Glob.Stored
import OverloadDocs.Search.Score
import OverloadDocs.Store.Basic
import OverloadDocs.Store.FullText

/-!
Text search in the store. The functions of a project that a query finds are ordered by their raw scores,
of which lower is better, and answered with the relevance of each.
-/

namespace OverloadDocs

/-- What narrows a search: a pattern for the path of the file, the names to keep, and the least
relevance. Empty fields do not narrow. -/
structure SearchFilter (α : Type) where
  filePattern : String := ""
  names : List String := []
  minRelevance : α

/-- A function found by its text, with its relevance. -/
structure TextMatch (α : Type) where
  id : Int
  relevance : α

namespace SearchFilter

variable {α : Type}

def keepsName (f : SearchFilter α) (name : String) : Bool := f.names.isEmpty || f.names.contains name

/-- Whether the store keeps a function: its name is listed, and the path of its file matches. -/
def keepsStored (f : SearchFilter α) (row : FunctionRow) : Bool :=
  f.keepsName row.name &&
    (f.filePattern == "" || (Glob.Pattern.ofStored f.filePattern).matches row.filePath)

def keepsRelevance [Score α] (f : SearchFilter α) (relevance : α) : Bool :=
  !(Score.lt (Score.ofNat 0) f.minRelevance && Score.lt relevance f.minRelevance)

end SearchFilter

/-- The raw score of every function. -/
structure RawScores (α : Type) where
  of : FunctionRow → α

namespace Store

def searchable (row : FunctionRow) : FullText.Row :=
  FullText.Row.ofTexts row.name row.signature row.summary

/-- The raw scores of functions for a query, among the functions of all projects. -/
def rawScores (s : Store) (query : String) : RawScores Float :=
  let measure := FullText.Measure.of (s.functions.map searchable) (FullText.phrases query)
  ⟨fun row => measure.score (searchable row)⟩

/-- The functions of a project that a query finds and the filter keeps. -/
def found {α : Type} (s : Store) (projectId : Int) (query : String) (filter : Option (SearchFilter α)) :
    List FunctionRow :=
  let phrases := FullText.phrases query
  ((s.functions.filter fun row =>
    s.isIn projectId row && (searchable row).isFound phrases).map s.withPath).filter
      fun row => filter.all (·.keepsStored row)

/-- Whether one scored function is answered before another: by a lower score, then by declaration
order, then by identity. -/
def scoredBefore {α : Type} [Score α] (a b : FunctionRow × α) : Bool :=
  Score.lt a.2 b.2 || (!Score.lt b.2 a.2 && declaredBefore a.1 b.1)

/-- The first of a list up to a limit; a negative limit is none. -/
def limited {β : Type} (limit : Int) (xs : List β) : List β :=
  if limit < 0 then xs else xs.take limit.toNat

/-- Searches the functions of a project, given their raw scores. The limit comes before the least
relevance. -/
def searchText {α : Type} [Score α] (s : Store) (raw : RawScores α) (projectId : Int)
    (query : String) (limit : Int) (filter : Option (SearchFilter α)) :
    Except StoreError (List (TextMatch α)) :=
  if FullText.terms query = [] then .error .emptyQuery
  else if limit ≠ 0 ∧ FullText.endsEarly query then .error .unterminatedQuery
  else
    let scored := (s.found projectId query filter).map fun row => (row, raw.of row)
    let first := limited limit (scored.mergeSort scoredBefore)
    let answered := first.map fun (row, score) => (⟨row.id, Score.relevance score⟩ : TextMatch α)
    .ok (answered.filter fun m => filter.all (·.keepsRelevance m.relevance))

end Store

end OverloadDocs
