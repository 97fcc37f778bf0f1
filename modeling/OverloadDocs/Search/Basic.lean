import OverloadDocs.Cache
import OverloadDocs.Glob.Compile
import OverloadDocs.Store.Database

/-!
Searching documented functions. A reference search reads the query as a name or a name with parameter
types, a keyword search looks for its words, and a hybrid search fuses both rankings. Answers can be
remembered for a while.
-/

namespace OverloadDocs

/-- How a search is done. -/
inductive SearchMode where
  | hybrid
  | reference
  | keyword
  deriving DecidableEq

def SearchMode.name : SearchMode → String
  | .hybrid => "hybrid"
  | .reference => "reference"
  | .keyword => "keyword"

def SearchMode.all : List SearchMode := [.hybrid, .reference, .keyword]

def SearchMode.ofName? (name : String) : Option SearchMode := SearchMode.all.find? (·.name = name)

/-- What is searched for. Zeros and an empty mode stand for defaults. -/
structure SearchRequest (α : Type) where
  query : String
  limit : Int := 0
  mode : String := ""
  filter : Option (SearchFilter α) := none
  projectId : Int
  useCache : Bool := false
  /-- How many seconds an answer may be remembered. -/
  lifetime : Int := 0
  /-- The constant of the fusion. -/
  constant : α

/-- Why a search fails. -/
inductive SearchError where
  | emptyQuery
  | unsupportedMode (name : String)
  | malformed (cause : SyntaxError)
  | store (cause : StoreError)
  | negativePosition
  | brokenOff (cause : Glob.Overrun)
  deriving DecidableEq

def SearchError.message : SearchError → String
  | .emptyQuery => "invalid search request: query cannot be empty"
  | .unsupportedMode name => s!"unsupported search mode: {name}"
  | .malformed cause => cause.message
  | .store cause => cause.message
  | .negativePosition => "documented position is negative"
  | .brokenOff cause => cause.message

/-- A function that a search found. -/
structure SearchResult (α : Type) where
  id : Int
  rank : Nat
  relevance : α
  signature : String
  key : String
  anchor : String
  file : String
  startLine : Int
  endLine : Int
  summary : String
  /-- Texts by parameter name, in order of the names. -/
  paramDocs : List (String × String)
  returnDoc : String
  failures : List String

/-- What a search answers. -/
structure SearchResponse (α : Type) where
  results : List (SearchResult α)
  mode : SearchMode
  cacheHit : Bool := false
  referenceResults : Nat
  textResults : Nat

namespace SearchRequest

variable {α : Type} [Score α]

/-- The limit that holds: ten by default and a hundred at most. -/
def effectiveLimit (r : SearchRequest α) : Nat :=
  if r.limit ≤ 0 then 10 else if 100 < r.limit then 100 else r.limit.toNat

def trimmedQuery (r : SearchRequest α) : String := Text.trimmed r.query

/-- The word for the mode that holds. -/
def effectiveMode (r : SearchRequest α) : String :=
  if r.mode = "" then SearchMode.hybrid.name else r.mode

/-- How long the answer is remembered: an hour by default. -/
def effectiveLifetime (r : SearchRequest α) : Int := if r.lifetime = 0 then 3600 else r.lifetime

/-- The text under which the answer is remembered. -/
def cacheKey (r : SearchRequest α) : String :=
  let filter := match r.filter with
    | none => ""
    | some f =>
      "|filters:" ++ ",".intercalate f.names ++ "|" ++ f.filePattern ++ "|" ++
        Score.hundredths f.minRelevance
  r.trimmedQuery ++ "|" ++ r.effectiveMode ++ s!"|{r.projectId}|{r.effectiveLimit}" ++ filter

end SearchRequest

namespace SearchFilter

variable {α : Type}

/-- Whether a reference search keeps a function: its name is listed, and the path of its file matches.
A pattern that cannot be read matches nothing. -/
def keepsReference (f : SearchFilter α) (row : FunctionRow) : Except Glob.Overrun Bool :=
  if !f.keepsName row.name then .ok false
  else if f.filePattern = "" then .ok true
  else match Glob.Matcher.ofPath [] f.filePattern with
    | .ok m => m.matchesText? row.filePath
    | .error _ => .ok false

/-- The functions that a reference search keeps. -/
def keptReferences (f : SearchFilter α) : List FunctionRow → Except Glob.Overrun (List FunctionRow)
  | [] => .ok []
  | row :: rows => do
    let kept ← f.keepsReference row
    let rest ← f.keptReferences rows
    return if kept then row :: rest else rest

end SearchFilter

end OverloadDocs
