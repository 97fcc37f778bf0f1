import OverloadDocs.Json.Basic
import OverloadDocs.Search.Basic

/-!
Running a search: the rankings of both kinds, the documented functions behind them, and the memory of
earlier answers.
-/

namespace OverloadDocs

variable {α : Type} [Score α]

namespace Database

def referenceMatches (db : Database) (projectId : Int) (query : String)
    (filter : Option (SearchFilter α)) : Except SearchError (List FunctionRow) :=
  match Query.parse query with
  | .error e => .error (.malformed e)
  | .ok q =>
    match db.read none fun s => .ok (s.functionsNamed projectId q.name) with
    | .error e => .error (.store e)
    | .ok rows =>
      let named := rows.filter fun row => !q.qualified ||
        match row.toDocumented with
        | .ok f => decide (q.Matches f.signature)
        | .error _ => false
      match filter with
      | none => .ok named
      | some filter => (filter.keptReferences named).mapError .brokenOff

/-- The ranking of a reference search, in which all scores are one. -/
def referenceSearch (db : Database) (r : SearchRequest α) : Except SearchError (List (Ranked α)) :=
  (db.referenceMatches r.projectId r.trimmedQuery r.filter).map fun rows =>
    Ranked.numbered (rows.map fun row => (row.id, Score.ofNat 1))

/-- The ranking of a keyword search, given the raw scores of functions. Twice as many as asked for are
ranked. -/
def keywordSearch (db : Database) (raw : Store → String → RawScores α) (r : SearchRequest α) :
    Except SearchError (List (Ranked α)) :=
  match db.searchText raw r.projectId r.trimmedQuery (2 * r.effectiveLimit) r.filter with
  | .error e => .error (.store e)
  | .ok found => .ok (Ranked.numbered (found.map fun m => (m.id, m.relevance)))

end Database

/-- The rankings that a search made, and the one it answers with. -/
structure Rankings (α : Type) where
  refs : List (Ranked α) := []
  texts : List (Ranked α) := []
  answer : List (Ranked α)

/-- The rankings of a search by its mode. In a hybrid search a query that is no reference still finds
words, and failing to find words counts only when no reference was found. -/
def Database.rankings (db : Database) (raw : Store → String → RawScores α) (r : SearchRequest α) :
    SearchMode → Except SearchError (Rankings α)
  | .reference => (db.referenceSearch r).map fun refs => { refs := refs, answer := refs }
  | .keyword => (db.keywordSearch raw r).map fun texts => { texts := texts, answer := texts }
  | .hybrid =>
    let fused (refs texts : List (Ranked α)) : Rankings α :=
      { refs := refs
        texts := texts
        answer := Ranked.fuse r.constant (refs.map (·.id)) (texts.map (·.id)) }
    match db.referenceSearch r, db.keywordSearch raw r with
    | .error (.brokenOff e), _ => .error (.brokenOff e)
    | refs, .ok texts => .ok (fused (refs.toOption.getD []) texts)
    | .ok (ref :: refs), .error _ => .ok (fused (ref :: refs) [])
    | _, .error e => .error e

namespace SearchResult

/-- Puts a text under a name, keeping the names in order. -/
def putText (name text : String) : List (String × String) → List (String × String)
  | [] => [(name, text)]
  | (n, t) :: rest =>
    if name < n then (name, text) :: (n, t) :: rest
    else if name = n then (name, text) :: rest
    else (n, t) :: putText name text rest

/-- The texts by parameter name. Positions past the parameters are dropped. -/
def namedTexts (params : List Parameter) (texts : PositionTexts) : Except SearchError (List (String × String)) :=
  texts.foldlM (fun named (i, text) =>
    if i < 0 then .error .negativePosition
    else match params[i.toNat]? with
      | some p => .ok (putText p.name text named)
      | none => .ok named) []

def ofRow (r : Ranked α) (row : FunctionRow) (f : Documented) : Except SearchError (SearchResult α) :=
  (namedTexts f.signature.params f.doc.paramDocs).map fun paramDocs =>
    { id := row.id
      rank := r.rank
      relevance := r.score
      signature := row.signature
      key := row.key
      anchor := row.anchor
      file := row.filePath
      startLine := row.startLine
      endLine := row.endLine
      summary := f.doc.summary
      paramDocs := paramDocs
      returnDoc := f.doc.returnDoc.getD ""
      failures := f.doc.failures }

/-- The members of a result. What is documented nowhere is left out. -/
def toJson (r : SearchResult Float) : Json :=
  .obj (
    [("function_id", .int r.id), ("rank", .int r.rank), ("relevance_score", .float r.relevance),
      ("signature", .str r.signature), ("identity_key", .str r.key), ("anchor", .str r.anchor),
      ("file", .str r.file), ("start_line", .int r.startLine), ("end_line", .int r.endLine)] ++
    Json.textMember "summary" r.summary ++
    (if r.paramDocs.isEmpty then []
      else [("param_docs", .obj (r.paramDocs.map fun (n, t) => (n, .str t)))]) ++
    Json.textMember "return_doc" r.returnDoc ++
    Json.listMember "failure_conditions" (r.failures.map .str))

end SearchResult

/-- The documented functions of a ranking. Rows that are gone or cannot be read back are passed over. -/
def Database.results (db : Database) : List (Ranked α) → Except SearchError (List (SearchResult α))
  | [] => .ok []
  | r :: rs =>
    match db.read none fun s => .ok (s.function? r.id) with
    | .ok (some row) =>
      match row.toDocumented with
      | .error _ => db.results rs
      | .ok f =>
        match SearchResult.ofRow r row f with
        | .error e => .error e
        | .ok first => (db.results rs).map (first :: ·)
    | _ => db.results rs

/-- Searches without any memory. -/
def Database.searchAnew (db : Database) (raw : Store → String → RawScores α) (r : SearchRequest α) :
    Except SearchError (SearchResponse α) :=
  match SearchMode.ofName? r.effectiveMode with
  | none => .error (.unsupportedMode r.effectiveMode)
  | some mode =>
    match db.rankings raw r mode with
    | .error e => .error e
    | .ok rankings =>
      (db.results (rankings.answer.take r.effectiveLimit)).map fun results =>
        { results := results
          mode := mode
          referenceResults := rankings.refs.length
          textResults := rankings.texts.length }

/-- A remembered answer and the time after which it no longer counts. -/
structure Remembered (α : Type) where
  response : SearchResponse α
  expires : Int

/-- The answers remembered by the text of their requests. -/
abbrev SearchMemory (α : Type) := Cache String (Remembered α)

def SearchMemory.empty : SearchMemory α := ⟨1000, []⟩

/-- What is remembered at a time for a request, and the memory after the look. -/
def SearchMemory.recall (memory : SearchMemory α) (now : Int) (r : SearchRequest α) :
    Option (SearchResponse α) × SearchMemory α :=
  match memory.find? r.cacheKey with
  | none => (none, memory)
  | some entry =>
    if entry.expires < now then (none, memory.erase r.cacheKey)
    else (some { entry.response with cacheHit := true }, memory.touch r.cacheKey)

/-- Searches at a time, with the memory of earlier answers if the request asks for it. Only answers
with results are remembered. -/
def Database.search (db : Database) (raw : Store → String → RawScores α) (memory : SearchMemory α)
    (now : Int) (r : SearchRequest α) : Except SearchError (SearchResponse α) × SearchMemory α :=
  if r.trimmedQuery = "" then (.error .emptyQuery, memory)
  else
    let (recalled, memory) := if r.useCache then memory.recall now r else (none, memory)
    match recalled with
    | some response => (.ok response, memory)
    | none =>
      match db.searchAnew raw r with
      | .error e => (.error e, memory)
      | .ok response =>
        if r.useCache && !response.results.isEmpty then
          (.ok response, memory.insert r.cacheKey ⟨response, now + r.effectiveLifetime⟩)
        else (.ok response, memory)

end OverloadDocs
