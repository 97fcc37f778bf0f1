import OverloadDocs.Config.Basic
import OverloadDocs.ProjectIndex
import OverloadDocs.Readings
import OverloadDocs.Search.Run
import OverloadDocs.Service.Arguments
import OverloadDocs.Service.Tool
import OverloadDocs.View

/-!
The service: it answers tool calls from the store and the sources. The indexes of a few projects are kept
in memory; indexing a project drops its index and every remembered search.
-/

namespace OverloadDocs

def serviceName : String := "standoc-mcp"

def serviceVersion : String := "1.0.0"

/-- The service between calls. -/
structure Service where
  config : Config := {}
  database : Database := {}
  supply : Anchors := {}
  memory : SearchMemory Float := SearchMemory.empty
  /-- The loaded projects by their paths. -/
  projects : Cache String Resolver := ⟨16, []⟩

/-- Why a call has no answer: it is refused with an error, or it breaks off. -/
inductive CallFailure where
  | refused (e : ToolError)
  | brokenOff (message : String)

namespace Service

/-- The path argument of a project, clean, if it is a folder with sources in it. -/
def projectPath (s : Service) (tree : Tree) (args : Json) : Except CallFailure String :=
  match args.nonEmptyText? "path" with
  | none => .error (.refused (.missing "path"))
  | some path =>
    match tree.folderFault? path with
    | some fault => .error (.refused (.badArgument "invalid path" "path" fault.message))
    | none =>
      match Discovery.ofPatterns s.config.includes s.config.ignores with
      | .error e => .error (.refused (.failed "invalid discovery patterns" e.message))
      | .ok discovery =>
        match discovery.sources tree path with
        | .error (.overrun e) => .error (.brokenOff e.message)
        | .error (.unreadable f) => .error (.refused (.badArgument "invalid path" "path" f.message))
        | .ok [] => .error (.refused ⟨ToolError.projectNotFound, "directory does not contain source files",
            .obj [("path", .str path)]⟩)
        | .ok _ => .ok (Path.clean path)

/-- How many messages of a kind are reported. -/
def maxReported : Nat := 5

/-- The members for messages of a kind: the first few, and how many there are if that is not all. -/
def messageMembers (key : String) (messages : List String) : List (String × Json) :=
  if messages.isEmpty then []
  else if messages.length ≤ maxReported then [(key, Json.strings messages)]
  else [(key, Json.strings (messages.take maxReported)), (key ++ "_count", .int messages.length)]

def indexOptions (s : Service) : IndexOptions :=
  { batchSize := s.config.batchSize, includes := s.config.includes, ignores := some s.config.ignores }

def indexFunctions (s : Service) (tree : Tree) (args : Json) (path : String) :
    Except ToolError Json × Service :=
  let workers := (args.whole? "workers").getD s.config.workers
  if workers < 0 then
    (.error ⟨ToolError.invalidParams, "workers must not be negative",
      .obj [("param", .str "workers"), ("value", .int workers)]⟩, s)
  else
    let (outcome, database, supply) := s.database.indexProject {} s.supply tree path s.indexOptions
    let s := { s with database := database, supply := supply }
    match outcome with
    | .error .inProgress =>
      (.error ⟨ToolError.indexingInProgress, "indexing already in progress", .null⟩, s)
    | .error e => (.error (.failed "indexing failed" e.message), s)
    | .ok report =>
      (.ok (.obj (
        [("indexed", .bool true), ("files_indexed", .int report.filesIndexed),
          ("files_skipped", .int report.filesSkipped), ("files_failed", .int report.filesFailed),
          ("files_removed", .int report.filesRemoved),
          ("functions_registered", .int report.result.functions.length)] ++
        messageMembers "errors" report.errorMessages ++
        messageMembers "warnings" report.warningMessages)),
        { s with projects := s.projects.erase path, memory := s.memory.clear })

/-- The project of a path, loaded from the store unless it is in memory. -/
def project (s : Service) (path : String) : Except LoadError Resolver × Service :=
  match s.projects.find? path with
  | some r => (.ok r, { s with projects := s.projects.touch path })
  | none =>
    match s.database.loadIndex s.supply path with
    | .error e => (.error e, s)
    | .ok (idx, supply) =>
      let r := Resolver.ofIndex idx s.config.cacheSize
      (.ok r, { s with supply := supply, projects := s.projects.insert path r })

def resolveReference (s : Service) (args : Json) (path : String) : Except ToolError Json × Service :=
  match args.nonEmptyText? "target" with
  | none => (.error (.missing "target"), s)
  | some target =>
    match s.project path with
    | (.error (.project _ .notFound), s) => (.error (.unknownProject path), s)
    | (.error e, s) => (.error (.failed "failed to load index" e.message), s)
    | (.ok resolver, s) =>
      let (resolved, resolver) := resolver.resolveTarget target
      let s := { s with projects := s.projects.insert path resolver }
      match resolved with
      | .error e => (.error (.badArgument "invalid target" "target" e.message), s)
      | .ok r =>
        let documented := (args.bool? "include_docs").getD true
        (.ok (r.view (if documented then resolver.index.docOf else fun _ => {})), s)

def documentFile (s : Service) (tree : Tree) (args : Json) : Except ToolError Json × Service :=
  match args.nonEmptyText? "file" with
  | none => (.error (.missing "file"), s)
  | some file =>
    match tree.sourceFault? file with
    | some fault => (.error (.badArgument "invalid file" "file" fault.message), s)
    | none =>
      match Query.parseMembers ((args.text? "members").getD "") with
      | .error e => (.error (.badArgument "invalid members" "members" e.message), s)
      | .ok members =>
        match tree.document s.supply file with
        | .error f =>
          (.error (.failed "failed to document file" ("failed to read file: " ++ f.message)), s)
        | .ok (build, supply) =>
          let (selected, unmatched) := build.index.select members
          let warnings := build.result.warnings.map (·.message) ++ unmatched.map (·.message)
          (.ok (.obj
            [("file", .str file),
              ("functions", .arr (selected.map fun sig => sig.view (build.index.docOf sig))),
              ("errors", Json.strings (build.result.errors.map (·.message))),
              ("warnings", Json.strings warnings)]), { s with supply := supply })

/-- The path argument of a project that need not have sources. -/
def folderPath (tree : Tree) (path : String) : Except ToolError String :=
  match tree.folderFault? path with
  | some fault => .error (.badArgument "invalid path" "path" fault.message)
  | none => .ok (Path.clean path)

/-- The request that the arguments of a search make, apart from the project. -/
def searchRequest (tree : Tree) (args : Json) : Except ToolError (String × SearchRequest Float) :=
  match args.nonEmptyText? "path" with
  | none => .error (.missing "path")
  | some path =>
    match args.nonEmptyText? "query" with
    | none => .error ⟨ToolError.emptyQuery, "query parameter is required and cannot be empty",
        .obj [("param", .str "query"), ("reason", .str "missing or empty")]⟩
    | some query =>
      match folderPath tree path with
      | .error e => .error e
      | .ok path =>
        let limit := (args.whole? "limit").getD 10
        if limit < 1 ∨ 100 < limit then
          .error ⟨ToolError.invalidParams, "limit must be between 1 and 100",
            .obj [("param", .str "limit"), ("value", .int limit)]⟩
        else
          let mode := (args.text? "search_mode").getD SearchMode.hybrid.name
          if (SearchMode.ofName? mode).isNone then
            .error ⟨ToolError.invalidParams, "invalid search_mode",
              .obj [("param", .str "search_mode"), ("value", .str mode),
                ("allowed", Json.strings (SearchMode.all.map (·.name)))]⟩
          else .ok (path,
            { query := query
              limit := limit
              mode := mode
              filter := args.filter?
              projectId := 0
              useCache := true
              constant := 0 })

def searchFunctions (s : Service) (tree : Tree) (now : Int) (args : Json) :
    Except CallFailure Json × Service :=
  match searchRequest tree args with
  | .error e => (.error (.refused e), s)
  | .ok (path, request) =>
    match s.database.read none fun store => .ok (store.project? path) with
    | .error e => (.error (.refused (.failed "failed to get project" e.message)), s)
    | .ok none => (.error (.refused (.unknownProject path)), s)
    | .ok (some project) =>
      let (outcome, memory) := s.database.search Store.rawScores s.memory now
        { request with projectId := project.id }
      let s := { s with memory := memory }
      match outcome with
      | .error .emptyQuery =>
        (.error (.refused ⟨ToolError.emptyQuery, "query has no searchable terms",
          .obj [("param", .str "query")]⟩), s)
      | .error .negativePosition => (.error (.brokenOff SearchError.negativePosition.message), s)
      | .error (.brokenOff e) => (.error (.brokenOff e.message), s)
      | .error e => (.error (.refused (.failed "search failed" e.message)), s)
      | .ok response =>
        (.ok (.obj
          [("results", .arr (response.results.map (·.toJson))),
            ("total_results", .int response.results.length),
            ("search_mode", .str response.mode.name),
            ("cache_hit", .bool response.cacheHit)]), s)

def statusAnswer (readings : Readings) (status : Store.Status) : Json :=
  .obj
    [("indexed", .bool true),
      ("project", .obj [("path", .str status.project.root), ("name", .str status.project.name),
        ("last_indexed_at", .str readings.indexedAt)]),
      ("statistics", .obj [("files_count", .int status.files),
        ("functions_count", .int status.functions), ("documented_count", .int status.documented),
        ("files_with_errors", .int status.filesWithErrors),
        ("index_size_mb", .str readings.indexSize), ("schema_version", .str currentSchemaVersion)]),
      ("health", .obj [("database_accessible", .bool true), ("fts_indexes_built", .bool true)])]

def getStatus (s : Service) (tree : Tree) (readings : Readings) (args : Json) : Except ToolError Json :=
  match args.nonEmptyText? "path" with
  | none => .error (.missing "path")
  | some path =>
    match folderPath tree path with
    | .error e => .error e
    | .ok path =>
      match s.database.read none fun store => .ok ((store.project? path).bind fun p => store.status? p.id) with
      | .error e => .error (.failed "failed to get project status" e.message)
      | .ok (some status) => .ok (statusAnswer readings status)
      | .ok none => .ok (.obj
          [("indexed", .bool false), ("path", .str path),
            ("message",
              .str "Project not indexed. Use the index_functions tool to index this project.")])

/-- Answers a call at a time. The arguments have to be an object. -/
def call (s : Service) (tree : Tree) (now : Int) (readings : Readings) (tool : Tool) (args : Json) :
    Except CallFailure Json × Service :=
  let refusing (r : Except ToolError Json × Service) : Except CallFailure Json × Service :=
    (r.1.mapError .refused, r.2)
  let inProject (f : String → Except CallFailure Json × Service) : Except CallFailure Json × Service :=
    match s.projectPath tree args with
    | .error e => (.error e, s)
    | .ok path => f path
  match args with
  | .obj _ =>
    match tool with
    | .indexFunctions => inProject fun path => refusing (s.indexFunctions tree args path)
    | .resolveReference => inProject fun path => refusing (s.resolveReference args path)
    | .documentFile => refusing (s.documentFile tree args)
    | .searchFunctions => s.searchFunctions tree now args
    | .getStatus => refusing (s.getStatus tree readings args, s)
  | _ => (.error (.refused ⟨ToolError.invalidParams, "invalid arguments", .null⟩), s)

end Service

end OverloadDocs
