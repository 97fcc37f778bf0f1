import OverloadDocs.Command.Basic
import OverloadDocs.Command.Workspace
import OverloadDocs.Config.Load
import OverloadDocs.ProjectIndex
import OverloadDocs.Readings
import OverloadDocs.Search.Run
import OverloadDocs.View
import OverloadDocs.Yaml.Printer

/-!
Running a command line: what is printed, what is reported beside it, and how it fails. Output is written in
the format that the configuration or a flag asks for.
-/

namespace OverloadDocs

/-- Why a command fails. -/
inductive CommandError where
  | usage (cause : Command.UsageError)
  | config (cause : ConfigError)
  | malformed (cause : SyntaxError)
  | target (cause : TargetError)
  | reading (cause : Tree.Failure)
  | opening (cause : OpenError)
  | loading (cause : LoadError)
  | project (root : String) (cause : StoreError)
  | indexing (cause : IndexError)
  | searching (cause : SearchError)
  | buildFailed (errors : Nat)
  deriving DecidableEq

def CommandError.message : CommandError → String
  | .usage cause => cause.message
  | .config cause => cause.message
  | .malformed cause => cause.message
  | .target cause => cause.message
  | .reading cause => "failed to read file: " ++ cause.message
  | .opening cause => cause.message
  | .loading cause => "failed to load index (run 'standoc index' first): " ++ cause.message
  | .project root cause => s!"project {root} (run 'standoc index' first): {cause.message}"
  | .indexing cause => "indexing failed: " ++ cause.message
  | .searching cause => cause.message
  | .buildFailed n => s!"documentation build failed: {n} error(s)"

def CommandError.hint : CommandError → String
  | .usage cause => cause.hint
  | _ => ""

/-- What a command line comes to: its output, what is reported beside it, and how it failed. -/
structure CommandOutcome where
  output : String := ""
  reports : String := ""
  failure : Option CommandError := none

namespace Command

/-- An output in one of the formats. -/
def encoded (format : String) (value : Json) : String :=
  if format = "json" then value.indented 0 ++ "\n" else Yaml.document value

def reportLines (errors warnings : List String) : String :=
  String.join (errors.map fun m => s!"error: {m}\n") ++
    String.join (warnings.map fun m => s!"warning: {m}\n")

/-- A command line that ran through. -/
def done (output : String) : CommandOutcome := { output := output }

/-- A command line that failed. -/
def failed (e : CommandError) : CommandOutcome := { failure := some e }

def rootOf (line : Parsed) : String := (line.text? "root").getD "."

/-- The configuration for a command line: the one of the root, overruled by flags. -/
def configFor (w : Workspace) (env : Config.Environment) (line : Parsed) : Except ConfigError Config := do
  let config ← Config.load w.tree (w.absolute (rootOf line)) env
  let nonEmpty (name : String) := (line.text? name).filter (· ≠ "")
  Config.validate { config with
    dbPath := (nonEmpty "db").getD config.dbPath
    format := (nonEmpty "format").getD config.format }

def runParse (config : Config) (line : Parsed) (text : String) : CommandOutcome :=
  if line.isOn "type" then
    match TypeExpr.parse text with
    | .error e => failed (.malformed e)
    | .ok t => done (encoded config.format (.obj [("type", .str t.render)]))
  else
    match Signature.parse text 0 with
    | .error e => failed (.malformed e)
    | .ok s => done (encoded config.format (s.view {}))

/-- Documents a file. With the strict flag, declarations that were left out are a failure. -/
def runExtract (w : Workspace) (config : Config) (line : Parsed) (file : String) :
    CommandOutcome × Workspace :=
  match Query.parseMembers ((line.text? "members").getD "") with
  | .error e => (failed (.malformed e), w)
  | .ok members =>
    match w.document file with
    | .error f => (failed (.reading f), w)
    | .ok (build, w) =>
      let (selected, unmatched) := build.index.select members
      let errors := build.result.errors.map (·.message)
      ({ output := encoded config.format (.obj
          [("file", .str build.file),
            ("functions", .arr (selected.map fun s => s.view (build.index.docOf s)))])
         reports := reportLines errors
          (build.result.warnings.map (·.message) ++ unmatched.map (·.message))
         failure := if line.isOn "strict" && !errors.isEmpty then some (.buildFailed errors.length) else none },
        w)

def documentAll : Workspace → List String → Except Tree.Failure (List FileBuild × Workspace)
  | w, [] => .ok ([], w)
  | w, file :: files =>
    match w.document file with
    | .error f => .error f
    | .ok (build, w) => (documentAll w files).map fun (builds, w) => (build :: builds, w)

/-- The index in which a reference is resolved, and what there is to report about it: that of files, or
the stored one of the root. -/
def resolveIn (w : Workspace) (config : Config) (line : Parsed) :
    Except CommandError (Index × String) × Workspace :=
  match line.list "file" with
  | [] =>
    match w.openStore config.dbPath with
    | (.error e, w) => (.error (.opening e), w)
    | (.ok o, w) =>
      match o.store.loadIndex w.supply (w.absolute (rootOf line)) with
      | .error e => (.error (.loading e), w)
      | .ok (idx, supply) => (.ok (idx, ""), { w with supply := supply })
  | files =>
    match documentAll w files with
    | .error f => (.error (.reading f), w)
    | .ok (builds, w) =>
      let (idx, result, supply) := FileBuild.merge w.supply builds
      (.ok (idx, reportLines (result.errors.map (·.message)) (result.warnings.map (·.message))),
        { w with supply := supply })

def runResolve (w : Workspace) (config : Config) (line : Parsed) (target : String) :
    CommandOutcome × Workspace :=
  match resolveIn w config line with
  | (.error e, w) => (failed e, w)
  | (.ok (idx, reports), w) =>
    match ((Resolver.ofIndex idx config.cacheSize).resolveTarget target).1 with
    | .error e => ({ reports := reports, failure := some (.target e) }, w)
    | .ok r => ({ output := encoded config.format (r.view idx.docOf), reports := reports }, w)

/-- What indexing did, in words. Warnings are listed only if asked for. -/
def indexSummary (readings : Readings) (verbose : Bool) (r : IndexReport) : String :=
  s!"Indexed {r.filesIndexed} file(s), skipped {r.filesSkipped} unchanged, removed {r.filesRemoved}, " ++
  s!"failed {r.filesFailed}\n" ++
  s!"Registered {r.result.functions.length} function(s) with {r.result.errors.length} error(s) and " ++
  s!"{r.result.warnings.length} warning(s) in {readings.duration}\n" ++
  String.join (r.errorMessages.map fun m => s!"  error: {m}\n") ++
  (if verbose then String.join (r.warningMessages.map fun m => s!"  warning: {m}\n") else "")

/-- Indexes a project: the folder that is named, or else the root. -/
def runIndex (w : Workspace) (readings : Readings) (config : Config) (line : Parsed) :
    CommandOutcome × Workspace :=
  let root := w.absolute (line.words.head?.getD (rootOf line))
  match w.openStore config.dbPath with
  | (.error e, w) => (failed (.opening e), w)
  | (.ok o, w) =>
    let run := o.store.indexProject w.supply w.tree root
      { batchSize := config.batchSize, includes := config.includes, ignores := some config.ignores }
    let w := { w.keep { o with store := run.store } with supply := run.supply }
    match run.outcome with
    | .error e => (failed (.indexing e), w)
    | .ok report => (done (indexSummary readings (line.isOn "verbose") report), w)

/-- Opens the database and finds the project of the root. -/
def projectOf (w : Workspace) (config : Config) (line : Parsed) :
    Except CommandError (Store × Project) × Workspace :=
  match w.openStore config.dbPath with
  | (.error e, w) => (.error (.opening e), w)
  | (.ok o, w) =>
    let root := w.absolute (rootOf line)
    (match o.store.project? root with
      | none => .error (.project root .notFound)
      | some p => .ok (o.store, p), w)

/-- A search result as an object of a format. The one has the members of a result; the other leaves
nothing out, and its parameters stand in the order of keys. -/
def resultView (format : String) (r : SearchResult Float) : Json :=
  if format = "json" then r.toJson
  else .obj
    [("functionid", .int r.id), ("rank", .int r.rank), ("relevancescore", .float r.relevance),
      ("signature", .str r.signature), ("identitykey", .str r.key), ("anchor", .str r.anchor),
      ("file", .str r.file), ("startline", .int r.startLine), ("endline", .int r.endLine),
      ("summary", .str r.summary),
      ("paramdocs", .obj ((r.paramDocs.mergeSort fun a b => Yaml.keyBefore [] a.1.toList b.1.toList).map
        fun (n, t) => (n, .str t))),
      ("returndoc", .str r.returnDoc), ("failureconditions", Json.strings r.failures)]

/-- What a command line narrows a search to, if to anything. -/
def filterOf? (line : Parsed) : Option (SearchFilter Float) :=
  let pattern := (line.text? "file-pattern").getD ""
  let names := line.list "name"
  if pattern = "" && names.isEmpty then none else some ⟨pattern, names, 0⟩

def runSearch (w : Workspace) (config : Config) (line : Parsed) (query : String) :
    CommandOutcome × Workspace :=
  match projectOf w config line with
  | (.error e, w) => (failed e, w)
  | (.ok (store, p), w) =>
    let request : SearchRequest Float :=
      { query := query
        limit := (line.number? "limit").getD 10
        mode := (line.text? "mode").getD SearchMode.hybrid.name
        filter := filterOf? line
        projectId := p.id
        constant := 0 }
    match (Database.search { store := store } Store.rawScores SearchMemory.empty 0 request).1 with
    | .error e => (failed (.searching e), w)
    | .ok response => (done (encoded config.format (.arr (response.results.map (resultView config.format)))), w)

def statusView (format : String) (readings : Readings) (s : Store.Status) : Json :=
  let time := if format = "json" then "\"" ++ readings.indexedAt ++ "\"" else readings.indexedAt
  .obj
    [("root", .str s.project.root), ("name", .str s.project.name), ("files", .int s.files),
      ("functions", .int s.functions), ("documented", .int s.documented),
      ("files_with_errors", .int s.filesWithErrors), ("index_size_mb", .verbatim readings.indexSize),
      ("schema_version", .str currentSchemaVersion), ("last_indexed_at", .verbatim time)]

def runStatus (w : Workspace) (readings : Readings) (config : Config) (line : Parsed) :
    CommandOutcome × Workspace :=
  match projectOf w config line with
  | (.error e, w) => (failed e, w)
  | (.ok (store, p), w) =>
    match store.status? p.id with
    | none => (failed (.project p.root .notFound), w)
    | some stored => (done (encoded config.format (statusView config.format readings stored)), w)

def versionText : String :=
  s!"{programName} dev\nBuild Time: unknown\nBuild Mode: purego\nSQLite Driver: sqlite\n" ++
    s!"Schema Version: {currentSchemaVersion}\n"

/-- Runs a command that needs the configuration. -/
def runWith (w : Workspace) (readings : Readings) (config : Config) (line : Parsed) :
    Command → CommandOutcome × Workspace
  | .parse => (runParse config line (line.words.headD ""), w)
  | .extract => runExtract w config line (line.words.headD "")
  | .resolve => runResolve w config line (line.words.headD "")
  | .index => runIndex w readings config line
  | .search => runSearch w config line (line.words.headD "")
  | .status => runStatus w readings config line
  | .version => (done versionText, w)

end Command

def Workspace.run (w : Workspace) (readings : Readings) (env : Config.Environment) (words : List String) :
    CommandOutcome × Workspace :=
  match Command.Invocation.ofWords words with
  | .error e => (Command.failed (.usage e), w)
  | .ok .outer => ({}, w)
  | .ok (.run .version _) => (Command.done Command.versionText, w)
  | .ok (.run command line) =>
    match Command.configFor w env line with
    | .error e => (Command.failed (.config e), w)
    | .ok config => Command.runWith w readings config line command

/-- All that is reported beside the output, with the failure at its end. -/
def CommandOutcome.reported (o : CommandOutcome) : String :=
  o.reports ++
    match o.failure with
    | none => ""
    | some e => s!"Error: {e.message}\n" ++ e.hint

end OverloadDocs
