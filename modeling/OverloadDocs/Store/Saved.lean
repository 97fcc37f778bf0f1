import OverloadDocs.Store.Basic

/-!
The saved form of a store: the rows of all tables as JSON text. What is saved can be read back.
-/

namespace OverloadDocs

/-- The saved form of a project. -/
def Project.saved (p : Project) : Json :=
  .obj
    [("id", .int p.id), ("root", .str p.root), ("name", .str p.name), ("total_files", .int p.totalFiles),
      ("total_functions", .int p.totalFunctions), ("index_version", .str p.indexVersion),
      ("indexed", .bool p.indexed)]

def Project.ofSaved? (j : Json) : Option Project := do
  return {
    id := ← j.int? "id"
    root := ← j.text? "root"
    name := ← j.text? "name"
    totalFiles := ← j.int? "total_files"
    totalFunctions := ← j.int? "total_functions"
    indexVersion := ← j.text? "index_version"
    indexed := ← j.bool? "indexed" }

def FileRow.saved (f : FileRow) : Json :=
  .obj (
    [("id", .int f.id), ("project_id", .int f.projectId), ("path", .str f.path), ("hash", .str f.hash.hex),
      ("size", .int f.size)] ++ Json.optionMember "parse_error" f.parseError)

def FileRow.ofSaved? (j : Json) : Option FileRow := do
  return {
    id := ← j.int? "id"
    projectId := ← j.int? "project_id"
    path := ← j.text? "path"
    hash := Digest.ofHex (← j.text? "hash")
    size := ← j.int? "size"
    parseError := j.text? "parse_error" }

def FunctionRow.saved (r : FunctionRow) : Json :=
  .obj
    [("id", .int r.id), ("file_id", .int r.fileId), ("name", .str r.name), ("signature", .str r.signature),
      ("key", .str r.key), ("order", .int r.order), ("start_line", .int r.startLine),
      ("end_line", .int r.endLine), ("anchor", .str r.anchor), ("summary", .str r.summary),
      ("doc", .str r.docJson), ("file_path", .str r.filePath)]

def FunctionRow.ofSaved? (j : Json) : Option FunctionRow := do
  return {
    id := ← j.int? "id"
    fileId := ← j.int? "file_id"
    name := ← j.text? "name"
    signature := ← j.text? "signature"
    key := ← j.text? "key"
    order := ← j.int? "order"
    startLine := ← j.int? "start_line"
    endLine := ← j.int? "end_line"
    anchor := ← j.text? "anchor"
    summary := ← j.text? "summary"
    docJson := ← j.text? "doc"
    filePath := ← j.text? "file_path" }

namespace Store

/-- The saved form of a store. -/
def saved (s : Store) : Json :=
  .obj
    [("projects", .arr (s.projects.map (·.saved))), ("files", .arr (s.files.map (·.saved))),
      ("functions", .arr (s.functions.map (·.saved))), ("last_project", .int s.lastProject),
      ("last_file", .int s.lastFile), ("last_function", .int s.lastFunction)]

def ofSaved? (j : Json) : Option Store := do
  return {
    projects := ← (← j.items? "projects").mapM Project.ofSaved?
    files := ← (← j.items? "files").mapM FileRow.ofSaved?
    functions := ← (← j.items? "functions").mapM FunctionRow.ofSaved?
    lastProject := ← j.int? "last_project"
    lastFile := ← j.int? "last_file"
    lastFunction := ← j.int? "last_function" }

/-- The text of a saved store. -/
def savedText (s : Store) : String := s.saved.compact

def ofSavedText? (text : String) : Option Store := (Json.parse? text).bind ofSaved?

end Store

end OverloadDocs
