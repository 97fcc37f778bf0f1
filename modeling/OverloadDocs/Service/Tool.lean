import OverloadDocs.Json.Basic

/-!
The tools that the service offers to clients, with the descriptions that clients see.
-/

namespace OverloadDocs

/-- What a client can ask for. -/
inductive Tool where
  | indexFunctions
  | resolveReference
  | documentFile
  | searchFunctions
  | getStatus
  deriving DecidableEq

namespace Tool

def all : List Tool := [.indexFunctions, .resolveReference, .documentFile, .searchFunctions, .getStatus]

def name : Tool → String
  | .indexFunctions => "index_functions"
  | .resolveReference => "resolve_reference"
  | .documentFile => "document_file"
  | .searchFunctions => "search_functions"
  | .getStatus => "get_status"

def ofName? (name : String) : Option Tool := all.find? (·.name = name)

def description : Tool → String
  | .indexFunctions =>
    "Document every function signature in a Stan project and store the result for lookup and search"
  | .resolveReference =>
    "Resolve a cross-reference such as 'log' or 'log(real, real)' against an indexed project"
  | .documentFile =>
    "Extract and normalize the documented function signatures of a single source file"
  | .searchFunctions =>
    "Search documented functions by reference or by keywords in names, signatures and summaries"
  | .getStatus => "Query documentation status and statistics for a project"

/-- The description of a value: its type, what it is, and further members. -/
def valueSchema (type description : String) (more : List (String × Json)) : Json :=
  .obj ([("type", .str type), ("description", .str description)] ++ more)

def filtersSchema : Json :=
  valueSchema "object" "Optional filters to narrow search"
    [("properties", .obj [
      ("file_pattern", valueSchema "string" "Glob pattern for file paths (e.g., 'lib/**')" []),
      ("names", valueSchema "array" "Restrict to these function names"
        [("items", .obj [("type", .str "string")])]),
      ("min_relevance", valueSchema "number" "Minimum relevance score threshold"
        [("minimum", .int 0)])])]

def arguments : Tool → List (String × Json)
  | .indexFunctions =>
    [("path", valueSchema "string"
        "Absolute path to the project root (must contain .stan or .stanfunctions files)" []),
      ("workers", valueSchema "integer" "Number of files documented in parallel (0 uses every CPU)"
        [("minimum", .int 0)])]
  | .resolveReference =>
    [("path", valueSchema "string" "Absolute path to the indexed project" []),
      ("target", valueSchema "string" "Function name, optionally qualified with parameter types" []),
      ("include_docs", valueSchema "boolean" "If true, include the documentation of every candidate"
        [("default", .bool true)])]
  | .documentFile =>
    [("file", valueSchema "string" "Absolute path to a .stan or .stanfunctions file" []),
      ("members", valueSchema "string"
        "Semicolon-separated member list, e.g. 'foo; bar(real, int)'. Empty selects every function" [])]
  | .searchFunctions =>
    [("path", valueSchema "string" "Absolute path to the indexed project" []),
      ("query", valueSchema "string" "Reference (name or name(types)) or keywords" []),
      ("limit", valueSchema "integer" "Maximum number of results to return (1-100)"
        [("default", .int 10), ("minimum", .int 1), ("maximum", .int 100)]),
      ("filters", filtersSchema),
      ("search_mode", valueSchema "string"
        "Search strategy: hybrid (reference + keyword), reference (name lookup only), or keyword (full-text only)"
        [("enum", Json.strings ["hybrid", "reference", "keyword"]), ("default", .str "hybrid")])]
  | .getStatus => [("path", valueSchema "string" "Absolute path to the project" [])]

def required : Tool → List String
  | .indexFunctions => ["path"]
  | .resolveReference => ["path", "target"]
  | .documentFile => ["file"]
  | .searchFunctions => ["path", "query"]
  | .getStatus => ["path"]

def definition (t : Tool) : Json :=
  .obj [("name", .str t.name), ("description", .str t.description),
    ("inputSchema", .obj [("type", .str "object"), ("properties", .obj t.arguments),
      ("required", Json.strings t.required)]),
    ("annotations", .obj [])]

end Tool

end OverloadDocs
