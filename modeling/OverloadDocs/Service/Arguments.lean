import OverloadDocs.Binary64
import OverloadDocs.Json.Basic
import OverloadDocs.Search.Basic
import OverloadDocs.Tree

/-!
The arguments of tool calls, what can be wrong with them, and the errors that clients get.
-/

namespace OverloadDocs

/-- The error of a call: a code, a message, and what it is about. -/
structure ToolError where
  code : Int
  message : String
  data : Json := .null

namespace ToolError

def invalidParams : Int := -32602

def internal : Int := -32603

def projectNotFound : Int := -32001

def indexingInProgress : Int := -32002

def notIndexed : Int := -32003

def emptyQuery : Int := -32004

/-- An argument that is unusable for a reason. -/
def badArgument (message param reason : String) : ToolError :=
  ⟨invalidParams, message, .obj [("param", .str param), ("reason", .str reason)]⟩

def missing (param : String) : ToolError :=
  badArgument (param ++ " parameter is required") param "missing or empty"

def failed (message cause : String) : ToolError :=
  ⟨internal, message, .obj [("error", .str cause)]⟩

def unknownProject (path : String) : ToolError :=
  ⟨notIndexed, "project not indexed", .obj [("path", .str path)]⟩

end ToolError

/-- What can be wrong with a path. -/
inductive PathFault where
  | required
  | notAbsolute
  | notFound
  | notReadable
  | notFolder
  | isFolder
  | notSource
  deriving DecidableEq

def PathFault.message : PathFault → String
  | .required => "path is required"
  | .notAbsolute => "path must be absolute"
  | .notFound => "path does not exist"
  | .notReadable => "path is not readable"
  | .notFolder => "path is not a directory"
  | .isFolder => "path is a directory"
  | .notSource => "file is not a .stan or .stanfunctions source file"

namespace Tree

/-- What an absolute path leads to, or what is wrong with the path. -/
def lookUp (tree : Tree) (path : String) : Except PathFault Tree :=
  if !Path.isAbsolute path then .error .notAbsolute
  else match tree.get path with
    | .ok t => .ok t
    | .error .notFound => .error .notFound
    | .error _ => .error .notReadable

/-- What is wrong with the path of a project, which has to be an absolute one of a folder. -/
def folderFault? (tree : Tree) (path : String) : Option PathFault :=
  if path = "" then some .required
  else match tree.lookUp path with
    | .error fault => some fault
    | .ok t => if t.isFolder then none else some .notFolder

def sourceExtensions : List String := [".stan", ".stanfunctions"]

/-- What is wrong with the path of a source file, which has to be an absolute one of a file. -/
def sourceFault? (tree : Tree) (path : String) : Option PathFault :=
  match tree.lookUp path with
  | .error fault => some fault
  | .ok t =>
    if t.isFolder then some .isFolder
    else if sourceExtensions.contains (Path.extension path) then none
    else some .notSource

end Tree

namespace Json

/-- A member that is a text with something in it. -/
def nonEmptyText? (args : Json) (key : String) : Option String := (args.text? key).filter (· ≠ "")

/-- A member that is a number, as a whole one in 64 bits. All numbers are measured ones, so that large whole
ones are rounded before. -/
def whole? (args : Json) (key : String) : Option Int :=
  match args.member? key with
  | some (.int n) => some (Binary64.ofInt n).toInt64
  | some (.float x) => some (truncated x)
  | _ => none

/-- What narrows a search, if anything does. Names that are empty or no texts are passed over. -/
def filter? (args : Json) : Option (SearchFilter Float) :=
  match args.member? "filters" with
  | some (.obj members) =>
    let filters : Json := .obj members
    let names := match filters.member? "names" with
      | some (.arr items) => items.filterMap fun
        | .str s => if s = "" then none else some s
        | _ => none
      | _ => []
    let minRelevance := match filters.member? "min_relevance" with
      | some (.int n) => Float.ofInt n
      | some (.float x) => x
      | _ => 0
    some ⟨(filters.text? "file_pattern").getD "", names, minRelevance⟩
  | _ => none

end Json

end OverloadDocs
