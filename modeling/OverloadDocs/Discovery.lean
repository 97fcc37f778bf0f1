import OverloadDocs.Glob.Compile
import OverloadDocs.Text.Quoted
import OverloadDocs.Tree

/-!
Which files of a folder are sources: those that an include pattern matches and no ignore pattern does.
Patterns match slash-separated paths relative to the folder. Watching for changes covers the folders that
discovery enters, and a change counts when discovery would find the file.
-/

namespace OverloadDocs

/-- A pattern of a discovery. One that begins with any folders also has a variant for files that are
in no folder. -/
structure PathPattern where
  matcher : Glob.Matcher
  atTop : Option Glob.Matcher := none

/-- A pattern that cannot be read. -/
structure PatternError where
  text : String
  cause : Glob.PathError
  deriving DecidableEq

def PatternError.message (e : PatternError) : String :=
  s!"invalid pattern {Text.quoted e.text}: {e.cause.message}"

namespace PathPattern

/-- The rest of a pattern after any folders. -/
def afterAnyFolders? (text : String) : Option String :=
  match text.toList with
  | '*' :: '*' :: '/' :: rest => some (String.ofList rest)
  | _ => none

def separators : List Char := ['/']

def ofText (text : String) : Except PatternError PathPattern :=
  match Glob.Matcher.ofPath separators text with
  | .error cause => .error ⟨text, cause⟩
  | .ok matcher =>
    .ok ⟨matcher, (afterAnyFolders? text).bind fun rest => (Glob.Matcher.ofPath separators rest).toOption⟩

/-- Whether a pattern matches a path, unless it breaks off. -/
def covers? (p : PathPattern) (path : String) : Except Glob.Overrun Bool := do
  if ← p.matcher.matchesText? path then return true
  else
    match p.atTop with
    | none => return false
    | some m => if path.toList.contains '/' then return false else m.matchesText? path

/-- Whether one of several patterns matches a path, unless one breaks off before. -/
def someCovers? (path : String) : List PathPattern → Except Glob.Overrun Bool
  | [] => .ok false
  | p :: ps => do
    if ← p.covers? path then return true else someCovers? path ps

end PathPattern

/-- The patterns that say which files are sources. -/
structure Discovery where
  includes : List PathPattern
  ignores : List PathPattern

namespace Discovery

def defaultIncludes : List String := ["**/*.stan", "**/*.stanfunctions"]

def defaultIgnores : List String := [".git/**", ".standoc/**"]

/-- The discovery of pattern texts; without include patterns the default ones hold. -/
def ofPatterns (includes ignores : List String) : Except PatternError Discovery := do
  let includes ← (if includes.isEmpty then defaultIncludes else includes).mapM PathPattern.ofText
  let ignores ← ignores.mapM PathPattern.ofText
  return ⟨includes, ignores⟩

/-- Whether a path is ignored, unless a pattern breaks off. A folder is also ignored by patterns for all
that is in it. -/
def ignored? (d : Discovery) (path : String) : Except Glob.Overrun Bool := do
  if ← PathPattern.someCovers? path d.ignores then return true
  else PathPattern.someCovers? (path ++ "/**") d.ignores

/-- Whether the file at a path is a source, unless a pattern breaks off. -/
def finds? (d : Discovery) (path : String) : Except Glob.Overrun Bool := do
  if ← d.ignored? path then return false else PathPattern.someCovers? path d.includes

/-- Whether a path is ignored; it is not where a pattern breaks off. -/
def ignored (d : Discovery) (path : String) : Bool := (d.ignored? path).toOption.getD false

/-- Why the sources of a folder cannot be found. -/
inductive Failure where
  | unreadable (cause : Tree.Failure)
  | overrun (cause : Glob.Overrun)
  deriving DecidableEq

/-- The paths of a list that pass a check, unless the check of one breaks off. -/
def passing (check : String → Except Glob.Overrun Bool) : List String → Except Glob.Overrun (List String)
  | [] => .ok []
  | path :: paths => do
    let passes ← check path
    let rest ← passing check paths
    return if passes then path :: rest else rest

/-- The folders that are entered, relative to where the walk begins, unless a pattern breaks off. -/
def entered? (d : Discovery) (start : Tree) : Except Glob.Overrun (List String) :=
  passing (fun path => if path = "." then .ok true else (d.ignored? path).map (!·)) (start.folders d.ignored ".")

/-- The sources of a folder, as sorted paths relative to it. Links are neither followed nor folders. -/
def sources (d : Discovery) (tree : Tree) (root : String) : Except Failure (List String) :=
  match tree.getEntry root with
  | .error cause => .error (.unreadable ⟨"lstat", root, cause⟩)
  | .ok start =>
    match d.entered? start, passing d.finds? (start.files d.ignored ".") with
    | .ok _, .ok found => .ok (found.mergeSort (· ≤ ·))
    | .error cause, _ => .error (.overrun cause)
    | _, .error cause => .error (.overrun cause)

/-- The folders that are watched for changes, sorted. A root that is not there has none. -/
def watched (d : Discovery) (tree : Tree) (root : String) : Except Glob.Overrun (List String) :=
  match tree.getEntry root with
  | .error _ => .ok []
  | .ok start => (d.entered? start).map fun paths =>
    (paths.map fun path => if path = "." then root else Path.join [root, path]).mergeSort (· ≤ ·)

end Discovery

/-- What can happen to a file. -/
inductive Change where
  | create
  | write
  | remove
  | rename
  | attributes
  deriving DecidableEq

/-- Whether a change touches the content of a file or that it is there. -/
def Change.matters : Change → Bool
  | .attributes => false
  | _ => true

/-- The relative path of a changed file and whether the change asks for a new build. Changes that do
not matter, and files with no path from the root, have an empty path. -/
def Discovery.relevant (d : Discovery) (root path : String) (changes : List Change) :
    Except Glob.Overrun (String × Bool) :=
  if changes.any Change.matters then
    match Path.relative? root path with
    | some relative => (d.finds? relative).map fun found => (relative, found)
    | none => .ok ("", false)
  else .ok ("", false)

end OverloadDocs
