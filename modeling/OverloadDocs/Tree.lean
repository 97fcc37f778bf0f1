import OverloadDocs.Path

/-!
A file tree: files, databases, folders and links. Paths are followed as a file system follows them, so that a link
on the way leads elsewhere and a dot-dot goes up from where the link led.
-/

namespace OverloadDocs

/-- What stands at a place in the tree: a text, a database in its saved form, a link, or a folder, in
which the names are different. -/
inductive Tree where
  | file (text : String)
  | database (saved : String)
  | link (target : String)
  | folder (entries : List (String × Tree))
  deriving Inhabited

namespace Tree

/-- Why a file operation fails. -/
inductive Cause where
  | notFound
  | notFolder
  | isFolder
  | tooManyLinks
  | exists
  | nameTooLong
  | invalid
  deriving DecidableEq

def Cause.message : Cause → String
  | .notFound => "no such file or directory"
  | .notFolder => "not a directory"
  | .isFolder => "is a directory"
  | .tooManyLinks => "too many levels of symbolic links"
  | .exists => "file exists"
  | .nameTooLong => "file name too long"
  | .invalid => "invalid argument"

/-- A failed file operation. -/
structure Failure where
  operation : String
  path : String
  cause : Cause
  deriving DecidableEq

def Failure.message (f : Failure) : String := s!"{f.operation} {f.path}: {f.cause.message}"

def entry? (t : Tree) (name : String) : Option Tree :=
  match t with
  | .folder entries => (entries.find? (·.1 = name)).map (·.2)
  | _ => none

/-- What stands at a place given by names from the root, without following links. -/
def at? (t : Tree) : List String → Option Tree
  | [] => some t
  | name :: names => (t.entry? name).bind (·.at? names)

/-- Puts an entry into a list of entries, in place of one of that name. -/
def putEntry (name : String) (t : Tree) : List (String × Tree) → List (String × Tree)
  | [] => [(name, t)]
  | (n, u) :: entries => if n = name then (n, t) :: entries else (n, u) :: putEntry name t entries

/-- Puts a tree at a place, making folders on the way. -/
def put (t : Tree) (names : List String) (new : Tree) : Tree :=
  match names with
  | [] => new
  | name :: names =>
    let entries := match t with
      | .folder entries => entries
      | _ => []
    .folder (putEntry name (((t.entry? name).getD (.folder [])).put names new) entries)

def erase (t : Tree) : List String → Tree
  | [] => .folder []
  | [name] =>
    match t with
    | .folder entries => .folder (entries.filter (·.1 ≠ name))
    | t => t
  | name :: names =>
    match t with
    | .folder entries => .folder (entries.map fun (n, u) => (n, if n = name then u.erase names else u))
    | t => t

/-- How many links may be followed on the way to one place. -/
def maxLinks : Nat := 40

def maxName : Nat := 255

def maxPath : Nat := 4095

/-- What a path is followed to: through a link at its end or up to it, and whether what is at its end may
be missing. -/
structure Goal where
  throughLink : Bool
  mayBeMissing : Bool

/-- What a path leads to. -/
def Goal.target : Goal := ⟨true, false⟩

/-- What stands at the end of a path, be it a link. -/
def Goal.entry : Goal := ⟨false, false⟩

/-- A file that is written, and made if it is missing. -/
def Goal.written : Goal := ⟨true, true⟩

/-- An entry that is to be made. -/
def Goal.made : Goal := ⟨false, true⟩

/-- Whether the last name is that of a file to be written although a slash behind it asks for a folder. -/
def Goal.clashes (goal : Goal) (names : List String) : Bool :=
  goal.throughLink && goal.mayBeMissing && names == [""]

/-- Follows names from a place, both given from the root. An empty name stands for a slash at the end.
At most `links` links are followed, and the names left shrink between links. -/
def follow (root : Tree) (goal : Goal) :
    (links : Nat) → (place names : List String) → Except Cause (List String)
  | _, place, [] => .ok place
  | links, place, name :: names =>
    match root.at? place with
    | some (.folder _) =>
      if name = ".." then follow root goal links place.dropLast names
      else if name = "." || name = "" then follow root goal links place names
      else if goal.clashes names then .error .isFolder
      else if maxName < name.utf8ByteSize then .error .nameTooLong
      else
        match root.at? (place ++ [name]) with
        | none => if names.isEmpty && goal.mayBeMissing then .ok (place ++ [name]) else .error .notFound
        | some (.link target) =>
          if names.isEmpty && !goal.throughLink then .ok (place ++ [name])
          else
            match links with
            | 0 => .error .tooManyLinks
            | links + 1 =>
              let start := if Path.isAbsolute target then [] else place
              follow root goal links start (Path.steps target ++ names)
        | some _ => follow root goal links (place ++ [name]) names
    | some _ => .error .notFolder
    | none => .error .notFound
termination_by links _ names => (links, names.length)

/-- What is wrong with a path whatever the tree: it ends early, it is empty, or it is too long. -/
def pathFault? (path : String) : Option Cause :=
  if path.toList.contains '\x00' then some .invalid
  else if path = "" then some .notFound
  else if maxPath < path.utf8ByteSize then some .nameTooLong
  else none

/-- The place that an absolute path leads to. -/
def locate (root : Tree) (goal : Goal) (path : String) : Except Cause (List String) :=
  match pathFault? path with
  | some cause => .error cause
  | none => follow root goal maxLinks [] (Path.steps path)

/-- The place of an entry that is to be made. -/
def newPlace (root : Tree) (path : String) : Except Cause (List String) := do
  let place ← root.locate .made path
  if (root.at? place).isSome then throw .exists else return place

/-- The place where names from a place lead to if links are replaced one by one. Names that are missing
stand for themselves, so that a dot-dot takes them back. At most `links` links are replaced, and no path
on the way is longer than `longest`. -/
def settle (root : Tree) (longest : Nat) : (links : Nat) → (place names : List String) → Option (List String)
  | _, place, [] => some place
  | links, place, name :: names =>
    if name = ".." then settle root longest links place.dropLast names
    else if name = "." || name = "" then settle root longest links place names
    else if longest < (Path.ofElements true (place ++ [name])).utf8ByteSize then none
    else
      match root.at? place with
      | none => settle root longest links (place ++ [name]) names
      | some (.folder _) =>
        if maxName < name.utf8ByteSize then none
        else
          match root.at? (place ++ [name]) with
          | some (.link target) =>
            match links with
            | 0 => none
            | links + 1 =>
              let start := if Path.isAbsolute target then [] else place
              settle root longest links start (Path.steps target ++ names)
          | _ => settle root longest links (place ++ [name]) names
      | some _ => none
termination_by links _ names => (links, names.length)

/-- What an absolute path leads to. -/
def get (root : Tree) (path : String) : Except Cause Tree := do
  match root.at? (← root.locate .target path) with
  | some t => return t
  | none => throw .notFound

/-- What stands at an absolute path, be it a link. -/
def getEntry (root : Tree) (path : String) : Except Cause Tree := do
  match root.at? (← root.locate .entry path) with
  | some t => return t
  | none => throw .notFound

def isFolder : Tree → Bool
  | .folder _ => true
  | _ => false

/-- The text with which a database begins when it is read as a file. -/
def databaseHeader : String := "SQLite format 3\x00"

def readText (root : Tree) (path : String) : Except Failure String :=
  match root.get path with
  | .ok (.file text) => .ok text
  | .ok (.database _) => .ok databaseHeader
  | .ok _ => .error ⟨"read", path, .isFolder⟩
  | .error cause => .error ⟨"open", path, cause⟩

/-- Makes the folder at the end of names, and those on the way, below a path that exists already. What
was made before a failure stays. -/
def makeFoldersFrom (root : Tree) (path : String) : List String → Tree × Option Failure
  | [] => (root, none)
  | name :: names =>
    let next := (if path = "/" then "" else path) ++ "/" ++ name
    match root.get next with
    | .ok (.folder _) => makeFoldersFrom root next names
    | .ok _ => (root, some ⟨"mkdir", next, .notFolder⟩)
    | .error _ =>
      match root.newPlace next with
      | .ok place => makeFoldersFrom (root.put place (.folder [])) next names
      | .error cause => (root, some ⟨"mkdir", next, cause⟩)

def makeFolders (root : Tree) (path : String) : Tree × Option Failure :=
  makeFoldersFrom root "/" (Path.cleanElements path)

/-- Writes something in place of a file, through a link if there is one. The folder has to exist. -/
def write (root : Tree) (path : String) (new : Tree) : Except Failure Tree :=
  match root.locate .written path with
  | .ok place =>
    match root.at? place with
    | some (.folder _) => .error ⟨"open", path, .isFolder⟩
    | _ => .ok (root.put place new)
  | .error cause => .error ⟨"open", path, cause⟩

def writeText (root : Tree) (path text : String) : Except Failure Tree := root.write path (.file text)

/-- Removes whatever stands at a path. A path that leads nowhere is left alone. -/
def remove (root : Tree) (path : String) : Tree :=
  match root.locate .entry path with
  | .ok place => root.erase place
  | .error _ => root

/-- Makes a link in a folder that exists. The target has to be a path, but not one that leads
anywhere. -/
def makeLink (root : Tree) (path target : String) : Except Failure Tree :=
  match pathFault? target, root.newPlace path with
  | some cause, _ => .error ⟨s!"symlink {target}", path, cause⟩
  | none, .error cause => .error ⟨s!"symlink {target}", path, cause⟩
  | none, .ok place => .ok (root.put place (.link target))

/-- The path of an entry, relative to where a walk began. -/
def entryPath (folder name : String) : String :=
  if folder = "." then name else folder ++ "/" ++ name

mutual

/-- The paths of all that is no folder, relative to where the walk began. Folders that are to be skipped
are not entered. -/
def files (skip : String → Bool) (path : String) : Tree → List String
  | .folder entries => if path ≠ "." ∧ skip path then [] else filesOfEntries skip path entries
  | _ => [path]

/-- The paths below the entries of a folder. -/
def filesOfEntries (skip : String → Bool) (path : String) : List (String × Tree) → List String
  | [] => []
  | (name, t) :: entries =>
    t.files skip (entryPath path name) ++ filesOfEntries skip path entries

end

mutual

/-- The paths of all folders, relative to where the walk began, apart from those that are to be skipped
and what is in them. -/
def folders (skip : String → Bool) (path : String) : Tree → List String
  | .folder entries =>
    if path ≠ "." ∧ skip path then [] else path :: foldersOfEntries skip path entries
  | _ => []

/-- The folders below the entries of a folder. -/
def foldersOfEntries (skip : String → Bool) (path : String) : List (String × Tree) → List String
  | [] => []
  | (name, t) :: entries =>
    t.folders skip (entryPath path name) ++ foldersOfEntries skip path entries

end

end Tree

end OverloadDocs
