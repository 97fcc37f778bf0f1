/-!
Slash-separated paths as texts. A clean path has no empty, dot or inner dot-dot elements.
-/

namespace OverloadDocs.Path

def isAbsolute (path : String) : Bool := path.toList.head? == some '/'

def elements (path : String) : List String :=
  ((path.toList.splitOn '/').filter (· ≠ [])).map String.ofList

/-- The elements as a file system follows them, with an empty one for a slash at the end, where the path
has to lead to a folder. -/
def steps (path : String) : List String :=
  elements path ++ if path.toList.getLast? == some '/' then [""] else []

/-- Takes one more element onto clean elements in reverse. A dot-dot removes the element before it, is
dropped at the root, and is kept where a relative path begins. -/
def pushElement (absolute : Bool) (reversed : List String) (element : String) : List String :=
  if element = "." then reversed
  else if element = ".." then
    match reversed with
    | [] => if absolute then [] else [".."]
    | last :: before => if last = ".." then ".." :: reversed else before
  else element :: reversed

def cleanElements (path : String) : List String :=
  ((elements path).foldl (pushElement (isAbsolute path)) []).reverse

def ofElements (absolute : Bool) (elements : List String) : String :=
  let joined := "/".intercalate elements
  if absolute then "/" ++ joined else if joined = "" then "." else joined

/-- The shortest path that names the same place. -/
def clean (path : String) : String := ofElements (isAbsolute path) (cleanElements path)

/-- The clean path of several put behind each other; empty ones do not count. -/
def join (paths : List String) : String :=
  match paths.filter (· ≠ "") with
  | [] => ""
  | paths => clean ("/".intercalate paths)

/-- The clean absolute path, a relative one being taken from a directory. -/
def absolute (directory path : String) : String :=
  if isAbsolute path then clean path else join [directory, path]

/-- The clean absolute path, a relative one being taken from the top. -/
def fromTop (path : String) : String := absolute "/" path

def base (path : String) : String :=
  if path = "" then "."
  else match (elements path).getLast? with
    | some element => element
    | none => "/"

def directory (path : String) : String :=
  clean (String.ofList ((path.toList.reverse.dropWhile (· ≠ '/')).reverse))

def extension (path : String) : String :=
  let last := (path.toList.reverse.takeWhile (· ≠ '/')).reverse
  if last.contains '.' then
    String.ofList ('.' :: (last.reverse.takeWhile (· ≠ '.')).reverse)
  else ""

/-- What remains of two lists after the elements in which they begin alike. -/
def dropCommon : List String → List String → List String × List String
  | a :: as, b :: bs => if a = b then dropCommon as bs else (a :: as, b :: bs)
  | as, bs => (as, bs)

/-- The path that leads from one place to another, if there is one. -/
def relative? (start goal : String) : Option String :=
  if isAbsolute start ≠ isAbsolute goal then none
  else
    let (up, down) := dropCommon (cleanElements start) (cleanElements goal)
    if up.contains ".." then none
    else some (ofElements false (up.map (fun _ => "..") ++ down))

/-- A path with a leading tilde replaced by the home directory, which has to be known for it. -/
def expandHome (home path : String) : Option String :=
  match path.toList with
  | ['~'] => if home = "" then none else some (join [home])
  | '~' :: '/' :: rest => if home = "" then none else some (join [home, String.ofList ('/' :: rest)])
  | _ => some path

end OverloadDocs.Path
