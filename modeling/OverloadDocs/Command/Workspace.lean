import OverloadDocs.Anchor
import OverloadDocs.Build
import OverloadDocs.Store.Address
import OverloadDocs.Store.Saved
import OverloadDocs.Tree

/-!
What commands work on: a file tree with the sources and the databases in it. A database file is made when it
is first opened, together with the folders it is in.
-/

namespace OverloadDocs

/-- The file tree, the folder from which relative paths lead on, the home folder, and the anchor
supply. -/
structure Workspace where
  tree : Tree
  directory : String := "/"
  home : String
  supply : Anchors := {}

/-- Why a database cannot be opened. -/
inductive OpenError where
  | homeUnknown
  | folder (cause : Tree.Failure)
  | address (cause : AddressError)
  | unreachable
  | noJournal
  | notDatabase
  | notWritable
  deriving DecidableEq

def OpenError.message : OpenError → String
  | .homeUnknown => "failed to resolve database path: $HOME is not defined"
  | .folder cause => "failed to create database directory: " ++ cause.message
  | .address cause => "failed to open database: failed to enable WAL mode: " ++ cause.message
  | .unreachable =>
    "failed to open database: failed to enable WAL mode: unable to open database file: out of memory (14)"
  | .noJournal => "failed to open database: failed to enable WAL mode: unable to open database file (14)"
  | .notDatabase => "failed to open database: failed to enable WAL mode: file is not a database (26)"
  | .notWritable =>
    "failed to open database: failed to enable WAL mode: attempt to write a readonly database (8)"

/-- An open database: its rows, and the path of its file if they are kept in one. -/
structure OpenStore where
  store : Store := {}
  path : Option String := none

namespace Workspace

def absolute (w : Workspace) (path : String) : String := Path.absolute w.directory path

/-- Documents a file. Whatever is said about it names it as it was given. -/
def document (w : Workspace) (file : String) : Except Tree.Failure (FileBuild × Workspace) :=
  let path := if Path.isAbsolute file || file = "" then file else w.directory ++ "/" ++ file
  match w.tree.readText path with
  | .error f => .error { f with path := file }
  | .ok text =>
    let (build, supply) := FileBuild.ofSource w.supply file text
    .ok (build, { w with supply := supply })

/-- What the names of the files end with that go with a database while it is in use. -/
def companionEndings : List String := ["-journal", "-wal", "-shm"]

/-- The tree without the files that went with the database at a path. -/
def withoutCompanions (path : String) (tree : Tree) : Tree :=
  companionEndings.foldl (fun tree ending =>
    match tree.getEntry (path ++ ending) with
    | .ok (.file _) => tree.remove (path ++ ending)
    | _ => tree) tree

/-- Keeps the rows of an open database in its file. -/
def keep (w : Workspace) (o : OpenStore) : Workspace :=
  match o.path.map fun path => (w.tree.write path (.database o.store.savedText)).map (withoutCompanions path) with
  | some (.ok tree) => { w with tree := tree }
  | _ => w

/-- How many links are replaced in the path of a database. -/
def maxDatabaseLinks : Nat := 201

/-- The longest path of a database in bytes. -/
def maxDatabasePath : Nat := 511

/-- The path of the file of a database, in which links are replaced. -/
def databasePath? (w : Workspace) (path : String) : Option String :=
  let start := if Path.isAbsolute path then [] else Path.elements w.directory
  (w.tree.settle maxDatabasePath maxDatabaseLinks [] (start ++ Path.elements path)).map (Path.ofElements true)

/-- The largest size in bytes of a file that counts as empty when it is taken for a database. -/
def emptySize : Nat := 1

def rowsOf : Tree → Except OpenError (Option Store)
  | .database saved =>
    match Store.ofSavedText? saved with
    | some store => .ok (some store)
    | none => .error .notDatabase
  | .file text => if text.utf8ByteSize ≤ emptySize then .ok none else .error .notDatabase
  | _ => .error .unreachable

/-- What stands at the path of a database, where an empty file is made if there is nothing. -/
def touch (w : Workspace) (path : String) (access : Access) : Except OpenError (Tree × Workspace) :=
  match w.tree.get path with
  | .ok t => if t.isFolder then .error .unreachable else .ok (t, w)
  | .error _ =>
    match access, w.tree.writeText path "" with
    | .make, .ok tree => .ok (.file "", { w with tree := tree })
    | _, _ => .error .unreachable

/-- Whether the files that go with a database can have their names. -/
def hasRoom (path : String) : Bool :=
  companionEndings.all fun ending => (Path.base path ++ ending).utf8ByteSize ≤ Tree.maxName

/-- Opens the database in a file. Rows that are only read are not kept. -/
def openFile (w : Workspace) (path : String) (access : Access) (late : Option AddressError) :
    Except OpenError OpenStore × Workspace :=
  match (w.databasePath? path).map fun path => (path, w.touch path access) with
  | none => (.error .unreachable, w)
  | some (_, .error e) => (.error e, w)
  | some (path, .ok (found, w)) =>
    match late, rowsOf found, access with
    | some e, _, _ => (.error (.address e), w)
    | none, .error e, _ => (.error e, w)
    | none, .ok (some store), .read => (.ok { store := store }, w)
    | none, .ok none, .read => (.error .notWritable, w)
    | none, .ok rows, _ =>
      let o : OpenStore := ⟨rows.getD {}, some path⟩
      if hasRoom path then (.ok o, w.keep o) else (.error .noJournal, w)

/-- Makes the folder that the address of a database names, and those on the way. -/
def makeDatabaseFolder (w : Workspace) (address : String) : Option OpenError × Workspace :=
  let directory := Path.directory address
  let (tree, failure) := w.tree.makeFolders (w.absolute directory)
  let shown (path : String) :=
    if Path.isAbsolute directory then path else ((Path.relative? w.directory path).getD path)
  (failure.map fun f => .folder { f with path := shown f.path }, { w with tree := tree })

/-- Opens the database of an address, in which a leading tilde stands for the home folder. -/
def openStore (w : Workspace) (dbPath : String) : Except OpenError OpenStore × Workspace :=
  match Path.expandHome w.home dbPath with
  | none => (.error .homeUnknown, w)
  | some address =>
    match w.makeDatabaseFolder address, Address.read address with
    | (some e, w), _ => (.error e, w)
    | (none, w), .error e => (.error (.address e), w)
    | (none, w), .ok (.passing, late) =>
      (match late with
        | some e => .error (.address e)
        | none => .ok {}, w)
    | (none, w), .ok (.file path access, late) => w.openFile path access late

end Workspace

end OverloadDocs
