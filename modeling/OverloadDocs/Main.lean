import OverloadDocs.Command.Run

/-!
The program. It takes into a workspace what a command line is about, runs the command line there, prints
what comes of it, and saves the database if that has changed.
-/

namespace OverloadDocs

/-- The text of a file on the disk, if it can be read. -/
def fileOnDisk? (path : String) : IO (Option String) := do
  try
    let file ← IO.FS.Handle.mk path .read
    return some (← file.readToEnd)
  catch _ => return none

/-- What stands at a path of the disk, with all that is below it. Links to folders are not followed, and
what cannot be read is left out. -/
partial def treeOnDisk? (path : String) : IO (Option Tree) := do
  try
    let real ← IO.FS.realPath path
    if ← real.isDir then
      let entries ← (← real.readDir).toList.filterMapM fun e => do
        let entry : String := e.path.toString
        if (← IO.FS.realPath entry).toString = entry || !(← e.path.isDir) then
          return (← treeOnDisk? entry).map fun t => (e.fileName, t)
        else return none
      return some (.folder (entries.mergeSort fun a b => a.1 ≤ b.1))
    else return (← fileOnDisk? path).map Tree.file
  catch _ => return none

/-- Takes something into a workspace if it is on the disk. -/
def Workspace.take (w : Workspace) (read : String → IO (Option Tree)) (path : String) : IO Workspace := do
  match ← read (w.absolute path) with
  | none => return w
  | some t => return { w with tree := w.tree.put (Path.cleanElements (w.absolute path)) t }

/-- The database in a file on the disk, or the text of the file if it is none. -/
def databaseOnDisk? (path : String) : IO (Option Tree) := do
  return (← fileOnDisk? path).map fun text =>
    if (Store.ofSavedText? text).isSome then .database text else .file text

/-- Takes in single files. -/
def Workspace.takeFiles (w : Workspace) (paths : List String) : IO Workspace :=
  paths.foldlM (fun w path => w.take (fun p => do return (← fileOnDisk? p).map Tree.file) path) w

/-- The files that a command line names. -/
def Command.namedFiles (command : Command) (line : Command.Parsed) : List String :=
  match command with
  | .extract => line.words
  | .resolve => line.list "file"
  | _ => []

/-- Takes in what a command is about, and says where its database is. -/
def Workspace.prepare (w : Workspace) (env : Config.Environment) (command : Command)
    (line : Command.Parsed) : IO (Workspace × Option String) := do
  let root := Command.rootOf line
  let w ← match command with
    | .index => w.take treeOnDisk? (line.words.head?.getD root)
    | _ => pure w
  let w ← w.takeFiles (Config.fileNames.map fun name => Path.join [Config.folderOf env (w.absolute root), name])
  let w ← w.takeFiles (command.namedFiles line)
  match Command.configFor w env line with
  | .error _ => return (w, none)
  | .ok config =>
    match (Path.expandHome w.home config.dbPath).map Address.read with
    | some (.ok (.file path _, _)) => return (← w.take databaseOnDisk? path, some (w.absolute path))
    | _ => return (w, none)

/-- The saved form of the database at a path. -/
def Workspace.savedAt? (w : Workspace) (path : String) : Option String :=
  match w.tree.get path with
  | .ok (.database saved) => some saved
  | _ => none

def saveChanged (before after : Workspace) (path : String) : IO Unit := do
  match after.savedAt? path with
  | some saved =>
    if before.savedAt? path ≠ some saved then
      IO.FS.createDirAll (Path.directory path)
      let file ← IO.FS.Handle.mk path .write
      file.putStr saved
  | none => return

def durationText (ms : Nat) : String := if ms < 1000 then s!"{ms}ms" else s!"{Text.fixed 3 (ms.toFloat / 1000)}s"

def usageText : String :=
  s!"Usage: {programName} [flags] command [arguments]\nCommands: " ++
    ", ".intercalate (Command.all.map (·.name)) ++ "\n"

/-- Runs a command line on the disk, and says whether it failed. -/
def runOnDisk (words : List String) : IO Bool := do
  let start ← IO.monoMsNow
  let names := Config.settingVariables ++ words.flatMap Config.variablesIn
  let env ← names.filterMapM fun name => do return (← IO.getEnv name).map fun v => (name, v)
  let empty : Workspace :=
    { tree := .folder []
      directory := (← IO.currentDir).toString
      home := (← IO.getEnv "HOME").getD ""
      supply := ⟨← IO.rand 0 (Nat.pow 2 46)⟩ }
  let (before, database) ← match Command.Invocation.ofWords words with
    | .ok (.run command line) => empty.prepare env command line
    | .ok .outer => do IO.print usageText; pure (empty, none)
    | .error _ => pure (empty, none)
  let size := ((database.bind before.savedAt?).map (·.utf8ByteSize)).getD 0
  let readings : Readings :=
    { duration := durationText ((← IO.monoMsNow) - start)
      indexedAt := "unknown"
      indexSize := Text.fixed 6 (size.toFloat / 1048576) }
  let (outcome, after) := before.run readings env words
  IO.print outcome.output
  IO.eprint outcome.reported
  if let some path := database then saveChanged before after path
  if let some e := outcome.failure then IO.eprintln e.message
  return outcome.failure.isSome

end OverloadDocs

/-- The program. -/
def main (words : List String) : IO UInt32 := do
  return if ← OverloadDocs.runOnDisk words then 1 else 0
