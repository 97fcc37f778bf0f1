import OverloadDocs.Config.Basic
import OverloadDocs.Text.Lower
import OverloadDocs.Yaml.Parser

/-!
Loading a configuration. A setting comes from the environment, or else from the configuration file, or
else it has its default. Values are taken loosely: a text can spell a number, and a single value can stand
for a list.
-/

namespace OverloadDocs.Config

/-- Variables with their values. -/
abbrev Environment := List (String × String)

/-- The value of a variable; an empty one counts as not set. -/
def valueOf? (env : Environment) (name : String) : Option String :=
  ((env.find? (·.1 = name)).map (·.2)).filter (· ≠ "")

/-- The value under a key of a map, without regard to case. -/
def valueIn? (entries : List (String × Yaml)) (key : String) : Option Yaml :=
  (entries.find? fun (k, _) => Text.lower k = key).map (·.2)

/-- The value under a key of a map, without regard to case; null counts as absent. -/
def settingIn? (entries : List (String × Yaml)) (key : String) : Option Yaml :=
  (valueIn? entries key).filter fun v => !v.isNull

/-- Where a setting stands: a section and a key in the file, and further variables that overrule it. The
variable of a setting that is not `bound` is looked at only where its section is not given as null. -/
structure Setting where
  sectionName : String
  key : String
  more : List String := []
  bound : Bool := true

/-- What all names of variables begin with. -/
def variableStart : String := "STANDOC"

def variableName (words : List String) : String := "_".intercalate (variableStart :: words.map String.toUpper)

/-- The variable that stands for the whole section of a setting. -/
def Setting.sectionVariable (s : Setting) : String := variableName [s.sectionName]

/-- The variable of a setting itself. -/
def Setting.ownVariable (s : Setting) : String := variableName [s.sectionName, s.key]

/-- What is known about a setting: a value, nothing, or that it is left empty. -/
inductive Setting.Found where
  | value (v : Yaml)
  | nothing
  | blank

/-- A setting in the file. -/
def Setting.inFile (s : Setting) (file : List (String × Yaml)) : Found :=
  match settingIn? file (s.sectionName ++ "." ++ s.key) with
  | some v => .value v
  | none =>
    match settingIn? file s.sectionName with
    | some (.map entries) => ((settingIn? entries s.key).map .value).getD .nothing
    | _ => .nothing

/-- A setting in the environment or the file. A variable for the whole section blanks all of it that has no
variable of its own. -/
def Setting.overruled (s : Setting) (env : Environment) (file : List (String × Yaml)) : Found :=
  match valueOf? env s.ownVariable with
  | some text => .value (.str text)
  | none =>
    if (valueOf? env s.sectionVariable).isSome then .blank
    else
      match s.more.findSome? (valueOf? env) with
      | some text => .value (.str text)
      | none => s.inFile file

/-- The name of the kind of a value that is no map. -/
def kindOf : Yaml → String
  | .null => "invalid"
  | .bool _ => "bool"
  | .int n => if n < Nat.pow 2 63 then "int" else "uint64"
  | .float _ => "float64"
  | .timestamp _ => "struct"
  | .str _ => "string"
  | .seq _ => "slice"
  | .map _ => "map"

/-- A setting in the environment or the file. A section has to be a map or null, and may then not be a
variable in the environment too; a section that is a timestamp is left empty. -/
def Setting.find (s : Setting) (env : Environment) (file : List (String × Yaml)) :
    Except (List Misfit) Found :=
  let notSection (kind : String) : Except (List Misfit) Found := .error [⟨s.sectionName, .notSection kind⟩]
  match valueIn? file s.sectionName with
  | none => .ok (s.overruled env file)
  | some (.map _) => .ok (s.overruled env file)
  | some value =>
    if (valueOf? env s.sectionVariable).isSome then notSection "string"
    else
      match value with
      | .null => .ok (s.overruled (if s.bound then env else []) file)
      | .timestamp _ => .ok .blank
      | _ => notSection (kindOf value)

/-- A whole number in 64 bits, those above them going on below zero. -/
def wrapped (n : Int) : Int := n.bmod (Nat.pow 2 64)

/-- The name of the type of a value that is a collection or a time. -/
def typeOf : Yaml → String
  | .seq _ => Yaml.listType
  | .map _ => Yaml.mapType true
  | .timestamp _ => "time.Time"
  | y => kindOf y

/-- What is taken from values for a field, unless they do not fit. -/
abbrev Reader (α : Type) := String → Yaml → Except (List Misfit) α

/-- The whole number that a value stands for; the empty text is zero. -/
def intOf : Reader Int := fun field value =>
  match value with
  | .int n => .ok (wrapped n)
  | .float x => .ok x.toInt64
  | .bool b => .ok (if b then 1 else 0)
  | .str s =>
    if s = "" then .ok 0
    else match Text.integer? s.toList with
      | some n => .ok n
      | none => .error [⟨field, if Text.isTooLarge s.toList then .tooLarge else .notNumber⟩]
  | _ => .error [⟨field, .otherType "int" (typeOf value)⟩]

/-- The text that a value stands for. -/
def textOf : Reader String := fun field value =>
  match value with
  | .null => .ok ""
  | .str s => .ok s
  | .int n => .ok (toString n)
  | .float x => .ok x.render
  | .bool b => .ok (if b then "1" else "0")
  | _ => .error [⟨field, .otherType "string" (typeOf value)⟩]

/-- The texts that the items of a list stand for, from a place on. -/
def textsOf (field : String) (place : Nat) : List Yaml → Except (List Misfit) (List String)
  | [] => .ok []
  | item :: items =>
    match textOf s!"{field}[{place}]" item, textsOf field (place + 1) items with
    | .ok text, .ok texts => .ok (text :: texts)
    | .ok _, .error misfits => .error misfits
    | .error misfits, .ok _ => .error misfits
    | .error misfits, .error more => .error (misfits ++ more)

/-- The list of texts that a value stands for: a text is split at commas, and any other single value
is a list of one. -/
def listOf : Reader (List String) := fun field value =>
  match value with
  | .seq items => textsOf field 0 items
  | .str s => .ok (if s = "" then [] else (s.toList.splitOn ',').map String.ofList)
  | .map [] => .ok []
  | _ => textsOf field 0 [value]

/-- The value of a setting as something, or its default. A blank setting has the value `empty`. -/
def Setting.read {α : Type} (s : Setting) (env : Environment) (file : List (String × Yaml))
    (as : Reader α) (default empty : α) : Except (List Misfit) α :=
  match s.find env file with
  | .error misfits => .error misfits
  | .ok .nothing => .ok default
  | .ok .blank => .ok empty
  | .ok (.value v) => as (s.sectionName ++ "." ++ s.key) v

def includeSetting : Setting := { sectionName := "paths", key := "include", bound := false }

def ignoreSetting : Setting := { sectionName := "paths", key := "ignore", bound := false }

def dbPathSetting : Setting :=
  { sectionName := "storage", key := "db_path", more := ["STANDOC_DB_PATH"] }

def workersSetting : Setting := { sectionName := "indexer", key := "workers" }

def batchSizeSetting : Setting := { sectionName := "indexer", key := "batch_size" }

def cacheSizeSetting : Setting := { sectionName := "resolver", key := "cache_size" }

def formatSetting : Setting := { sectionName := "output", key := "format" }

def settings : List Setting :=
  [includeSetting, ignoreSetting, dbPathSetting, workersSetting, batchSizeSetting, cacheSizeSetting,
    formatSetting]

/-- The values that do not fit where something is read. -/
def misfits {α : Type} : Except (List Misfit) α → List Misfit
  | .ok _ => []
  | .error misfits => misfits

/-- The settings of an environment and the contents of a configuration file. All values that do not fit are
told, a section only once. -/
def ofSettings (env : Environment) (file : List (String × Yaml)) : Except ConfigError Config :=
  let default : Config := {}
  let includes := includeSetting.read env file listOf default.includes []
  let ignores := ignoreSetting.read env file listOf default.ignores []
  let dbPath := dbPathSetting.read env file textOf default.dbPath ""
  let workers := workersSetting.read env file intOf default.workers 0
  let batchSize := batchSizeSetting.read env file intOf default.batchSize 0
  let cacheSize := cacheSizeSetting.read env file intOf default.cacheSize 0
  let format := formatSetting.read env file textOf default.format ""
  match includes, ignores, dbPath, workers, batchSize, cacheSize, format with
  | .ok includes, .ok ignores, .ok dbPath, .ok workers, .ok batchSize, .ok cacheSize, .ok format =>
    let config : Config := { includes, ignores, dbPath, workers, batchSize, cacheSize, format }
    if config.faults.isEmpty then .ok config else .error (.loaded config.faults)
  | _, _, _, _, _, _, _ =>
    .error (.mistyped (misfits includes ++ misfits ignores ++ misfits dbPath ++ misfits workers ++
      misfits batchSize ++ misfits cacheSize ++ misfits format).eraseDups)

/-- The variables that settings come from. -/
def settingVariables : List String :=
  (settings.flatMap fun s => s.sectionVariable :: s.ownVariable :: s.more).eraseDups

/-- The contents of a configuration file. -/
def fileContents (text : String) : Except ConfigError (List (String × Yaml)) :=
  match Yaml.entries text with
  | .ok entries => .ok entries
  | .error cause => .error (.unreadable cause)

def folderName : String := ".standoc"

/-- The names of a configuration file, the first that is there being read. -/
def fileNames : List String :=
  (["json", "toml", "yaml", "yml", "properties", "props", "prop", "hcl", "tfvars", "dotenv", "env",
    "ini"].map ("config." ++ ·)) ++ ["config"]

def isVariableChar (c : Char) : Bool := c.isAlphanum || c == '_'

/-- Whether a character names a variable by itself. -/
def isVariableSign (c : Char) : Bool := "*#$@!?-".toList.contains c || c.isDigit

/-- The name of the variable behind a dollar sign, which may stand in braces, and how many characters it
takes up. -/
def variableAhead (cs : List Char) : List Char × Nat :=
  match cs with
  | [] => ([], 0)
  | '\x7b' :: rest =>
    let name := rest.takeWhile (· ≠ '\x7d')
    if name.length = rest.length then ([], 1) else (name, name.length + 2)
  | c :: rest =>
    if isVariableSign c then ([c], 1)
    else
      let name := (c :: rest).takeWhile isVariableChar
      (name, name.length)

/-- A path with the values of variables in place of their names. Braces without a name are left out, and
a dollar sign before anything else stands for itself. -/
def expanded (env : Environment) : List Char → List Char
  | [] => []
  | ['$'] => ['$']
  | c :: cs =>
    if c = '$' then
      let (name, used) := variableAhead cs
      let value :=
        if name = [] then (if used = 0 then ['$'] else [])
        else ((valueOf? env (String.ofList name)).getD "").toList
      value ++ expanded env (cs.drop used)
    else c :: expanded env cs
termination_by cs => cs.length
decreasing_by all_goals simp only [List.length_cons, List.length_drop]; omega

/-- The variables that a path names. -/
def variablesIn (path : String) : List String :=
  ((path.toList.splitOn '$').drop 1).map fun cs => String.ofList (variableAhead cs).1

/-- The folder of the configuration of a project. -/
def folderOf (env : Environment) (root : String) : String :=
  Path.clean (String.ofList (expanded env (Path.join [root, folderName]).toList))

/-- The text of the configuration file in a folder, if there is one. It fails where it cannot be told
whether a file is there. -/
def fileText? (tree : Tree) (folder : String) : Except Tree.Failure (Option String) :=
  let paths := fileNames.map fun name => Path.join [folder, name]
  let unreachable := paths.findSome? fun path =>
    match tree.get path with
    | .error .notFound => none
    | .error cause => some (⟨"stat", path, cause⟩ : Tree.Failure)
    | .ok _ => none
  match unreachable with
  | some failure => .error failure
  | none =>
    match paths.find? fun path => ((tree.get path).toOption.map fun t => !t.isFolder).getD false with
    | none => .ok none
    | some path => (tree.readText path).map some

def load (tree : Tree) (root : String) (env : Environment) : Except ConfigError Config := do
  match fileText? tree (folderOf env root) with
  | .error cause => throw (.unreachable cause)
  | .ok none => ofSettings env []
  | .ok (some text) => ofSettings env (← fileContents text)

end OverloadDocs.Config
