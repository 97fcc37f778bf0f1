import OverloadDocs.Discovery
import OverloadDocs.Yaml.Error

/-!
The configuration: which files to index, where the database is, and how output looks. A configuration is
checked field by field, and every fault is reported.
-/

namespace OverloadDocs

/-- All settings. Zero workers means as many as there are processors. -/
structure Config where
  includes : List String := Discovery.defaultIncludes
  ignores : List String := Discovery.defaultIgnores
  dbPath : String := "~/.standoc/standoc.db"
  workers : Int := 0
  batchSize : Int := 20
  cacheSize : Int := 256
  format : String := "yaml"
  deriving DecidableEq, Inhabited

namespace Config

/-- What a field can fail. -/
inductive Rule where
  | required
  | minItems (n : Nat)
  | atLeast (n : Nat)
  | oneOf (words : List String)
  deriving DecidableEq

def Rule.render : Rule → String
  | .required => "required"
  | .minItems n => s!"min={n}"
  | .atLeast n => s!"gte={n}"
  | .oneOf words => "oneof=" ++ " ".intercalate words

/-- A field that fails a rule. -/
structure Fault where
  field : String
  rule : Rule
  deriving DecidableEq

def Fault.message (f : Fault) : String := s!"{f.field}: failed {f.rule.render}"

def formats : List String := ["yaml", "json"]

/-- A fault unless a condition holds. -/
def faultUnless (ok : Bool) (field : String) (rule : Rule) : List Fault :=
  if ok then [] else [⟨field, rule⟩]

/-- The faults of the items of a list, none of which may be empty. -/
def itemFaults (field : String) (items : List String) : List Fault :=
  (items.mapIdx fun i item => faultUnless (item ≠ "") s!"{field}[{i}]" .required).flatten

def faults (c : Config) : List Fault :=
  faultUnless (!c.includes.isEmpty) "paths.include" (.minItems 1) ++
  itemFaults "paths.include" c.includes ++
  itemFaults "paths.ignore" c.ignores ++
  faultUnless (c.dbPath ≠ "") "storage.db_path" .required ++
  faultUnless (0 ≤ c.workers) "indexer.workers" (.atLeast 0) ++
  faultUnless (0 ≤ c.batchSize) "indexer.batch_size" (.atLeast 0) ++
  faultUnless (1 ≤ c.cacheSize) "resolver.cache_size" (.atLeast 1) ++
  faultUnless (formats.contains c.format) "output.format" (.oneOf formats)

/-- Why a value is not taken for a setting: it is no section, it has another type than the wanted one, or it
is a text that spells no number, or too large a one. -/
inductive Unfit where
  | notSection (kind : String)
  | otherType (wanted found : String)
  | notNumber
  | tooLarge
  deriving DecidableEq

def Unfit.message : Unfit → String
  | .notSection kind => "expected a map or struct, got " ++ Text.quoted kind
  | .otherType wanted found => s!"expected type '{wanted}', got unconvertible type '{found}'"
  | .notNumber => "cannot parse value as 'int': strconv.ParseInt: invalid syntax"
  | .tooLarge => "cannot parse value as 'int': strconv.ParseInt: value out of range"

/-- A field with a value that is not taken for it. -/
structure Misfit where
  field : String
  cause : Unfit
  deriving DecidableEq

def Misfit.message (m : Misfit) : String := s!"'{m.field}' {m.cause.message}"

end Config

/-- Why a configuration cannot be used. One from a file or the environment is told apart from one that
was put together otherwise. -/
inductive ConfigError where
  | absent
  | invalid (faults : List Config.Fault)
  | loaded (faults : List Config.Fault)
  | unreachable (cause : Tree.Failure)
  | unreadable (cause : YamlError)
  | mistyped (misfits : List Config.Misfit)
  deriving DecidableEq

def Config.faultsMessage (faults : List Fault) : String :=
  "invalid configuration: " ++ "; ".intercalate (faults.map (·.message))

def ConfigError.message : ConfigError → String
  | .absent => "invalid configuration: config is nil"
  | .invalid faults => Config.faultsMessage faults
  | .loaded faults => "invalid configuration: " ++ Config.faultsMessage faults
  | .unreachable cause => "failed to read config file: " ++ cause.message
  | .unreadable cause => "failed to read config file: While parsing config: " ++ cause.message
  | .mistyped misfits =>
    "failed to unmarshal config: decoding failed due to the following error(s):\n\n" ++
      "\n".intercalate (misfits.map (·.message))

def Config.validate (c : Config) : Except ConfigError Config :=
  if c.faults.isEmpty then .ok c else .error (.invalid c.faults)

end OverloadDocs
