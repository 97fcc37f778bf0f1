import OverloadDocs.Store.Version

/-!
The schema of the store and its versions. The tables come and go together with the one migration there
is; which versions have been applied is recorded in a table of its own.
-/

namespace OverloadDocs

/-- The version that the current schema has. -/
def currentSchemaVersion : String := "1.0.0"

/-- The tables of the schema, in byte order. -/
def schemaTables : List String :=
  ["files", "functions", "functions_fts", "projects", "schema_version"]

/-- A database as far as its schema goes: the recorded versions, or nothing before any migration. -/
structure Schema where
  recorded : Option (List String) := none
  deriving DecidableEq, Inhabited

namespace Schema

/-- What can go wrong with migrations. -/
inductive Fault where
  | invalidRecord (text : String) (fault : Version.Fault)
  | nothingToRollBack
  | unknownMigration (version : String)
  deriving DecidableEq

def Fault.message : Fault → String
  | .invalidRecord text fault => s!"invalid recorded schema version {text}: {fault.message}"
  | .nothingToRollBack => "no migrations to rollback"
  | .unknownMigration version => s!"migration {version} not found"

def tables (s : Schema) : List String := if s.recorded.isSome then schemaTables else []

/-- The highest of the recorded versions, read in byte order; the first of equal ones counts, and
nothing recorded is version zero. -/
def version (s : Schema) : Except Fault Version :=
  ((s.recorded.getD []).mergeSort (· ≤ ·)).foldlM
    (fun best text =>
      match Version.parse text with
      | .error fault => .error (.invalidRecord text fault)
      | .ok v => .ok (if v.compare best == .gt then v else best))
    {}

/-- The version of the one migration. -/
def migration : Version := { major := 1 }

/-- Applies the migration unless the recorded version has it. -/
def apply (s : Schema) : Except Fault Schema := do
  let current ← s.version
  if current.compare migration == .lt then
    return ⟨some (s.recorded.getD [] ++ [currentSchemaVersion])⟩
  return s

/-- Undoes the last migration, which removes all tables. -/
def rollback (s : Schema) : Except Fault Schema := do
  let current ← s.version
  if current.compare {} == .eq then throw .nothingToRollBack
  if current.compare migration == .eq then return {}
  throw (.unknownMigration current.render)

/-- Records a version directly, if there is a table for it and it is not there yet. -/
def record? (s : Schema) (version : String) : Option Schema :=
  s.recorded.bind fun versions =>
    if versions.contains version then none else some ⟨some (versions ++ [version])⟩

/-- Removes a recorded version, if there is a table for it. -/
def forget? (s : Schema) (version : String) : Option Schema :=
  s.recorded.map fun versions => ⟨some (versions.filter (· ≠ version))⟩

end Schema

end OverloadDocs
