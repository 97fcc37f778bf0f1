import OverloadDocs.Comment.Normalize
import OverloadDocs.Grammar
import OverloadDocs.Index
import OverloadDocs.Source.Scan

/-!
Builds: the documented functions of one source file, and of several files together. One bad
declaration does not stop the rest; it is recorded as an error and left out.
-/

namespace OverloadDocs

/-- Why a declaration was left out of a build. -/
inductive BuildError where
  | malformed (e : SyntaxError)
  | refused (e : RegisterError)
  deriving DecidableEq

def BuildError.message : BuildError → String
  | .malformed e => e.message
  | .refused e => e.message

/-- What a build remarks without leaving anything out. -/
inductive BuildWarning where
  | noSignatures (file : String)
  | comment (file : String) (line : Nat) (warning : Comment.Warning)
  deriving DecidableEq

def BuildWarning.message : BuildWarning → String
  | .noSignatures file => s!"{file}: no signatures found"
  | .comment file line warning => s!"{file}:{line}: {warning.message}"

/-- The outcome of documenting files: the functions in order, the declarations left out, and the
remarks. -/
structure BuildResult where
  functions : List Documented := []
  errors : List BuildError := []
  warnings : List BuildWarning := []
  deriving DecidableEq

/-- The outcome of documenting one file. -/
structure FileBuild where
  file : String
  index : Index := {}
  result : BuildResult := {}

/-- A declaration whose text is a signature. -/
structure ParsedDeclaration where
  raw : Source.Declaration
  signature : Signature

namespace FileBuild

/-- Reads declarations in source order: those that are signatures, and the errors of the others. -/
def parseAll (reader : DeclarationReader) :
    List Source.Declaration → List ParsedDeclaration × List SyntaxError
  | [] => ([], [])
  | raw :: raws =>
    match reader.read raw.text raw.line with
    | (.error e, reader) =>
      let (parsed, errors) := parseAll reader raws
      (parsed, e :: errors)
    | (.ok s, reader) =>
      let (parsed, errors) := parseAll reader raws
      (⟨raw, { s with source := { s.source with endLine := raw.endLine } }⟩ :: parsed, errors)

/-- Whether the overload with that key has a definition among the declarations. -/
def defines (parsed : List ParsedDeclaration) (key : String) : Bool :=
  parsed.any fun d => !d.raw.forward && d.signature.key = key

/-- A build in progress: what it has so far, the anchor supply, and the comments of the forward
declarations that a definition replaces, by key. -/
structure Progress where
  build : FileBuild
  supply : Anchors
  forwardComments : List (String × String) := []

/-- Takes in one declaration. A forward declaration whose overload is defined in the file only lends
its comment, which serves a definition without one. -/
def Progress.add (all : List ParsedDeclaration) (p : Progress) (d : ParsedDeclaration) : Progress :=
  let key := d.signature.key
  let lent := p.forwardComments.find? (·.1 = key)
  if d.raw.forward && defines all key then
    if lent.isNone ∧ d.raw.comment ≠ "" then
      { p with forwardComments := p.forwardComments ++ [(key, d.raw.comment)] }
    else p
  else
    let comment := if d.raw.comment = "" then (lent.map (·.2)).getD "" else d.raw.comment
    let (doc, warnings) := Comment.normalize comment (some d.signature)
    let s := { d.signature with order := p.build.index.size }
    let result := p.build.result
    match p.build.index.register p.supply (some s) doc with
    | .error e =>
      { p with build := { p.build with result :=
        { result with errors := result.errors ++ [.refused e] } } }
    | .ok (index, supply) =>
      { p with
        supply := supply
        build := { p.build with
          index := index
          result := { result with
            functions := index.entries
            warnings := result.warnings ++
              warnings.map (BuildWarning.comment p.build.file d.raw.line) } } }

def ofSource (supply : Anchors) (file source : String) : FileBuild × Anchors :=
  match Source.declarations source with
  | [] => ({ file := file, result := { warnings := [.noSignatures file] } }, supply)
  | raws =>
    let (parsed, errors) := parseAll { file := file } raws
    let start : Progress :=
      { build := { file := file, result := { errors := errors.map .malformed } }, supply := supply }
    let done := parsed.foldl (Progress.add parsed) start
    (done.build, done.supply)

/-- Joins file builds in order. The errors and warnings of the files come first, then an error for
every definition of an overload that an earlier file has. -/
def merge (supply : Anchors) (builds : List FileBuild) : Index × BuildResult × Anchors :=
  let m := Index.merge supply (builds.map (·.index))
  let result : BuildResult :=
    { functions := m.index.entries
      errors := builds.flatMap (·.result.errors) ++ m.errors.map .refused
      warnings := builds.flatMap (·.result.warnings) }
  (m.index, result, m.supply)

/-- Joins those of the file builds that are there. -/
def mergePresent (supply : Anchors) (builds : List (Option FileBuild)) : Index × BuildResult × Anchors :=
  merge supply (builds.filterMap id)

end FileBuild

end OverloadDocs
