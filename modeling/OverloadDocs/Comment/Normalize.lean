import OverloadDocs.Comment.Field
import OverloadDocs.Documentation

/-!
From a comment to a documentation record. Both dialects give the same record. Fields that cannot be
used are dropped with a warning and never stop the rest.
-/

namespace OverloadDocs.Comment

open Text

def paragraphs (lines : List (List Char)) : List (List (List Char)) :=
  (lines.splitOnP (· == [])).filter (· ≠ [])

/-- Lines folded into text: a space joins lines and a blank line joins paragraphs. -/
def joinParagraphs (lines : List (List Char)) : List Char :=
  joinWith ['\n', '\n'] ((paragraphs lines).map (joinWith [' ']))

/-- The text of a bulleted line. -/
def bulletText? : List Char → Option (List Char)
  | mark :: c :: cs =>
    if (mark = '-' ∨ mark = '*' ∨ mark = '+') ∧ isPlainBlank c then some (cs.dropWhile isPlainBlank)
    else none
  | _ => none

/-- Closes the condition whose lines have been gathered, if there are any. -/
def closeCondition (gathered : List (List Char)) : List (List Char) :=
  if gathered = [] then [] else [joinWith [' '] gathered]

/-- The conditions of a value whose lines up to here have been gathered. Each bullet is a condition
and the lines after it join it; other text is one condition for each paragraph. -/
def conditionsFrom (gathered : List (List Char)) : List (List Char) → List (List Char)
  | [] => closeCondition gathered
  | line :: lines =>
    if line = [] then closeCondition gathered ++ conditionsFrom [] lines
    else match bulletText? line with
      | some text => closeCondition gathered ++ conditionsFrom [text] lines
      | none => conditionsFrom (gathered ++ [line]) lines

/-- The failure conditions that a value lists. -/
def conditions (lines : List (List Char)) : List (List Char) := conditionsFrom [] lines

/-- Why a field was dropped. -/
inductive WarningKind where
  | unknownField
  | unknownParameter
  | duplicateField
  deriving DecidableEq

/-- A dropped field: its marker, its line within the comment, and the key of the documented
function, empty when there is none. -/
structure Warning where
  kind : WarningKind
  field : String
  line : Nat
  function : String
  deriving DecidableEq

def WarningKind.message : WarningKind → String
  | .unknownField => "unknown documentation field"
  | .unknownParameter => "documented parameter not in signature"
  | .duplicateField => "duplicate documentation field"

def Warning.message (w : Warning) : String :=
  let report := s!"{w.kind.message} `{w.field}` on comment line {w.line}"
  if w.function = "" then report else report ++ " of " ++ w.function

/-- What becomes of one field: a larger record, or the reason why the field is dropped. The first
field for a parameter and for the return value wins. -/
def addField (signature : Option Signature) (doc : Documentation) (f : Field) :
    Except WarningKind Documentation :=
  match f.kind with
  | .param =>
    match signature.bind (·.paramIndex? f.arg) with
    | none => .error .unknownParameter
    | some i =>
      if (PositionTexts.get? doc.paramDocs i).isSome then .error .duplicateField
      else
        .ok { doc with
          paramDocs := PositionTexts.put i (String.ofList (joinParagraphs f.values)) doc.paramDocs }
  | .result =>
    if doc.returnDoc.isSome then .error .duplicateField
    else .ok { doc with returnDoc := some (String.ofList (joinParagraphs f.values)) }
  | .throws => .ok { doc with failures := doc.failures ++ (conditions f.values).map String.ofList }
  | .ignored => .ok doc
  | .unknown => .error .unknownField

/-- Takes fields into a record one after the other, and lists the warnings. -/
def addFields (signature : Option Signature) (doc : Documentation) :
    List Field → Documentation × List Warning
  | [] => (doc, [])
  | f :: fs =>
    match addField signature doc f with
    | .ok doc => addFields signature doc fs
    | .error kind =>
      let (doc, warnings) := addFields signature doc fs
      (doc, ⟨kind, f.label, f.line, (signature.map (·.key)).getD ""⟩ :: warnings)

/-- The record of a comment for a signature, and the warnings about its fields. -/
def normalize (raw : String) (signature : Option Signature) : Documentation × List Warning :=
  let lines := contentLines raw.toList
  let sections := Sections.ofLines (Dialect.ofLines lines) 1 (lines.map trim)
  addFields signature { summary := String.ofList (joinParagraphs sections.summary) } sections.fields

def dialect (raw : String) : Dialect := Dialect.ofLines (contentLines raw.toList)

end OverloadDocs.Comment
