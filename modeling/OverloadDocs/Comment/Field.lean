import OverloadDocs.Comment.Lines
import OverloadDocs.Text.Identifier

/-!
Fields of a comment. Two dialects mark them: colons around the field name, or a leading at sign.
The lines before the first field are the summary, and a field's value runs to the next field.
-/

namespace OverloadDocs.Comment

open Text

/-- How a comment marks its fields. -/
inductive Dialect where
  | fieldList
  | braceTag
  deriving DecidableEq

def Dialect.name : Dialect → String
  | .fieldList => "field-list"
  | .braceTag => "brace-tag"

/-- Any line that starts with an at sign selects the brace tags; all else is a field list. -/
def Dialect.ofLines (lines : List (List Char)) : Dialect :=
  if lines.any (fun line => (trim line).head? == some '@') then .braceTag else .fieldList

/-- What a field describes. Types are given by the signature, so fields for them are ignored. -/
inductive FieldKind where
  | param
  | result
  | throws
  | ignored
  | unknown
  deriving DecidableEq

/-- The kind that a field name stands for, whatever its case. -/
def FieldKind.ofName (name : List Char) : FieldKind :=
  match String.ofList (name.map Char.toLower) with
  | "param" | "parameter" | "arg" => .param
  | "return" | "returns" => .result
  | "throws" | "raises" | "throw" => .throws
  | "type" | "paramtype" | "rtype" => .ignored
  | _ => .unknown

/-- A marked field: its kind, its marker as written, the parameter it names, its line within the
comment counted from one, and the lines of its value. -/
structure Field where
  kind : FieldKind
  label : String
  arg : String
  line : Nat
  values : List (List Char)

/-- The name, arguments and text of a line in the field-list dialect: a colon, the name, arguments
set off by blanks, a colon, the text. -/
def splitFieldList : List Char → Option (List Char × List Char × List Char)
  | ':' :: cs =>
    let name := cs.takeWhile isIdentPart
    let after := cs.dropWhile isIdentPart
    let args := after.takeWhile (· ≠ ':')
    match after.dropWhile (· ≠ ':') with
    | _ :: text =>
      if name ≠ [] ∧ args.head?.all isPlainBlank then some (name, args, text) else none
    | [] => none
  | _ => none

/-- The name, arguments and text of a line in the brace-tag dialect: an at sign, the name, and the
text set off by blanks, whose first word is the argument of a parameter tag. -/
def splitBraceTag : List Char → Option (List Char × List Char × List Char)
  | '@' :: cs =>
    let name := cs.takeWhile isIdentPart
    let after := cs.dropWhile isIdentPart
    if name ≠ [] ∧ after.head?.all isPlainBlank then
      let text := trim after
      if FieldKind.ofName name = .param then
        let arg := text.takeWhile (!isBlank ·)
        some (name, arg, text.drop arg.length)
      else some (name, [], text)
    else none
  | _ => none

/-- The marker of a field line, as warnings show it. -/
def fieldLabel (dialect : Dialect) (line : List Char) : List Char :=
  match dialect, line with
  | .braceTag, c :: cs => c :: cs.takeWhile (fun c => c ≠ ' ' ∧ c ≠ '\t')
  | .fieldList, c :: cs => c :: cs.takeWhile (· ≠ ':') ++ [':']
  | _, [] => []

/-- The field that a trimmed line opens, if it opens one. The last of several arguments is the
parameter's name. -/
def Field.ofLine? (dialect : Dialect) (number : Nat) (line : List Char) : Option Field :=
  let parts := match dialect with
    | .fieldList => splitFieldList line
    | .braceTag => splitBraceTag line
  parts.map fun (name, args, text) =>
    { kind := FieldKind.ofName name
      label := String.ofList (fieldLabel dialect line)
      arg := String.ofList ((words args).getLast?.getD [])
      line := number
      values := if trim text = [] then [] else [trim text] }

/-- The summary lines and the fields of a comment. -/
structure Sections where
  summary : List (List Char) := []
  fields : List Field := []

/-- Cuts trimmed lines, the first of which has the given number, into sections. -/
def Sections.ofLines (dialect : Dialect) : Nat → List (List Char) → Sections
  | _, [] => {}
  | number, line :: lines =>
    let later := Sections.ofLines dialect (number + 1) lines
    match Field.ofLine? dialect number line with
    | some field =>
      { summary := [], fields := { field with values := field.values ++ later.summary } :: later.fields }
    | none => { later with summary := line :: later.summary }

end OverloadDocs.Comment
