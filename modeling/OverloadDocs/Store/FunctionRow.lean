import OverloadDocs.Documentation
import OverloadDocs.Grammar
import OverloadDocs.Json.Parser
import OverloadDocs.Json.Printer

/-!
Stored functions. A row keeps the text of the signature and the documentation as JSON text, and reading
a row back parses both.
-/

namespace OverloadDocs

/-- A stored function. The path of its file is filled in when the row is read together with the file. -/
structure FunctionRow where
  id : Int := 0
  fileId : Int := 0
  name : String := ""
  signature : String := ""
  key : String := ""
  order : Int := 0
  startLine : Int := 0
  endLine : Int := 0
  anchor : String := ""
  summary : String := ""
  docJson : String := ""
  filePath : String := ""
  deriving DecidableEq, Inhabited

namespace Documentation

/-- The members for the parameter texts, whose positions are ordered as texts. -/
def paramMembers (m : PositionTexts) : List (String × Json) :=
  (m.map fun (i, text) => (toString i, Json.str text)).mergeSort fun a b => a.1 ≤ b.1

/-- The stored form of a record. What is empty is left out. -/
def toJson (d : Documentation) : Json :=
  .obj (
    Json.textMember "summary" d.summary ++
    (if d.paramDocs.isEmpty then [] else [("param_docs", .obj (paramMembers d.paramDocs))]) ++
    Json.optionMember "return_doc" d.returnDoc ++
    Json.listMember "failure_conditions" (d.failures.map .str))

/-- A letter as it counts in the name of a member: case does not matter. -/
def foldedLetter (c : Char) : Char :=
  if c = '\u017f' then 's' else if c = '\u212a' then 'k' else c.toLower

/-- The name of a member with its case folded. -/
def foldedKey (key : String) : String := String.ofList (key.toList.map foldedLetter)

/-- A text, or nothing where null stands for it. -/
def text? : Json → Option (Option String)
  | .null => some none
  | .str s => some (some s)
  | _ => none

/-- The number that a position is written as: digits after an optional sign, within 64 bits. -/
def position? (key : String) : Option Int :=
  let (negative, digits) := match key.toList with
    | '-' :: cs => (true, cs)
    | '+' :: cs => (false, cs)
    | cs => (false, cs)
  if digits.isEmpty || !digits.all Char.isDigit then none
  else
    let n : Int := Nat.ofDigitChars 10 digits 0
    let n := if negative then -n else n
    if -(Nat.pow 2 63 : Nat) ≤ n ∧ n < (Nat.pow 2 63 : Nat) then some n else none

/-- Takes parameter texts into those already read. -/
def addParamTexts (m : PositionTexts) : List (String × Json) → Option PositionTexts
  | [] => some m
  | (key, value) :: rest => do
    let i ← position? key
    let text ← text? value
    addParamTexts (PositionTexts.put i (text.getD "") m) rest

/-- The texts of a list over those of earlier lists, where null leaves the text that was there, and is
empty where there was none. -/
def textsOver (earlier : List String) : List Json → Option (List String)
  | [] => some []
  | item :: items => do
    let text ← text? item
    return text.getD (earlier.headD "") :: (← textsOver (earlier.drop 1) items)

/-- A record that is read from its stored form, with the failure texts of all lists read so far: a list
is written over those before it, and a shorter one leaves the texts behind its end in place. -/
structure Draft where
  doc : Documentation := {}
  texts : List String := []

/-- Takes a list of failure texts into a draft. The empty list clears what was there. -/
def Draft.addFailures (d : Draft) (items : List Json) : Option Draft := do
  let failures ← textsOver d.texts items
  return { doc := { d.doc with failures := failures }
           texts := if items.isEmpty then [] else failures ++ d.texts.drop failures.length }

/-- Takes one member of the stored form into a draft. Names are compared without regard to case,
unknown members are skipped, and null stands for absence. -/
def Draft.add (d : Draft) (key : String) (value : Json) : Option Draft :=
  match foldedKey key with
  | "summary" => do
    let text ← text? value
    return { d with doc.summary := text.getD d.doc.summary }
  | "param_docs" =>
    match value with
    | .null => some { d with doc.paramDocs := [] }
    | .obj members => do return { d with doc.paramDocs := ← addParamTexts d.doc.paramDocs members }
    | _ => none
  | "return_doc" => do return { d with doc.returnDoc := ← text? value }
  | "failure_conditions" =>
    match value with
    | .null => d.addFailures []
    | .arr items => d.addFailures items
    | _ => none
  | _ => some d

/-- Takes the members of the stored form into a draft. -/
def Draft.addAll (d : Draft) : List (String × Json) → Option Draft
  | [] => some d
  | (key, value) :: rest => do
    let d ← d.add key value
    d.addAll rest

def ofJson? : Json → Option Documentation
  | .null => some {}
  | .obj members => (Draft.addAll {} members).map (·.doc)
  | _ => none

/-- The record of a stored text; the empty text is the empty record. -/
def ofText? (text : String) : Option Documentation :=
  if text = "" then some {} else (Json.parse? text).bind ofJson?

end Documentation

/-- Why a row could not be read back. -/
inductive RowError where
  | signature (text : String) (cause : SyntaxError)
  | documentation (key : String)
  deriving DecidableEq

def RowError.message : RowError → String
  | .signature text cause => s!"stored signature {Text.quoted text}: {cause.message}"
  | .documentation key => s!"stored documentation for {key}"

namespace FunctionRow

def ofDocumented (f : Documented) (fileId : Int) : FunctionRow where
  fileId := fileId
  name := f.signature.name
  signature := f.signature.render
  key := f.signature.key
  order := f.signature.order
  startLine := f.signature.source.line
  endLine := f.signature.source.endLine
  anchor := f.signature.anchor
  summary := f.doc.summary
  docJson := f.doc.toJson.compact

/-- The row of a function of a file that may be without documentation. -/
def ofFunction (s : Signature) (doc : Option Documentation) (fileId : Int) : FunctionRow :=
  ofDocumented ⟨s, doc.getD {}⟩ fileId

def toDocumented (row : FunctionRow) : Except RowError Documented := do
  match Signature.parse row.signature row.order with
  | .error cause => .error (.signature row.signature cause)
  | .ok s =>
    match Documentation.ofText? row.docJson with
    | none => .error (.documentation row.key)
    | some doc =>
      let source : Location := ⟨row.filePath, row.startLine, row.endLine⟩
      return ⟨{ s with source := source, anchor := row.anchor }, doc⟩

end FunctionRow

end OverloadDocs
