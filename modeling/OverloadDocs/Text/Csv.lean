/-!
Comma-separated texts. A field that begins with a quote reaches to its closing quote, may hold commas and
line breaks, and has its own quotes written twice. Only the first record of a text is read; empty lines
before it do not count.
-/

namespace OverloadDocs.Text.Csv

/-- What is wrong with a quote. -/
inductive QuoteFault where
  | bare
  | stray
  deriving DecidableEq

def QuoteFault.message : QuoteFault → String
  | .bare => "bare \" in non-quoted field"
  | .stray => "extraneous or missing \" in quoted-field"

/-- A place in a text: the line, and the byte in it, both counted from one. -/
structure Place where
  line : Nat
  column : Nat
  deriving DecidableEq

/-- Why a text has no first record. -/
inductive Error where
  | empty
  | quote (startLine : Nat) (place : Place) (fault : QuoteFault)
  deriving DecidableEq

def Error.message : Error → String
  | .empty => "EOF"
  | .quote startLine place fault =>
    (if startLine = place.line then "" else s!"record on line {startLine}; ") ++
      s!"parse error on line {place.line}, column {place.column}: {fault.message}"

/-- The place after some characters. A line break leads to the next line only if text follows it. -/
def Place.after (p : Place) (c : Char) (rest : List Char) : Place :=
  if c == '\n' && !rest.isEmpty then ⟨p.line + 1, 1⟩ else { p with column := p.column + c.utf8Size }

mutual

/-- Reads the fields from the beginning of one. -/
def fields (startLine : Nat) (p : Place) (cs : List Char) : Except Error (List (List Char)) :=
  match cs with
  | [] => .ok [[]]
  | '"' :: rest => quotedField startLine { p with column := p.column + 1 } [] rest
  | c :: rest => plainField startLine p [] (c :: rest)
termination_by (cs.length, 1)

/-- Reads on in a field without quotes, whose characters so far stand in reverse. -/
def plainField (startLine : Nat) (p : Place) (field cs : List Char) : Except Error (List (List Char)) :=
  match cs with
  | [] => .ok [field.reverse]
  | c :: rest =>
    if c = '\n' then .ok [field.reverse]
    else if c = '"' then .error (.quote startLine p .bare)
    else if c = ',' then
      (fields startLine { p with column := p.column + 1 } rest).map (field.reverse :: ·)
    else plainField startLine (p.after c rest) (c :: field) rest
termination_by (cs.length, 0)

/-- Reads on in a field with quotes, whose characters so far stand in reverse. -/
def quotedField (startLine : Nat) (p : Place) (field cs : List Char) : Except Error (List (List Char)) :=
  match cs with
  | [] => .error (.quote startLine p .stray)
  | '"' :: [] => .ok [field.reverse]
  | '"' :: c :: rest =>
    if c = '"' then quotedField startLine { p with column := p.column + 2 } ('"' :: field) rest
    else if c = ',' then
      (fields startLine { p with column := p.column + 2 } rest).map (field.reverse :: ·)
    else if c = '\n' then .ok [field.reverse]
    else .error (.quote startLine p .stray)
  | c :: rest => quotedField startLine (p.after c rest) (c :: field) rest
termination_by (cs.length, 0)

end

/-- Line breaks in their simple form, without a return at the end of the text. -/
def plainBreaks : List Char → List Char
  | [] => []
  | '\r' :: [] => []
  | '\r' :: '\n' :: cs => '\n' :: plainBreaks cs
  | c :: cs => c :: plainBreaks cs

/-- The first record, after empty lines that have been counted. -/
def recordFrom (line : Nat) : List Char → Except Error (List (List Char))
  | [] => .error .empty
  | '\n' :: cs => recordFrom (line + 1) cs
  | cs => fields line ⟨line, 1⟩ cs

def firstRecord (text : String) : Except Error (List String) :=
  (recordFrom 1 (plainBreaks text.toList)).map (·.map String.ofList)

end OverloadDocs.Text.Csv
