import OverloadDocs.Source.Declaration
import OverloadDocs.Source.Lexical

/-!
Function declarations out of source text. The text is scanned once from the front; a statement grows
until a semicolon or a brace ends it, and a comment is kept for the statement that comes next. Only
declarations outside all blocks or directly inside a block of functions are taken, and the bodies of
functions are skipped.
-/

namespace OverloadDocs.Source

open Text

/-- The statement being read: its text in reverse, the line it starts on, and the comment it was
given. -/
structure Statement where
  reversed : List Char
  line : Nat
  comment : String

/-- A comment that waits for the next statement: its parts in reverse, and the line on which the last
of them ended. -/
structure Pending where
  reversed : List (List Char)
  line : Nat

/-- What the scanner knows: the current line, the declarations found so far in reverse, the headers of
the open blocks, the statement being read, the waiting comment, and the last line that holds code, zero
before any. -/
structure Scanner where
  line : Nat := 1
  found : List Declaration := []
  blocks : List (List Char) := []
  statement : Option Statement := none
  pending : Option Pending := none
  codeLine : Nat := 0

namespace Scanner

/-- The header of the block that holds functions. -/
def functionsHeader : List Char := "functions".toList

/-- The word that begins an inclusion. -/
def inclusion : List Char := "#include".toList

/-- Whether declarations are taken here. -/
def inFunctionScope (s : Scanner) : Bool :=
  match s.blocks with
  | [] => true
  | header :: _ => header == functionsHeader

def pendingText (s : Scanner) : String :=
  match s.pending with
  | none => ""
  | some p => String.ofList (joinWith ['\n'] p.reversed.reverse)

/-- Adds code to the statement. The first code of a statement takes the waiting comment. -/
def addCode (s : Scanner) (cs : List Char) : Scanner :=
  match s.statement with
  | some t => { s with statement := some { t with reversed := cs.reverse ++ t.reversed } }
  | none => { s with statement := some ⟨cs.reverse, s.line, s.pendingText⟩, pending := none }

/-- Adds a space to the statement, if there is one. -/
def addSpace (s : Scanner) : Scanner :=
  match s.statement with
  | some t => { s with statement := some { t with reversed := ' ' :: t.reversed } }
  | none => s

/-- Notes that the current line holds code. -/
def markCode (s : Scanner) : Scanner := { s with codeLine := s.line }

def dropPending (s : Scanner) : Scanner := { s with pending := none }

/-- Keeps a comment that started on a line. One that started on a line with code belongs to that code
and is dropped; a line comment right below the waiting comment continues it. -/
def addComment (s : Scanner) (body : List Char) (lineComment : Bool) (start : Nat) : Scanner :=
  if s.codeLine > 0 ∧ start = s.codeLine then s.dropPending
  else
    let fresh : Pending := ⟨[body], s.line⟩
    match s.pending with
    | some p =>
      if lineComment ∧ s.line - p.line ≤ 1 then
        { s with pending := some ⟨body :: p.reversed, s.line⟩ }
      else { s with pending := some fresh }
    | none => { s with pending := some fresh }

/-- A line of a block comment without its margin: blanks, one star, one space. -/
def withoutMargin (line : List Char) : List Char :=
  match line.dropWhile (fun c => c == ' ' || c == '\t' || c == '\r') with
  | '*' :: ' ' :: cs => cs
  | '*' :: cs => cs
  | cs => cs

/-- The content of a block comment. The second star of an opening is dropped. -/
def blockContent (body : List Char) : List Char :=
  let body := match body with
    | '*' :: cs => cs
    | cs => cs
  trim (joinWith ['\n'] ((body.splitOn '\n').map withoutMargin))

/-- The content of a line comment, without blanks at its end and one space at its start. -/
def lineContent (body : List Char) : List Char :=
  match dropEndWhile (fun c => c == ' ' || c == '\t' || c == '\r') body with
  | ' ' :: cs => cs
  | cs => cs

/-- Takes a block comment; inside a statement it counts as a space. -/
def takeBlockComment (s : Scanner) (body : List Char) : Scanner :=
  let after := { s with line := s.line + newlines body }
  match s.statement with
  | some _ => after.addSpace
  | none => after.addComment (blockContent body) false s.line

/-- Takes a line comment; inside a statement it does not count. -/
def takeLineComment (s : Scanner) (body : List Char) : Scanner :=
  match s.statement with
  | some _ => s
  | none => s.addComment (lineContent body) true s.line

def statementText (s : Scanner) : List Char :=
  match s.statement with
  | none => []
  | some t => foldBlanks t.reversed.reverse

/-- Ends the statement. If it is a declaration that is taken here, records it. -/
def endStatement (s : Scanner) (forward : Bool) : Scanner × Bool :=
  match s.statement with
  | none => (s, false)
  | some t =>
    if s.inFunctionScope && looksLikeDeclaration s.statementText then
      let d : Declaration := ⟨String.ofList s.statementText, t.comment, t.line, s.line, forward⟩
      ({ s with statement := none, found := d :: s.found }, true)
    else ({ s with statement := none }, false)

/-- Takes an opening brace, given the text after it: after a declaration the body is skipped,
otherwise a block is opened. -/
def openBrace (s : Scanner) (rest : List Char) : Scanner × List Char :=
  match s.endStatement false with
  | (ended, true) =>
    let body := skipBody 0 s.line rest
    ({ ended with line := body.2, pending := none }.markCode, body.1)
  | (ended, false) => ({ ended with blocks := s.statementText :: s.blocks }.markCode, rest)

def closeBrace (s : Scanner) : Scanner :=
  { s with blocks := s.blocks.tail, statement := none, pending := none }.markCode

/-- Takes a string literal as code. -/
def takeLiteral (s : Scanner) (l : Literal) : Scanner :=
  let s := s.addCode ('"' :: l.text)
  { s with line := s.line + l.lines }.markCode

/-- Takes the next character, and whatever belongs to it, off the text. -/
def advance (s : Scanner) (c : Char) (cs : List Char) : Scanner × List Char :=
  if c = '\n' then ({ s with line := s.line + 1 }.addSpace, cs)
  else if c = ' ' ∨ c = '\t' ∨ c = '\r' ∨ c = '\x0c' ∨ c = '\x0b' then (s.addSpace, cs)
  else if c = '/' ∧ cs.head? = some '*' then
    (s.takeBlockComment (blockBody cs.tail).1, (blockBody cs.tail).2)
  else if c = '/' ∧ cs.head? = some '/' then
    (s.takeLineComment (lineBody cs.tail).1, (lineBody cs.tail).2)
  else if c = '#' ∧ s.statement.isNone then
    if inclusion.isPrefixOf (c :: cs) then (s.dropPending.markCode, (lineBody cs).2)
    else (s.takeLineComment (lineBody cs).1, (lineBody cs).2)
  else if c = '"' then
    (s.takeLiteral (Literal.read cs), (Literal.read cs).rest)
  else if c = '{' then s.openBrace cs
  else if c = '}' then (s.closeBrace, cs)
  else if c = ';' then ((s.endStatement true).1.markCode, cs)
  else ((s.addCode [c]).markCode, cs)

theorem advance_rest_length (s : Scanner) (c : Char) (cs : List Char) :
    (s.advance c cs).2.length ≤ cs.length := by
  have htail : cs.tail.length ≤ cs.length := by simp
  have hblock := blockBody_rest_length cs.tail
  have hline := lineBody_rest_length cs
  have hlineTail := lineBody_rest_length cs.tail
  have hliteral := Literal.read_rest_length cs
  have hbody := skipBody_rest_length 0 s.line cs
  have hbrace : (s.openBrace cs).2.length ≤ cs.length := by
    unfold openBrace
    split
    · exact hbody
    · exact Nat.le_refl _
  unfold advance
  repeat' split
  all_goals first | exact Nat.le_refl _ | assumption | exact Nat.le_trans (by assumption) htail

def run (s : Scanner) : List Char → Scanner
  | [] => s
  | c :: cs =>
    let next := s.advance c cs
    next.1.run next.2
termination_by cs => cs.length
decreasing_by exact Nat.lt_succ_of_le (advance_rest_length s c cs)

end Scanner

/-- The function declarations of a source text, in source order. -/
def declarations (source : String) : List Declaration :=
  (Scanner.run {} source.toList).found.reverse

end OverloadDocs.Source
