import OverloadDocs.Yaml.Error

/-!
Places in a text that is read. Lines may end with a line feed, a next-line character, or a line or
paragraph separator; other ends of lines are turned into line feeds before.
-/

namespace OverloadDocs.Yaml

def isBlank (c : Char) : Bool := c == ' ' || c == '\t'

def isBreak (c : Char) : Bool :=
  c == '\n' || c == '\r' || c == '\u0085' || c == '\u2028' || c == '\u2029'

/-- A line break as it is kept in a text: separators stay, every other one is a line feed. -/
def keptBreak (c : Char) : Char := if c == '\u2028' || c == '\u2029' then c else '\n'

def atLineEnd : List Char → Bool
  | [] => true
  | c :: _ => isBreak c

def atGap : List Char → Bool
  | [] => true
  | c :: _ => isBlank c || isBreak c

/-- A place in a text: what follows it, how many characters the text has, how many characters and lines
precede the place, how many characters precede it in its line, and whether its line has held nothing but
blanks so far. -/
structure Cursor where
  rest : List Char
  size : Nat
  index : Nat := 0
  line : Nat := 0
  column : Nat := 0
  fresh : Bool := false

namespace Cursor

def start (cs : List Char) : Cursor := { rest := cs, size := cs.length }

/-- How many characters follow a place. -/
def left (c : Cursor) : Nat := c.size - c.index

def next (c : Cursor) : Cursor :=
  match c.rest with
  | [] => c
  | x :: rest =>
    if isBreak x then { c with rest, index := c.index + 1, line := c.line + 1, column := 0, fresh := true }
    else { c with rest, index := c.index + 1, column := c.column + 1, fresh := c.fresh && isBlank x }

/-- The place after a number of characters. -/
def skip (c : Cursor) : Nat → Cursor
  | 0 => c
  | n + 1 => c.next.skip n

/-- The characters ahead that are of a kind. -/
def ahead (c : Cursor) (p : Char → Bool) : List Char := c.rest.takeWhile p

/-- The place after the characters ahead that are of a kind. -/
def skipWhile (c : Cursor) (p : Char → Bool) : Cursor := c.skip (c.ahead p).length

def skipLine (c : Cursor) : Cursor := c.skipWhile (!isBreak ·)

def skipBlanks (c : Cursor) : Cursor := c.skipWhile isBlank

/-- Whether a mark that separates documents stands here. -/
def atMark (c : Cursor) (mark : Char) : Bool :=
  c.column == 0 && (match c.rest with
    | x :: y :: z :: rest => x == mark && y == mark && z == mark && atGap rest
    | _ => false)

/-- Whether a document begins or ends here. -/
def atDocumentMark (c : Cursor) : Bool := c.atMark '-' || c.atMark '.'

/-- Breaks off at a place while something is read that begins at a line. -/
def refuse {α : Type} (c : Cursor) (start : Nat) (problem : Problem) : Except YamlError α :=
  .error (.ofCharacters start c.line problem)

/-- The place at the end of a line that holds nothing more than blanks and a comment, and after its
break. -/
def finishLine (c : Cursor) (start : Nat) : Except YamlError Cursor :=
  let c := c.skipBlanks
  let c := if c.rest.head? == some '#' then c.skipLine else c
  if atLineEnd c.rest then .ok c.next else c.refuse start .lineEndMissing

end Cursor

/-- The blanks and line breaks between two words of a scalar. A break is `escaped` when a backslash
stands before it. -/
structure Gap where
  escaped : Bool
  blanks : List Char
  breaks : List Char

namespace Gap

/-- The gap that characters are. -/
def of (escaped : Bool) (cs : List Char) : Gap :=
  ⟨escaped, cs.takeWhile isBlank, (cs.filter isBreak).map keptBreak⟩

/-- Whether a gap goes over a line break. -/
def isBroken (g : Gap) : Bool := g.escaped || !g.breaks.isEmpty

/-- What a gap stands for: blanks as they are; a single line break is a blank, of several all but the
first stay. Separators always stay, and an escaped break stands for nothing. -/
def fold (g : Gap) : List Char :=
  match g.escaped, g.breaks with
  | true, breaks => breaks
  | false, [] => g.blanks
  | false, ['\n'] => [' ']
  | false, '\n' :: breaks => breaks
  | false, breaks => breaks

end Gap

def isGap (c : Char) : Bool := isBlank c || isBreak c

/-- The gap ahead, and the place after it. -/
def Cursor.gap (c : Cursor) (escaped : Bool) : Gap × Cursor :=
  (Gap.of escaped (c.ahead isGap), c.skipWhile isGap)

end OverloadDocs.Yaml
