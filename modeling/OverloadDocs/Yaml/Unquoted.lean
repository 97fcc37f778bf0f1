import OverloadDocs.Yaml.Cursor

/-!
Unquoted scalars: words with gaps between them, which may go over line breaks as long as the words are
indented. A colon before a gap, a comment and, inside brackets, the marks of collections end them.
-/

namespace OverloadDocs.Yaml

def isFlowMark (c : Char) : Bool :=
  c == ',' || c == '?' || c == '[' || c == ']' || c == '\x7b' || c == '\x7d'

/-- The characters with which no unquoted scalar begins. -/
def isReserved (c : Char) : Bool :=
  ",[]\x7b\x7d#&*!|>'\"%@`".toList.contains c

/-- Whether an unquoted scalar can begin here. -/
def startsUnquoted (flow : Bool) (cs : List Char) : Bool :=
  match cs with
  | [] => false
  | c :: rest =>
    if c == '-' then !((rest.head?.map isBlank).getD false)
    else if c == '?' || c == ':' then !flow && !atGap rest
    else !isReserved c && !isGap c

def word (flow : Bool) : List Char → List Char
  | [] => []
  | c :: rest =>
    if isGap c || (c == ':' && atGap rest) || (flow && isFlowMark c) then [] else c :: word flow rest

/-- The line, from the given one on, where a tab stands in the indentation of a gap. -/
def tabLine? (indent line : Nat) (broken : Bool) (column : Nat) : List Char → Option Nat
  | [] => none
  | c :: rest =>
    if isBreak c then tabLine? indent (line + 1) true 0 rest
    else if broken && decide (column < indent) && c == '\t' then some line
    else tabLine? indent line broken (column + 1) rest

/-- Reads the words of a scalar that begins at the line `start`: its text, whether a line break precedes the
end, and the place after it. What has been read so far is in reverse. -/
def readWords (fuel start : Nat) (flow : Bool) (indent : Nat) (read : List Char) (gap : Gap) (c : Cursor) :
    Except YamlError (List Char × Bool × Cursor) :=
  match fuel with
  | 0 => .ok (read.reverse, gap.isBroken, c)
  | fuel + 1 =>
    let found := word flow c.rest
    if c.atDocumentMark || c.rest.head? == some '#' || found.isEmpty then .ok (read.reverse, gap.isBroken, c)
    else
      let read := found.reverse ++ (gap.fold.reverse ++ read)
      let c := c.skip found.length
      if !((c.rest.head?.map isGap).getD false) then .ok (read.reverse, false, c)
      else
        let (gap, after) := c.gap false
        match tabLine? indent c.line false c.column (c.ahead isGap) with
        | some line => .error (.ofCharacters start line .tabBeforeWord)
        | none =>
          if !flow && after.column < indent then .ok (read.reverse, gap.isBroken, after)
          else readWords fuel start flow indent read gap after

/-- Reads an unquoted scalar whose further lines are indented by at least `indent`. -/
def Cursor.unquoted (c : Cursor) (flow : Bool) (indent : Nat) : Except YamlError (String × Bool × Cursor) :=
  (readWords (c.left + 1) c.line flow indent [] ⟨false, [], []⟩ c).map fun (text, broken, c) =>
    (String.ofList text, broken, c)

end OverloadDocs.Yaml
