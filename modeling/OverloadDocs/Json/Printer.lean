import OverloadDocs.Json.Basic
import OverloadDocs.Text.Fixed
import OverloadDocs.Text.Quoted

/-!
JSON text. Characters that mean something to markup are escaped along with the controls, and measured
numbers have six decimals. A value is written either compactly or with one member to a line.
-/

namespace OverloadDocs.Json

/-- One character inside a JSON string. -/
def escapedChar (c : Char) : List Char :=
  if c = '"' ∨ c = '\\' then ['\\', c]
  else if c = '\n' then ['\\', 'n']
  else if c = '\r' then ['\\', 'r']
  else if c = '\t' then ['\\', 't']
  else if c = '\x08' then ['\\', 'b']
  else if c = '\x0c' then ['\\', 'f']
  else if c.toNat < 0x20 ∨ c = '<' ∨ c = '>' ∨ c = '&' ∨ c = '\u2028' ∨ c = '\u2029' then
    '\\' :: 'u' :: Text.hexDigits 4 c.toNat
  else [c]

def quote (s : String) : String :=
  String.ofList ('"' :: s.toList.flatMap escapedChar ++ ['"'])

mutual

def compact : Json → String
  | .null => "null"
  | .bool b => if b then "true" else "false"
  | .int n => toString n
  | .float x => Text.fixed 6 x
  | .verbatim text => text
  | .str s => quote s
  | .arr items => "[" ++ ",".intercalate (compactItems items) ++ "]"
  | .obj members => "\x7b" ++ ",".intercalate (compactMembers members) ++ "\x7d"

def compactItems : List Json → List String
  | [] => []
  | j :: js => j.compact :: compactItems js

def compactMembers : List (String × Json) → List String
  | [] => []
  | (key, j) :: ms => (quote key ++ ":" ++ j.compact) :: compactMembers ms

end

/-- A line break followed by blanks for a depth of nesting. -/
def lineBreak (depth : Nat) : String :=
  String.ofList ('\n' :: List.replicate (2 * depth) ' ')

mutual

/-- The text of a value at a depth of nesting, with every item and member on a line of its own. -/
def indented (depth : Nat) : Json → String
  | .arr [] => "[]"
  | .arr items =>
    "[" ++ lineBreak (depth + 1) ++
      ("," ++ lineBreak (depth + 1)).intercalate (indentedItems (depth + 1) items) ++
      lineBreak depth ++ "]"
  | .obj [] => "\x7b\x7d"
  | .obj members =>
    "\x7b" ++ lineBreak (depth + 1) ++
      ("," ++ lineBreak (depth + 1)).intercalate (indentedMembers (depth + 1) members) ++
      lineBreak depth ++ "\x7d"
  | j => j.compact

def indentedItems (depth : Nat) : List Json → List String
  | [] => []
  | j :: js => j.indented depth :: indentedItems depth js

def indentedMembers (depth : Nat) : List (String × Json) → List String
  | [] => []
  | (key, j) :: ms => (quote key ++ ": " ++ j.indented depth) :: indentedMembers depth ms

end

end OverloadDocs.Json
