import OverloadDocs.Json.Parser
import OverloadDocs.Yaml.Cursor

/-!
Quoted scalars. Between single quotes only a doubled quote means something else than itself; between
double quotes a backslash escapes. Line breaks inside are folded, and no document may begin or end
inside. The fuel bounds the number of steps and is never short when it is the length of the text.
-/

namespace OverloadDocs.Yaml

/-- The character that a backslash and this letter stand for. -/
def escapedLetter? : Char → Option Char
  | '0' => some '\x00'
  | 'a' => some '\x07'
  | 'b' => some '\x08'
  | 't' => some '\t'
  | '\t' => some '\t'
  | 'n' => some '\n'
  | 'v' => some '\x0b'
  | 'f' => some '\x0c'
  | 'r' => some '\r'
  | 'e' => some '\x1b'
  | ' ' => some ' '
  | '"' => some '"'
  | '\'' => some '\''
  | '\\' => some '\\'
  | 'N' => some '\u0085'
  | '_' => some '\u00a0'
  | 'L' => some '\u2028'
  | 'P' => some '\u2029'
  | _ => none

/-- How many hexadecimal digits follow a backslash and this letter. -/
def escapeWidth? : Char → Option Nat
  | 'x' => some 2
  | 'u' => some 4
  | 'U' => some 8
  | _ => none

/-- The character of a number, which no half of a surrogate pair has. -/
def scalar? (n : Nat) : Option Char := if h : n.isValidChar then some (Char.ofNatAux n h) else none

def hexChar (digits : List Char) : Except Problem Char :=
  match digits.mapM Json.hexValue? with
  | none => .error .escapeDigitsMissing
  | some values =>
    match scalar? (values.foldl (fun n d => 16 * n + d) 0) with
    | none => .error .escapeInvalid
    | some c => .ok c

/-- The character that an escape stands for, and how many characters it is written with. -/
def escape (letter : Char) (rest : List Char) : Except Problem (Char × Nat) :=
  match escapeWidth? letter, escapedLetter? letter with
  | some width, _ =>
    if rest.length < width then .error .escapeDigitsMissing
    else (hexChar (rest.take width)).map fun c => (c, width + 2)
  | none, some c => .ok (c, 2)
  | none, none => .error .escapeUnknown

/-- Reads a scalar after its opening quote, which stands at the line `start`. What has been read so far is in
reverse. -/
def readQuoted (fuel start : Nat) (double : Bool) (read : List Char) (c : Cursor) :
    Except YamlError (List Char × Cursor) :=
  match fuel, c.rest with
  | _, [] => c.refuse start .endInside
  | 0, _ => c.refuse start .endInside
  | fuel + 1, x :: rest =>
    let overGap (escaped : Bool) (c : Cursor) :=
      let (gap, c) := c.gap escaped
      if c.atDocumentMark then c.refuse start .documentInside
      else readQuoted fuel start double (gap.fold.reverse ++ read) c
    if isGap x then overGap false c
    else if double then
      if x == '"' then .ok (read.reverse, c.next)
      else if x == '\\' then
        match rest with
        | [] => c.refuse start .escapeUnknown
        | y :: rest =>
          if isBreak y then overGap true (c.skip 2)
          else match escape y rest with
            | .error problem => c.refuse start problem
            | .ok (z, width) => readQuoted fuel start double (z :: read) (c.skip width)
      else readQuoted fuel start double (x :: read) c.next
    else if x == '\'' then
      if rest.head? == some '\'' then readQuoted fuel start double ('\'' :: read) (c.skip 2)
      else .ok (read.reverse, c.next)
    else readQuoted fuel start double (x :: read) c.next

def Cursor.quoted (c : Cursor) : Except YamlError (String × Cursor) :=
  (readQuoted c.left c.line (c.rest.head? == some '"') [] c.next).map fun (text, c) =>
    (String.ofList text, c)

end OverloadDocs.Yaml
