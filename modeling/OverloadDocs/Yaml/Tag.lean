import OverloadDocs.Yaml.Quoted

/-!
Names of anchors, tags, and the directives before a document. A tag is a handle and the rest of a name;
the handles of a document stand for the beginnings of names.
-/

namespace OverloadDocs.Yaml

def isNameChar (c : Char) : Bool := c.isAlphanum || c == '_' || c == '-'

def isTagChar (c : Char) : Bool := isNameChar c || ";/?:@&=+$,.!~*'()[]%".toList.contains c

/-- Whether a name of an anchor may end before this text. -/
def endsName (cs : List Char) : Bool :=
  atGap cs || (cs.head?.map fun c => "?:,]\x7d%@`".toList.contains c).getD false

/-- Reads the name of an anchor after its mark. -/
def Cursor.name (c : Cursor) : Except YamlError (String × Cursor) :=
  let name := c.ahead isNameChar
  let c := c.skipWhile isNameChar
  if name.isEmpty || !endsName c.rest then c.refuse c.line .nameMissing else .ok (String.ofList name, c)

/-- How many bytes a character has whose first byte this is. -/
def byteCount? (byte : Nat) : Option Nat :=
  if byte < 0x80 then some 1
  else if 0xc0 ≤ byte ∧ byte < 0xe0 then some 2
  else if 0xe0 ≤ byte ∧ byte < 0xf0 then some 3
  else if 0xf0 ≤ byte ∧ byte < 0xf8 then some 4
  else none

/-- The byte that a percent sign and two hexadecimal digits spell at the front of a text. -/
def escapedByte? : List Char → Option (Nat × List Char)
  | '%' :: a :: b :: rest =>
    match Json.hexValue? a, Json.hexValue? b with
    | some x, some y => some (16 * x + y, rest)
    | _, _ => none
  | _ => none

/-- The further bytes of a character at the front of a text. -/
def furtherBytes : Nat → List Char → Except Problem (List Nat × List Char)
  | 0, cs => .ok ([], cs)
  | n + 1, cs =>
    match escapedByte? cs with
    | none => .error .octetMissing
    | some (byte, rest) =>
      if 0x80 ≤ byte ∧ byte < 0xc0 then
        (furtherBytes n rest).map fun (bytes, rest) => (byte :: bytes, rest)
      else .error .trailingOctet

/-- The rest of a tag without its escapes; an escaped byte is kept as the character of that number. -/
def unescapedTag (fuel : Nat) (cs : List Char) : Except Problem (List Char) :=
  match fuel, cs with
  | _, [] => .ok []
  | 0, _ => .ok []
  | fuel + 1, c :: rest =>
    if c ≠ '%' then (unescapedTag fuel rest).map (c :: ·)
    else
      match escapedByte? (c :: rest) with
      | none => .error .octetMissing
      | some (byte, rest) =>
        match byteCount? byte with
        | none => .error .leadingOctet
        | some n => do
          let (bytes, rest) ← furtherBytes (n - 1) rest
          return (byte :: bytes).map Char.ofNat ++ (← unescapedTag fuel rest)

/-- Reads the rest of a tag after what has been read of it. -/
def Cursor.tagRest (c : Cursor) (read : List Char) : Except YamlError (String × Cursor) :=
  let found := c.ahead isTagChar
  match unescapedTag found.length found with
  | .error problem => c.refuse c.line problem
  | .ok text => .ok (String.ofList (read ++ text), c.skip found.length)

/-- Reads the rest of a tag, of which there has to be something. -/
def Cursor.someTagRest (c : Cursor) : Except YamlError (String × Cursor) := do
  let (rest, after) ← c.tagRest []
  if rest = "" then after.refuse after.line .tagMissing else return (rest, after)

/-- A tag as it is written: a handle, and the rest of its name. Without a handle the rest is the whole
name. -/
structure Tag where
  handle : String
  rest : String
  deriving DecidableEq

/-- Reads a tag that gives the whole name, with its mark. -/
def Cursor.wholeTag (c : Cursor) : Except YamlError (Tag × Cursor) := do
  let (rest, after) ← (c.skip 2).someTagRest
  if after.rest.head? ≠ some '>' then after.refuse after.line .tagCloseMissing
  else return (⟨"", rest⟩, after.next)

/-- Reads a tag that may have a handle, with its mark. -/
def Cursor.shortTag (c : Cursor) : Except YamlError (Tag × Cursor) := do
  let name := c.next.ahead isNameChar
  let after := c.next.skip name.length
  if after.rest.head? == some '!' then
    let (rest, after) ← after.next.someTagRest
    return (⟨String.ofList ('!' :: name ++ ['!']), rest⟩, after)
  else
    let (rest, after) ← after.tagRest name
    return (if rest = "" then ⟨"", "!"⟩ else ⟨"!", rest⟩, after)

def Cursor.tag (c : Cursor) : Except YamlError (Tag × Cursor) := do
  let (tag, c) ← if c.rest[1]? == some '<' then c.wholeTag else c.shortTag
  if atGap c.rest then return (tag, c) else c.refuse c.line .gapMissing

/-- A directive before a document. -/
inductive Directive where
  | version (major minor : Nat)
  | handle (name stands : String)
  deriving DecidableEq

/-- Reads a number of one or two digits. -/
def Cursor.shortNumber (c : Cursor) : Except YamlError (Nat × Cursor) :=
  let digits := c.ahead Char.isDigit
  if 2 < digits.length then c.refuse c.line .versionTooLong
  else if digits.isEmpty then c.refuse c.line .versionMissing
  else .ok (Nat.ofDigitChars 10 digits 0, c.skip digits.length)

def Cursor.version (c : Cursor) : Except YamlError (Directive × Cursor) := do
  let (major, c) ← c.skipBlanks.shortNumber
  if c.rest.head? ≠ some '.' then c.refuse c.line .versionPointMissing
  else
    let (minor, c) ← c.next.shortNumber
    return (.version major minor, c)

/-- Reads a handle and what it stands for, after the name of the directive. -/
def Cursor.handle (c : Cursor) : Except YamlError (Directive × Cursor) := do
  let c := c.skipBlanks
  let name := c.next.ahead isNameChar
  let after := c.next.skip name.length
  let closed := after.rest.head? == some '!'
  if c.rest.head? ≠ some '!' || (!closed && !name.isEmpty) then c.refuse c.line .handleMarkMissing
  else
    let handle := '!' :: name ++ (if closed then ['!'] else [])
    let after := if closed then after.next else after
    if !(after.rest.head?.map isBlank).getD false then after.refuse after.line .blankMissing
    else
      let (stands, c) ← after.skipBlanks.someTagRest
      if atGap c.rest then return (.handle (String.ofList handle) stands, c)
      else c.refuse c.line .gapMissing

/-- Reads a directive, with its mark, up to the next line. -/
def Cursor.directive (c : Cursor) : Except YamlError (Directive × Cursor) := do
  let name := c.next.ahead isNameChar
  let c := c.next.skip name.length
  if name.isEmpty then c.refuse c.line .directiveMissing
  else if !atGap c.rest then c.refuse c.line .directiveRunsOn
  else
    let (directive, c) ←
      if name = "YAML".toList then c.version
      else if name = "TAG".toList then c.handle
      else c.refuse c.line .directiveUnknown
    return (directive, ← c.finishLine c.line)

def defaultHandles : List (String × String) := [("!", "!"), ("!!", "tag:yaml.org,2002:")]

/-- The short form of the name of a tag. -/
def shortName (name : String) : String :=
  let standard := "tag:yaml.org,2002:".toList
  let cs := name.toList
  if standard.isPrefixOf cs then "!!" ++ String.ofList (cs.drop standard.length) else name

/-- The short name of a tag under the handles of a document. -/
def Tag.resolve? (tag : Tag) (handles : List (String × String)) : Option String :=
  if tag.handle = "" then some (shortName tag.rest)
  else ((handles.find? (·.1 = tag.handle)).map (·.2)).bind fun stands =>
    if stands ++ tag.rest = "" then none else some (shortName (stands ++ tag.rest))

end OverloadDocs.Yaml
