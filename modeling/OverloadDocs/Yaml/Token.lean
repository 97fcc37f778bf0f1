import OverloadDocs.Yaml.Block
import OverloadDocs.Yaml.Tag
import OverloadDocs.Yaml.Unquoted

/-!
The tokens of a text, which are read as they are needed. Indentation becomes marks for the begin and end of
blocks, and a key is known for one only at the colon after it, so that its marks are put before tokens that
have been read already. A key without a mark of its own has to end on its line and within 1024 characters.
-/

namespace OverloadDocs.Yaml

/-- A token. A scalar is `plain` when it is neither quoted nor a block. -/
inductive Token where
  | streamEnd
  | directive (d : Directive)
  | documentStart
  | documentEnd
  | blockSequenceStart
  | blockMappingStart
  | blockEnd
  | sequenceStart
  | sequenceEnd
  | mappingStart
  | mappingEnd
  | blockEntry
  | flowEntry
  | key
  | value
  | aliasOf (name : String)
  | anchor (name : String)
  | tag (t : Tag)
  | scalar (text : String) (plain : Bool)
  deriving DecidableEq

/-- Whether a token stands before the content of a document. -/
def Token.opensDocument : Token → Bool
  | .directive _ => true
  | .documentStart => true
  | _ => false

/-- A token and the line where it begins. -/
structure PlacedToken where
  token : Token
  line : Nat

/-- A token that a colon would make a key: how many tokens precede it, where it stands, and whether
nothing but a key may stand there. -/
structure PossibleKey where
  place : Nat
  index : Nat
  line : Nat
  column : Nat
  required : Bool

/-- How far a key may be from its colon. -/
def keyReach : Nat := 1024

/-- Whether a colon at a place would still make a key. -/
def PossibleKey.reaches (k : PossibleKey) (c : Cursor) : Bool :=
  k.line == c.line && c.index ≤ k.index + keyReach

/-- How deep collections may be nested. -/
def maxDepth : Nat := 10000

/-- A text that has been read up to a place: how many of the tokens before it have been taken, the others, the
indentation of the block there and of the blocks around it, for each bracket that is open the token that may
be a key inside it, and whether a key may begin here. Outside all blocks the indentation is minus one. -/
structure Reading where
  cursor : Cursor
  taken : Nat := 0
  tokens : Array PlacedToken := #[]
  indent : Int := -1
  outer : List Int := []
  keys : List (Option PossibleKey) := [none]
  keyAllowed : Bool := true

namespace Reading

/-- Whether a bracket is open. -/
def inFlow (r : Reading) : Bool := 1 < r.keys.length

def refuse {α : Type} (r : Reading) (problem : Problem) : Except YamlError α :=
  r.cursor.refuse r.cursor.line problem

def push (r : Reading) (token : Token) (c : Cursor) : Reading :=
  { r with tokens := r.tokens.push ⟨token, r.cursor.line⟩, cursor := c }

def place (r : Reading) : Nat := r.taken + r.tokens.size

def insert (r : Reading) (place : Nat) (token : PlacedToken) : Reading :=
  let i := place - r.taken
  { r with tokens := r.tokens.extract 0 i ++ #[token] ++ r.tokens.extract i r.tokens.size }

/-- Gives up the token that may be a key, unless a key has to stand there. -/
def dropKey (r : Reading) : Except YamlError Reading :=
  match r.keys with
  | some k :: keys =>
    if k.required then r.cursor.refuse k.line .colonMissing else .ok { r with keys := none :: keys }
  | _ => .ok r

/-- Notes that the next token may be a key. -/
def saveKey (r : Reading) : Except YamlError Reading :=
  if !r.keyAllowed then .ok r
  else r.dropKey.map fun r =>
    let c := r.cursor
    let key : PossibleKey :=
      { place := r.place, index := c.index, line := c.line, column := c.column
        required := !r.inFlow && decide (r.indent = c.column) }
    { r with keys := some key :: r.keys.drop 1 }

def closeBlocks (column : Int) (line : Nat) (tokens : Array PlacedToken) (indent : Int) :
    List Int → Array PlacedToken × Int × List Int
  | [] => (tokens, indent, [])
  | o :: outer =>
    if column < indent then closeBlocks column line (tokens.push ⟨.blockEnd, line⟩) o outer
    else (tokens, indent, o :: outer)

/-- Ends the blocks that are indented further than a column, unless a bracket is open. -/
def unindent (r : Reading) (column : Int) (line : Nat) : Reading :=
  if r.inFlow then r
  else
    let (tokens, indent, outer) := closeBlocks column line r.tokens r.indent r.outer
    { r with tokens, indent, outer }

/-- Begins a block at a column, unless one has begun there already or a bracket is open. -/
def indentTo (r : Reading) (column place : Nat) (start : PlacedToken) : Except YamlError Reading :=
  if r.inFlow || decide ((column : Int) ≤ r.indent) then .ok r
  else if maxDepth < r.outer.length + 1 then r.refuse (.tooDeep maxDepth)
  else .ok ({ r with indent := column, outer := r.indent :: r.outer }.insert place start)

/-- The place after a comment and the further lines that hold nothing but comments. -/
def afterComments (fuel : Nat) (c : Cursor) : Cursor :=
  match fuel with
  | 0 => c
  | fuel + 1 =>
    let c := c.skipLine
    let between := (c.ahead fun x => isBlank x || x == '\n').length
    let next := c.skip between
    if next.rest.head? == some '#' then afterComments fuel next else c

/-- Goes on to the next token, over blanks, line breaks and comments. Tabs do not count as indentation.
A new line may begin with a key, unless a bracket is open. -/
def skipToToken (fuel : Nat) (r : Reading) : Reading :=
  match fuel with
  | 0 => r
  | fuel + 1 =>
    let c := r.cursor.skipWhile fun x => x == ' ' || ((r.inFlow || !r.keyAllowed) && x == '\t')
    let c := if c.rest.head? == some '#' then afterComments c.left c else c
    match c.rest with
    | x :: _ =>
      if isBreak x then skipToToken fuel { r with cursor := c.next, keyAllowed := r.keyAllowed || !r.inFlow }
      else { r with cursor := c }
    | [] => { r with cursor := c }

/-- Goes over a comment that follows a token on its line. -/
def skipLineComment (r : Reading) : Reading :=
  if r.cursor.fresh || r.tokens.back?.map (·.token) == some .blockEntry then r
  else
    let c := r.cursor.skipBlanks
    if c.rest.head? == some '#' then { r with cursor := c.skipLine } else r

/-- Ends all blocks, before what stands outside them. -/
def leaveBlocks (r : Reading) : Except YamlError Reading :=
  (r.unindent (-1) r.cursor.line).dropKey.map fun r => { r with keyAllowed := false }

def openFlow (r : Reading) (token : Token) : Except YamlError Reading := do
  let r ← r.saveKey
  if maxDepth < r.keys.length then r.refuse (.tooDeep maxDepth)
  else return { r with keys := none :: r.keys, keyAllowed := true }.push token r.cursor.next

def closeFlow (r : Reading) (token : Token) : Except YamlError Reading := do
  let r ← r.dropKey
  let keys := if r.inFlow then r.keys.drop 1 else r.keys
  return { r with keys, keyAllowed := false }.push token r.cursor.next

def flowEntry (r : Reading) : Except YamlError Reading :=
  r.dropKey.map fun r => { r with keyAllowed := true }.push .flowEntry r.cursor.next

def beginBlock (r : Reading) (start : Token) (problem : Problem) : Except YamlError Reading :=
  if r.inFlow then .ok r
  else if !r.keyAllowed then r.refuse problem
  else r.indentTo r.cursor.column r.place ⟨start, r.cursor.line⟩

def blockEntry (r : Reading) : Except YamlError Reading := do
  let r ← (← r.beginBlock .blockSequenceStart .itemNotAllowed).dropKey
  return { r with keyAllowed := true }.push .blockEntry r.cursor.next

def keyMark (r : Reading) : Except YamlError Reading := do
  let r ← (← r.beginBlock .blockMappingStart .keyNotAllowed).dropKey
  return { r with keyAllowed := !r.inFlow }.push .key r.cursor.next

/-- Reads a colon that makes no key of what is before it. -/
def valueAlone (r : Reading) : Except YamlError Reading := do
  let r ← r.beginBlock .blockMappingStart .valueNotAllowed
  return { r with keyAllowed := !r.inFlow }.push .value r.cursor.next

/-- Reads the colon before a value: what may be a key becomes one. -/
def valueMark (r : Reading) : Except YamlError Reading :=
  match r.keys with
  | some k :: keys =>
    if k.reaches r.cursor then do
      let r := { r with keys := none :: keys, keyAllowed := false }.insert k.place ⟨.key, k.line⟩
      let r ← r.indentTo k.column k.place ⟨.blockMappingStart, k.line⟩
      return r.push .value r.cursor.next
    else if k.required then r.cursor.refuse k.line .colonMissing
    else valueAlone { r with keys := none :: keys }
  | _ => r.valueAlone

/-- Reads a token that may be a key and after which no key may begin. -/
def keyLike (r : Reading) (read : Cursor → Except YamlError (Token × Cursor)) : Except YamlError Reading := do
  let r ← r.saveKey
  let (token, c) ← read r.cursor
  return { r with keyAllowed := false }.push token c

/-- Reads an unquoted scalar. After it a key may begin if a line has ended. -/
def unquoted (r : Reading) : Except YamlError Reading := do
  let r ← r.saveKey
  let (text, broken, c) ← r.cursor.unquoted r.inFlow (r.indent + 1).toNat
  return { r with keyAllowed := broken }.push (.scalar text true) c

def block (r : Reading) : Except YamlError Reading := do
  let r ← r.dropKey
  let (text, c) ← r.cursor.block (if r.indent < 0 then none else some r.indent.toNat)
  return { r with keyAllowed := true }.push (.scalar text false) c

def quoted (r : Reading) : Except YamlError Reading :=
  r.keyLike fun c => c.quoted.map fun (text, c) => (.scalar text false, c)

/-- Reads a token that begins with a character. -/
def tokenAt (r : Reading) (x : Char) (rest : List Char) : Except YamlError Reading :=
  if x == '[' then r.openFlow .sequenceStart
  else if x == '\x7b' then r.openFlow .mappingStart
  else if x == ']' then r.closeFlow .sequenceEnd
  else if x == '\x7d' then r.closeFlow .mappingEnd
  else if x == ',' then r.flowEntry
  else if x == '-' && atGap rest then r.blockEntry
  else if x == '?' && (r.inFlow || atGap rest) then r.keyMark
  else if x == ':' && (r.inFlow || atGap rest) then r.valueMark
  else if x == '*' then r.keyLike fun c => c.next.name.map fun (name, c) => (.aliasOf name, c)
  else if x == '&' then r.keyLike fun c => c.next.name.map fun (name, c) => (.anchor name, c)
  else if x == '!' then r.keyLike fun c => c.tag.map fun (t, c) => (.tag t, c)
  else if (x == '|' || x == '>') && !r.inFlow then r.block
  else if x == '\'' || x == '"' then r.quoted
  else if startsUnquoted r.inFlow (x :: rest) then r.unquoted
  else r.refuse .noToken

/-- Ends the last line, if it has no break. -/
def endLine (r : Reading) : Reading :=
  if r.cursor.column = 0 then r
  else { r with cursor := { r.cursor with line := r.cursor.line + 1, column := 0 } }

/-- Reads the next token, with the marks of blocks around it. -/
def next (r : Reading) : Except YamlError Reading :=
  let line := r.cursor.line
  let r := r.skipToToken (r.cursor.left + 1)
  let r := r.unindent r.cursor.column line
  match r.cursor.rest with
  | [] => r.endLine.leaveBlocks.map fun r => r.push .streamEnd r.cursor
  | x :: rest =>
    if r.cursor.column == 0 && x == '%' then do
      let r ← r.leaveBlocks
      let (d, c) ← r.cursor.directive
      return r.push (.directive d) c
    else if r.cursor.atMark '-' then r.leaveBlocks.map fun r => r.push .documentStart (r.cursor.skip 3)
    else if r.cursor.atMark '.' then r.leaveBlocks.map fun r => r.push .documentEnd (r.cursor.skip 3)
    else (r.tokenAt x rest).map skipLineComment

/-- Whether it is open if the first token that has not been taken is a key. If it has to be one, a colon has to
be near. -/
def isOpen (r : Reading) : Except YamlError Bool :=
  match r.keys.findSome? fun key => key.filter (·.place = r.taken) with
  | none => .ok false
  | some k =>
    if k.reaches r.cursor then .ok true
    else if k.required then r.cursor.refuse k.line .colonMissing
    else .ok false

/-- Reads on until a token can be taken: two more have to follow it, and it has to be settled whether it is a
key. -/
def supply (fuel : Nat) (r : Reading) : Except YamlError Reading :=
  match fuel with
  | 0 => .ok r
  | fuel + 1 => do
    let more ← if 2 < r.tokens.size then r.isOpen else pure true
    if more then (← r.next).supply fuel else return r

/-- The next token, after all that has to be read for it. -/
def peek (r : Reading) : Except YamlError (PlacedToken × Reading) := do
  let r ← r.supply (r.cursor.left + 4)
  return ((r.tokens[0]?).getD ⟨.streamEnd, r.cursor.line⟩, r)

def advance (r : Reading) : Reading := { r with taken := r.taken + 1, tokens := r.tokens.extract 1 r.tokens.size }

end Reading

end OverloadDocs.Yaml
