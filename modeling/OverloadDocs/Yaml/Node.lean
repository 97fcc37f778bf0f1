import OverloadDocs.Yaml.Token

/-!
The nodes of a document. An alias holds the node that its anchor stands for, or none if that node is not
complete yet. Only the first document of a text is read, and nothing is asked of what follows it.
-/

namespace OverloadDocs.Yaml

/-- A node, with the line where it begins, counted from one. The tag of a scalar is given by its short name;
without one, an unquoted scalar is taken for what it looks like. -/
inductive Node where
  | scalar (line : Nat) (tag : Option String) (text : String)
  | seq (line : Nat) (items : List Node)
  | map (line : Nat) (entries : List (Node × Node))
  | aliasOf (line : Nat) (name : String) (target : Option Node)
  deriving Inhabited

namespace Node

/-- The node of nothing, where a token begins or ends. -/
def emptyAt (t : PlacedToken) : Node := .scalar (t.line + 1) none ""

/-- The tag of a quoted scalar. -/
def textTag : String := "!!str"

/-- A scalar with a tag, if it has one; a lone exclamation mark is none. -/
def ofScalar (line : Nat) (tag : Option String) (text : String) (plain : Bool) : Node :=
  match tag.filter (· ≠ "!") with
  | some tag => .scalar line (some tag) text
  | none => .scalar line (if plain then none else some textTag) text

/-- How far the text has been read, the handles of the document, and the anchors, the latest first. -/
structure Progress where
  reading : Reading
  handles : List (String × String) := defaultHandles
  anchors : List (String × Option Node) := []

/-- A step that reads nodes, unless the text does not allow it. -/
abbrev Reader := StateT Progress (Except YamlError)

def peek : Reader PlacedToken := do
  let p ← get
  let (token, reading) ← p.reading.peek
  set { p with reading }
  return token

def advance : Reader Unit := modify fun p => { p with reading := p.reading.advance }

/-- Takes the next token if it is the given one, and says whether it was. -/
def takeIf (token : Token) : Reader Bool := do
  if (← peek).token = token then
    advance
    return true
  else return false

/-- Breaks off at the next token, inside what begins at a line. -/
def refuse {α : Type} (start : Nat) (problem : Problem) : Reader α := do
  throw (.ofTokens start (← peek).line problem)

/-- Takes the comma between items. -/
def separator (start : Nat) (problem : Problem) : Reader Unit := do
  if !(← takeIf .flowEntry) then refuse start problem

/-- The properties of a node: its anchor, and its tag with the line of that. -/
structure Properties where
  anchor : Option String := none
  tag : Option (Tag × Nat) := none

def properties : Reader Properties := do
  let first ← peek
  match first.token with
  | .anchor name =>
    advance
    let second ← peek
    match second.token with
    | .tag t =>
      advance
      return ⟨some name, some (t, second.line)⟩
    | _ => return ⟨some name, none⟩
  | .tag t =>
    advance
    match (← peek).token with
    | .anchor name =>
      advance
      return ⟨some name, some (t, first.line)⟩
    | _ => return ⟨none, some (t, first.line)⟩
  | _ => return {}

/-- The name of the tag of a node that begins at a line, if it has one. -/
def tagName (start : Nat) (tag : Option (Tag × Nat)) : Reader (Option String) := do
  match tag with
  | none => return none
  | some (t, line) =>
    match t.resolve? (← get).handles with
    | none => throw (.ofTokens start line .handleUndefined)
    | some name => return some name

/-- Puts an anchor on a complete node. -/
def anchored (name : Option String) (node : Node) : Reader Node := do
  match name with
  | none => return node
  | some name =>
    modify fun p => { p with anchors := (name, some node) :: p.anchors }
    return node

/-- Reads a node under an anchor that may be used before the node is complete. -/
def under (name : Option String) (read : Reader Node) : Reader Node := do
  match name with
  | none => read
  | some name =>
    let before := (← get).anchors
    modify fun p => { p with anchors := (name, none) :: before }
    let node ← read
    modify fun p =>
      { p with anchors := p.anchors.set (p.anchors.length - before.length - 1) (name, some node) }
    return node

mutual

/-- Reads a node. Blocks are allowed only outside brackets; the items of a list need no further
indentation as a value in a map. -/
def read (fuel : Nat) (block unindented : Bool) : Reader Node := do
  match fuel with
  | 0 => refuse 0 .contentMissing
  | fuel + 1 =>
    let first ← peek
    let start := first.line
    match first.token with
    | .aliasOf name =>
      match (← get).anchors.find? (·.1 = name) with
      | none => throw (.unknownAnchor name)
      | some (_, target) =>
        advance
        return .aliasOf (start + 1) name target
    | _ =>
      let properties ← properties
      let tag ← tagName start properties.tag
      let next ← peek
      match next.token with
      | .scalar text plain =>
        advance
        anchored properties.anchor (ofScalar (start + 1) tag text plain)
      | .sequenceStart =>
        advance
        under properties.anchor (return .seq (start + 1) (← readFlowItems fuel next.line true))
      | .mappingStart =>
        advance
        under properties.anchor (return .map (start + 1) (← readFlowEntries fuel next.line true))
      | token =>
        if unindented && token == .blockEntry then
          under properties.anchor (return .seq (start + 1) (← readUnindentedItems fuel))
        else if block && token == .blockSequenceStart then
          advance
          under properties.anchor (return .seq (start + 1) (← readBlockItems fuel next.line))
        else if block && token == .blockMappingStart then
          advance
          under properties.anchor (return .map (start + 1) (← readBlockEntries fuel next.line))
        else if properties.anchor.isSome || tag.isSome then
          anchored properties.anchor (ofScalar (start + 1) tag "" true)
        else refuse start .contentMissing

/-- Reads a node, unless one of the given tokens stands in its place, so that there is nothing after the
token before. -/
def readUnless (fuel : Nat) (block unindented : Bool) (before : PlacedToken) (tokens : List Token) :
    Reader Node := do
  match fuel with
  | 0 => refuse 0 .contentMissing
  | fuel + 1 =>
    if tokens.contains (← peek).token then return emptyAt before else read fuel block unindented

def readBlockItems (fuel start : Nat) : Reader (List Node) := do
  match fuel with
  | 0 => refuse start .dashMissing
  | fuel + 1 =>
    let dash ← peek
    if ← takeIf .blockEntry then
      let item ← readUnless fuel true false dash [.blockEntry, .blockEnd]
      return item :: (← readBlockItems fuel start)
    else if ← takeIf .blockEnd then return []
    else refuse start .dashMissing

/-- Reads the items of a list that is indented no further than the keys of the map that holds it. -/
def readUnindentedItems (fuel : Nat) : Reader (List Node) := do
  match fuel with
  | 0 => return []
  | fuel + 1 =>
    let dash ← peek
    if ← takeIf .blockEntry then
      let item ← readUnless fuel true false dash [.blockEntry, .key, .value, .blockEnd]
      return item :: (← readUnindentedItems fuel)
    else return []

def readBlockEntries (fuel start : Nat) : Reader (List (Node × Node)) := do
  match fuel with
  | 0 => refuse start .keyMissing
  | fuel + 1 =>
    let mark ← peek
    if ← takeIf .key then
      let key ← readUnless fuel true true mark [.key, .value, .blockEnd]
      let colon ← peek
      let value ←
        if ← takeIf .value then readUnless fuel true true colon [.key, .value, .blockEnd]
        else pure (emptyAt colon)
      return (key, value) :: (← readBlockEntries fuel start)
    else if ← takeIf .blockEnd then return []
    else refuse start .keyMissing

/-- Reads the items of a list in brackets, after the opening one or after an item. -/
def readFlowItems (fuel start : Nat) (first : Bool) : Reader (List Node) := do
  match fuel with
  | 0 => refuse start .bracketMissing
  | fuel + 1 =>
    if ← takeIf .sequenceEnd then return []
    else
      if !first then separator start .bracketMissing
      let mark ← peek
      if ← takeIf .sequenceEnd then return []
      else if ← takeIf .key then
        let entry ← readFlowPair fuel
        return .map (mark.line + 1) [entry] :: (← readFlowItems fuel start false)
      else
        let item ← read fuel false false
        return item :: (← readFlowItems fuel start false)

/-- Reads an entry that is an item of a list in brackets, after the mark of its key. The token that
stands for a missing key is taken. -/
def readFlowPair (fuel : Nat) : Reader (Node × Node) := do
  match fuel with
  | 0 => refuse 0 .contentMissing
  | fuel + 1 =>
    let next ← peek
    let key ←
      if [Token.value, .flowEntry, .sequenceEnd].contains next.token then do
        advance
        pure (emptyAt next)
      else read fuel false false
    let colon ← peek
    let value ←
      if ← takeIf .value then readUnless fuel false false colon [.flowEntry, .sequenceEnd]
      else pure (emptyAt colon)
    return (key, value)

/-- Reads the entries of a map in braces, after the opening one or after an entry. A key alone has
nothing as its value. -/
def readFlowEntries (fuel start : Nat) (first : Bool) : Reader (List (Node × Node)) := do
  match fuel with
  | 0 => refuse start .braceMissing
  | fuel + 1 =>
    if ← takeIf .mappingEnd then return []
    else
      if !first then separator start .braceMissing
      if ← takeIf .mappingEnd then return []
      else if ← takeIf .key then
        let key ← readUnless fuel false false (← peek) [.value, .flowEntry, .mappingEnd]
        let colon ← peek
        let value ←
          if ← takeIf .value then readUnless fuel false false colon [.flowEntry, .mappingEnd]
          else pure (emptyAt colon)
        return (key, value) :: (← readFlowEntries fuel start false)
      else
        let key ← read fuel false false
        return (key, emptyAt (← peek)) :: (← readFlowEntries fuel start false)

end

/-- Reads the directives before a document: whether a version has been given is known. A version has to
be 1.1, and neither it nor a handle may be given twice. -/
def readDirectives (fuel : Nat) (versioned : Bool) (handles : List (String × String)) :
    Reader (List (String × String)) := do
  match fuel with
  | 0 => return handles
  | fuel + 1 =>
    match (← peek).token with
    | .directive (.version major minor) =>
      if versioned then refuse 0 .versionTwice
      if major ≠ 1 || minor ≠ 1 then refuse 0 .versionUnknown
      advance
      readDirectives fuel true handles
    | .directive (.handle name stands) =>
      if handles.any (·.1 = name) then refuse 0 .handleTwice
      advance
      readDirectives fuel versioned (handles ++ [(name, stands)])
    | _ => return handles

/-- Reads the content of a document after its mark. -/
def readContent (fuel : Nat) : Reader Node := do
  let next ← peek
  match next.token with
  | .directive _ => return emptyAt next
  | token =>
    if [Token.documentStart, .documentEnd, .streamEnd].contains token then return emptyAt next
    else read fuel true false

def readDocument (fuel : Nat) : Reader Node := do
  let next ← peek
  if next.token == .streamEnd then return emptyAt next
  else if next.token.opensDocument then
    let handles ← readDirectives fuel false []
    modify fun p => { p with handles := handles ++ defaultHandles }
    if !(← takeIf .documentStart) then refuse 0 .documentStartMissing
    readContent fuel
  else read fuel true false

def ofText (cs : List Char) : Except YamlError Node :=
  let whole : Reader Node := do
    let node ← readDocument (16 * cs.length + 32)
    let _ ← peek
    return node
  (whole.run { reading := { cursor := .start cs } }).map (·.1)

end Node

end OverloadDocs.Yaml
