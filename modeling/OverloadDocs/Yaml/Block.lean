import OverloadDocs.Yaml.Cursor

/-!
Literal and folded blocks: a header, then the lines that are indented further than what holds the block.
In a literal block all line breaks stay, in a folded one those between lines that begin with no blank are
folded. The header may give the indentation, and say whether the breaks at the end stay.
-/

namespace OverloadDocs.Yaml

/-- What becomes of the line breaks at the end of a block. -/
inductive Chomp where
  | strip
  | clip
  | keep
  deriving DecidableEq

/-- The header of a block: what becomes of the breaks at its end, and the further indentation, if it is
given. -/
structure BlockHeader where
  chomp : Chomp := .clip
  further : Option Nat := none

/-- What a sign in a header says. -/
def chompSign? (c : Char) : Option Chomp :=
  if c == '+' then some .keep else if c == '-' then some .strip else none

/-- The number that a digit of a header gives. -/
def furtherDigit? (c : Char) : Option Nat := if c.isDigit then some (c.toNat - '0'.toNat) else none

/-- Reads the header of a block after its first character, in either order: the header, and how many
characters it has. An indentation of zero is refused. -/
def blockHeader? (cs : List Char) : Option (BlockHeader × Nat) :=
  let (header, width) : BlockHeader × Nat := match cs.head?.bind chompSign?, cs.head?.bind furtherDigit? with
    | some chomp, _ =>
      match cs[1]?.bind furtherDigit? with
      | some n => (⟨chomp, some n⟩, 2)
      | none => (⟨chomp, none⟩, 1)
    | none, some n =>
      match cs[1]?.bind chompSign? with
      | some chomp => (⟨chomp, some n⟩, 2)
      | none => (⟨.clip, some n⟩, 1)
    | none, none => ({}, 0)
  if header.further = some 0 then none else some (header, width)

/-- Reads the indentation ahead and the empty lines before it: their breaks, and the place after the
indentation of the first line that is not empty. The indentation is `most` at most, or any if it is not
yet known. The widest indentation seen is returned too. No tab may stand in it. -/
def readMargins (fuel start : Nat) (most : Option Nat) (breaks : List Char) (widest : Nat) (c : Cursor) :
    Except YamlError (List Char × Nat × Cursor) :=
  match fuel with
  | 0 => .ok (breaks.reverse, widest, c)
  | fuel + 1 =>
    let spaces := (c.ahead (· == ' ')).length
    let c := c.skip (match most with
      | some n => min spaces (n - c.column)
      | none => spaces)
    let widest := max widest c.column
    let short := match most with
      | some n => decide (c.column < n)
      | none => true
    match c.rest with
    | [] => .ok (breaks.reverse, widest, c)
    | x :: _ =>
      if short && x == '\t' then c.refuse start .tabInIndentation
      else if isBreak x then readMargins fuel start most (keptBreak x :: breaks) widest c.next
      else .ok (breaks.reverse, widest, c)

/-- A line of a block with the breaks after it: its own, and those of the empty lines that follow. -/
structure BlockLine where
  text : List Char
  ending : List Char
  empties : List Char

def readBlockLines (fuel start indent : Nat) (c : Cursor) : Except YamlError (List BlockLine × Cursor) :=
  match fuel with
  | 0 => .ok ([], c)
  | fuel + 1 =>
    if c.column ≠ indent ∨ c.rest.isEmpty then .ok ([], c)
    else do
      let text := c.ahead (!isBreak ·)
      let c := c.skipLine
      let ending := (c.rest.take 1).map keptBreak
      let (empties, _, c) ← readMargins (c.left + 1) start (some indent) [] 0 c.next
      let (lines, c) ← readBlockLines fuel start indent c
      return (⟨text, ending, empties⟩ :: lines, c)

def beginsBlank (line : List Char) : Bool := (line.head?.map isBlank).getD false

/-- The text of the lines of a block, without the breaks at its end. -/
def joinLines (folded : Bool) : List BlockLine → List Char
  | [] => []
  | [line] => line.text
  | line :: after :: lines =>
    let ending :=
      if folded && !beginsBlank line.text && !beginsBlank after.text && line.ending == ['\n'] then
        (if line.empties.isEmpty then [' '] else [])
      else line.ending
    line.text ++ ending ++ line.empties ++ joinLines folded (after :: lines)

/-- Reads a block inside what is indented by `outer`. -/
def Cursor.block (c : Cursor) (outer : Option Nat) : Except YamlError (String × Cursor) := do
  let start := c.line
  match blockHeader? (c.rest.drop 1) with
  | none => c.refuse start .zeroIndentation
  | some (header, width) =>
    let folded := c.rest.head? == some '>'
    let c ← (c.skip (width + 1)).finishLine start
    let given := header.further.map (outer.getD 0 + ·)
    let (before, widest, c) ← readMargins (c.left + 1) start given [] 0 c
    let least := max 1 ((outer.map (· + 1)).getD 0)
    let indent := given.getD (max widest least)
    let (lines, c) ← readBlockLines (c.left + 1) start indent c
    let last := lines.getLast?
    let ending := (last.map (·.ending)).getD []
    let empties := (last.map (·.empties)).getD before
    let opening := if lines.isEmpty then [] else before
    let tail := match header.chomp with
      | .strip => []
      | .clip => ending
      | .keep => ending ++ empties
    return (String.ofList (opening ++ joinLines folded lines ++ tail), c)

end OverloadDocs.Yaml
