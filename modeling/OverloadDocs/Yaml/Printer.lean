import OverloadDocs.Json.Printer
import OverloadDocs.Yaml.Basic
import OverloadDocs.Yaml.Unquoted

/-!
YAML text of a value. Lists and maps stand in blocks, indented by two blanks. A text is written plainly
where that reads back as the same text; else in double quotes where it would be taken for something other
than a text, in single quotes where its characters would be taken for structure, and as a literal block
where it has several lines.
-/

namespace OverloadDocs.Yaml

/-- The words that were once truth values. -/
def oldBooleans : List String :=
  ["y", "Y", "yes", "Yes", "YES", "on", "On", "ON", "n", "N", "no", "No", "NO", "off", "Off", "OFF"]

/-- Whether digits spell a number in a range. -/
def isNumberIn (lo hi : Nat) (digits : List Char) : Bool :=
  !digits.isEmpty && digits.length ≤ 2 && digits.all Char.isDigit &&
    lo ≤ Nat.ofDigitChars 10 digits 0 && Nat.ofDigitChars 10 digits 0 ≤ hi

/-- Whether a text is a number in the old notation with base sixty. -/
def isBaseSixty (cs : List Char) : Bool :=
  let cs := match cs with
    | '+' :: rest => rest
    | '-' :: rest => rest
    | cs => cs
  match cs.splitOn ':' with
  | first :: second :: more =>
    let parts := second :: more
    let last := (parts.getLast?.getD []).takeWhile (· ≠ '.')
    let fraction := (parts.getLast?.getD []).drop last.length
    ((first.head?.map Char.isDigit).getD false) && first.all (fun c => c.isDigit || c == '_') &&
      (parts.dropLast ++ [last]).all (isNumberIn 0 59) &&
      (fraction.drop 1).all (fun c => c.isDigit || c == '_')
  | _ => false

/-- Whether a text written plainly would be read as a text. -/
def readsAsText (s : String) : Bool :=
  (match Plain.of s.toList with
    | .text => true
    | .merge => true
    | _ => false) &&
  !oldBooleans.contains s && !isBaseSixty s.toList

/-- A character that may stand in a text as it is. -/
def isWritable (c : Char) : Bool :=
  c == '\n' || (' ' ≤ c && c ≤ '~') || ('\u00a0' ≤ c && c ≤ '\ufffd' && c ≠ '\ufeff')

/-- Whether a text has a colon before a blank or at its end, or a hash after a blank. -/
def hasMarks : List Char → Bool
  | [] => false
  | c :: rest =>
    (c == ':' && (rest.isEmpty || (rest.head?.map isBlank).getD false)) ||
      ((isBlank c || isBreak c) && rest.head? == some '#') || hasMarks rest

/-- Whether the characters of a text could be taken for structure. -/
def looksLikeStructure (cs : List Char) : Bool :=
  match cs with
  | [] => false
  | c :: rest =>
    isReserved c || ((c == '-' || c == '?') && (rest.isEmpty || (rest.head?.map isBlank).getD false)) ||
      hasMarks cs || "---".toList.isPrefixOf cs || "...".toList.isPrefixOf cs

/-- Whether one of two classes is followed by the other somewhere. -/
def hasPair (p q : Char → Bool) (cs : List Char) : Bool := (cs.zip (cs.drop 1)).any fun (a, b) => p a && q b

/-- What is known about the characters of a text: whether blanks or breaks stand at its ends, and
whether some characters cannot be written as they are. -/
structure Traits where
  blankEnds : Bool
  trailingBlank : Bool
  breaks : Bool
  blankAfterBreak : Bool
  blankBeforeBreak : Bool
  tabs : Bool
  unwritable : Bool

def Traits.of (cs : List Char) : Traits :=
  let blank (c : Char) := c == ' '
  let edge (c : Option Char) := (c.map fun c => blank c || isBreak c).getD false
  { blankEnds := edge cs.head? || edge cs.getLast?
    trailingBlank := cs.getLast? == some ' '
    breaks := cs.any isBreak
    blankAfterBreak := hasPair isBreak blank cs
    blankBeforeBreak := hasPair blank isBreak cs
    tabs := cs.contains '\t'
    unwritable := cs.any fun c => !isWritable c && c ≠ '\t' }

/-- Whether a text can be written plainly as far as its characters go. -/
def Traits.plain (t : Traits) : Bool :=
  !t.blankEnds && !t.breaks && !t.tabs && !t.unwritable

def Traits.single (t : Traits) : Bool :=
  !t.blankAfterBreak && !t.blankBeforeBreak && !t.tabs && !t.unwritable

def Traits.literal (t : Traits) : Bool :=
  !t.trailingBlank && !t.blankBeforeBreak && !t.unwritable

/-- The last `width` hexadecimal digits of a number, in upper case. -/
def upperHex (width n : Nat) : List Char := (Text.hexDigits width n).map Char.toUpper

/-- A character between double quotes that does not stand for itself. -/
def escapedChar (c : Char) : List Char :=
  if c == '"' || c == '\\' then ['\\', c]
  else if c == '\x00' then ['\\', '0']
  else if c == '\x07' then ['\\', 'a']
  else if c == '\x08' then ['\\', 'b']
  else if c == '\t' then ['\\', 't']
  else if c == '\n' then ['\\', 'n']
  else if c == '\x0b' then ['\\', 'v']
  else if c == '\x0c' then ['\\', 'f']
  else if c == '\r' then ['\\', 'r']
  else if c == '\x1b' then ['\\', 'e']
  else if c == '\u0085' then ['\\', 'N']
  else if c == '\u00a0' then ['\\', '_']
  else if c == '\u2028' then ['\\', 'L']
  else if c == '\u2029' then ['\\', 'P']
  else if c.toNat ≤ 0xff then '\\' :: 'x' :: upperHex 2 c.toNat
  else if c.toNat ≤ 0xffff then '\\' :: 'u' :: upperHex 4 c.toNat
  else '\\' :: 'U' :: upperHex 8 c.toNat

/-- Whether a character stands for itself between double quotes. -/
def standsForItself (c : Char) : Bool := isWritable c && !isBreak c && c ≠ '"' && c ≠ '\\'

/-- A text in double quotes. All of a text that begins with a byte order mark is escaped. -/
def doubleQuoted (cs : List Char) : List Char :=
  let marked := cs.head? == some '\ufeff'
  '"' :: cs.flatMap (fun c => if standsForItself c && !marked then [c] else escapedChar c) ++ ['"']

def blanks (indent : Nat) : List Char := List.replicate indent ' '

/-- The characters of a text, with an indentation before each that is first in its line; `fresh` says
whether the first one is. -/
def indented (indent : Nat) (write : Char → List Char) (fresh : Bool) : List Char → List Char
  | [] => []
  | c :: cs =>
    if isBreak c then c :: indented indent write true cs
    else (if fresh then blanks indent else []) ++ write c ++ indented indent write false cs

/-- A text in single quotes, whose further lines have an indentation. -/
def singleQuoted (indent : Nat) (cs : List Char) : List Char :=
  '\'' :: indented indent (fun c => if c == '\'' then ['\'', '\''] else [c]) false cs ++ ['\'']

/-- A text as a literal block whose lines have an indentation. A break at its front ends the line with
the bar. -/
def literalBlock (indent : Nat) (cs : List Char) : List Char :=
  let broken (c : Option Char) := (c.map isBreak).getD false
  let margin := if cs.head? == some ' ' || broken cs.head? then ['2'] else []
  let ending :=
    if !broken cs.getLast? then ['-']
    else if cs.dropLast.isEmpty || broken cs.dropLast.getLast? then ['+']
    else []
  '|' :: margin ++ ending ++ (if broken cs.head? then [] else ['\n']) ++ indented indent (fun c => [c]) true cs

/-- A text as a value, whose further lines would have an indentation. -/
def writtenText (indent : Nat) (s : String) : String :=
  let cs := s.toList
  let traits := Traits.of cs
  String.ofList (
    if cs.contains '\n' then
      if traits.literal then literalBlock indent cs else doubleQuoted cs
    else if !readsAsText s then doubleQuoted cs
    else if traits.plain && !looksLikeStructure cs then cs
    else if traits.single then singleQuoted indent cs
    else doubleQuoted cs)

/-- The longest key in bytes that stands before its colon. -/
def longestKey : Nat := 128

/-- Whether a key stands before its colon: it is short and has no break. -/
def isShortKey (key : String) : Bool := key.utf8ByteSize ≤ longestKey && !key.toList.any isBreak

/-- A text with the line break that ends it, if it does not end with one. -/
def closed (s : String) : String :=
  if (s.toList.getLast?.map isBreak).getD false then s else s ++ "\n"

/-- The texts of a block at an indentation, where the first stands already in its place. -/
def block (indent : Nat) (texts : List String) : String := (String.ofList (blanks indent)).intercalate texts

/-- The texts of a block on lines of their own. -/
def newBlock (indent : Nat) (texts : List String) : String :=
  "\n" ++ String.ofList (blanks indent) ++ block indent texts

mutual

/-- A value as it follows a key at an indentation. -/
def afterKey (indent : Nat) : Json → String
  | .arr [] => " []\n"
  | .obj [] => " \x7b\x7d\n"
  | .arr items => newBlock (indent + 2) (itemTexts (indent + 2) items)
  | .obj members => newBlock (indent + 2) (memberTexts (indent + 2) members)
  | .str s => " " ++ closed (writtenText (indent + 2) s)
  | j => " " ++ j.compact ++ "\n"

/-- The members of a map at an indentation. A long key has a line of its own after a question mark. -/
def memberTexts (indent : Nat) : List (String × Json) → List String
  | [] => []
  | (key, j) :: members =>
    (if isShortKey key then writtenText (indent + 2) key ++ ":" ++ afterKey indent j
      else block indent ["? " ++ closed (writtenText (indent + 2) key), ": " ++ afterDash indent j]) ::
    memberTexts indent members

def itemTexts (indent : Nat) : List Json → List String
  | [] => []
  | j :: items => ("- " ++ afterDash indent j) :: itemTexts indent items

/-- A value as it follows the dash of a list at an indentation. -/
def afterDash (indent : Nat) : Json → String
  | .arr [] => "[]\n"
  | .obj [] => "\x7b\x7d\n"
  | .arr items => block (indent + 2) (itemTexts (indent + 2) items)
  | .obj members => block (indent + 2) (memberTexts (indent + 2) members)
  | .str s => closed (writtenText (indent + 2) s)
  | j => j.compact ++ "\n"

end

def document : Json → String
  | .arr [] => "[]\n"
  | .obj [] => "\x7b\x7d\n"
  | .arr items => block 0 (itemTexts 0 items)
  | .obj members => block 0 (memberTexts 0 members)
  | .str s => closed (writtenText 2 s)
  | j => j.compact ++ "\n"

/-- The number of a run of digits after a leading digit, as a word of 64 bits. -/
def runValue (leading : Nat) (digits : List Char) : Int64 := Int64.ofNat (Nat.ofDigitChars 10 digits leading)

/-- Whether a key stands before another in a map: digits count as numbers, and letters stand after
other characters unless digits precede them. Numbers are words of 64 bits, where long ones wrap. -/
def keyBefore (before : List Char) : List Char → List Char → Bool
  | a :: as, b :: bs =>
    if a == b then keyBefore (a :: before) as bs
    else
      let afterDigit := (before.head?.map Char.isDigit).getD false
      if a.isAlpha && b.isAlpha then a < b
      else if a.isAlpha || b.isAlpha then (if afterDigit then a.isAlpha else b.isAlpha)
      else
        let nonzero := (a == '0' || b == '0') && (before.takeWhile Char.isDigit).any (· ≠ '0')
        let leading := if nonzero then 1 else 0
        let da := (a :: as).takeWhile Char.isDigit
        let db := (b :: bs).takeWhile Char.isDigit
        let na := runValue leading da
        let nb := runValue leading db
        if na ≠ nb then na < nb else if da.length ≠ db.length then da.length < db.length else a < b
  | [], _ => true
  | _ :: _, [] => false

end OverloadDocs.Yaml
