import OverloadDocs.Text.Blank
import OverloadDocs.Text.Identifier

/-!
Statements that look like function declarations: a type, a name, and a parenthesized list. The
check is coarse; whether the statement is a signature is for the grammar to say.
-/

namespace OverloadDocs.Source

open Text

/-- A declaration as it stands in the source: its text with blanks folded, the comment before it,
the line it starts on, the line on which it was closed, and whether it has no body. -/
structure Declaration where
  text : String
  comment : String
  line : Nat
  endLine : Nat
  forward : Bool
  deriving DecidableEq

/-- Words that begin statements which look like declarations and are none. -/
def controlWords : List String :=
  ["if", "else", "while", "for", "return", "print", "reject", "fatal_error", "target"]

/-- The statement with runs of white space folded to single spaces. -/
def foldBlanks (cs : List Char) : List Char := joinWith [' '] (words cs)

/-- A character that can end a type. -/
def isTypeEnd (c : Char) : Bool := isIdentPart c || c == ']' || c == ')'

/-- A character that can stand inside a type. -/
def isTypePart (c : Char) : Bool :=
  isTypeEnd c || isPlainBlank c || c == '[' || c == ',' || c == '('

/-- Whether a reversed text is that of a type: at least two characters, the first of which can start
an identifier. -/
def isReversedType : List Char → Bool
  | last :: cs =>
    isTypeEnd last && cs.all isTypePart && cs.getLast?.any isIdentStart
  | [] => false

/-- Whether a reversed text ends with a type, blanks, a name, and perhaps more blanks. -/
def isReversedHead (rev : List Char) : Bool :=
  let rev := rev.dropWhile isPlainBlank
  let name := rev.takeWhile isIdentPart
  let before := rev.dropWhile isIdentPart
  name.getLast?.any isIdentStart && before.head?.any isPlainBlank &&
    isReversedType (before.dropWhile isPlainBlank)

/-- Whether, after a text given in reverse, some opening parenthesis follows the head of a
declaration and is closed at the very end. -/
def opensList (rev : List Char) : List Char → Bool
  | [] => false
  | c :: cs =>
    (c == '(' && isReversedHead rev && cs.getLast? == some ')') || opensList (c :: rev) cs

def firstWord (cs : List Char) : List Char :=
  cs.takeWhile fun c => c ≠ ' ' ∧ c ≠ '(' ∧ c ≠ '['

def looksLikeDeclaration (cs : List Char) : Bool :=
  opensList [] cs && !controlWords.contains (String.ofList (firstWord cs))

end OverloadDocs.Source
