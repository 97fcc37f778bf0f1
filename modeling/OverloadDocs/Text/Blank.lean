/-!
White space, and the cutting of texts at it. A text is handled as its list of characters.
-/

namespace OverloadDocs.Text

/-- White space: the ASCII blanks, next line, and the separators of other scripts. Zero-width
characters are not blank. -/
def isBlank (c : Char) : Bool :=
  c == ' ' || ('\t' ≤ c && c ≤ '\r') || c == '\u0085' || c == '\u00a0' || c == '\u1680' ||
    ('\u2000' ≤ c && c ≤ '\u200a') || c == '\u2028' || c == '\u2029' || c == '\u202f' ||
    c == '\u205f' || c == '\u3000'

/-- The blanks that separate tokens and fields: the ASCII ones without the vertical tab. -/
def isPlainBlank (c : Char) : Bool :=
  c == ' ' || c == '\t' || c == '\n' || c == '\x0c' || c == '\r'

/-- The text without the characters of a class at its end. -/
def dropEndWhile (p : Char → Bool) (cs : List Char) : List Char :=
  (cs.reverse.dropWhile p).reverse

/-- The text without white space at its ends. -/
def trim (cs : List Char) : List Char :=
  dropEndWhile isBlank (cs.dropWhile isBlank)

/-- The maximal runs of characters outside a class. -/
def runsOutside (p : Char → Bool) (cs : List Char) : List (List Char) :=
  (cs.splitOnP p).filter (· ≠ [])

/-- The words of a text: its maximal runs of characters that are not white space. -/
def words (cs : List Char) : List (List Char) :=
  runsOutside isBlank cs

def trimmed (s : String) : String :=
  String.ofList (trim s.toList)

def joinWith (sep : List Char) (parts : List (List Char)) : List Char :=
  sep.intercalate parts

end OverloadDocs.Text
