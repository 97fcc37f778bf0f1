import OverloadDocs.Text.Blank

/-!
The lines of a comment without its delimiters and without the column of stars that decorates it.
-/

namespace OverloadDocs.Comment

open Text

/-- The text after a given beginning, or the whole text when it does not begin so. -/
def withoutLead (lead cs : List Char) : List Char :=
  if lead.isPrefixOf cs then cs.drop lead.length else cs

/-- The text before a given end, or the whole text when it does not end so. -/
def withoutTail (tail cs : List Char) : List Char :=
  if tail.isSuffixOf cs then cs.take (cs.length - tail.length) else cs

/-- A carriage return before a line feed is dropped. -/
def unixNewlines : List Char → List Char
  | '\r' :: '\n' :: cs => '\n' :: unixNewlines cs
  | c :: cs => c :: unixNewlines cs
  | [] => []

def withoutDelimiters (line : List Char) : List Char :=
  dropEndWhile (fun c => c == ' ' || c == '\t')
    (withoutLead ['/', '/']
      (withoutTail ['*', '/']
        (withoutLead ['/', '*']
          (withoutLead ['/', '*', '*'] (trim line)))))

/-- A line without one leading star and the space after it. -/
def withoutStar (line : List Char) : List Char :=
  match trim line with
  | '*' :: cs => withoutLead [' '] cs
  | cs => cs

/-- Whether a text starts with a star. -/
def starred : List Char → Bool
  | '*' :: _ => true
  | _ => false

/-- Whether a comment that shows no delimiters is decorated all the same: every line that is not
blank carries a star, the first of them excepted when others follow. -/
def decorated (lines : List (List Char)) : Bool :=
  match (lines.map trim).filter (· ≠ []) with
  | [] => false
  | [only] => starred only
  | _ :: others => others.all starred

def withoutBlankEnds (lines : List (List Char)) : List (List Char) :=
  let blank := fun line : List Char => trim line == []
  ((lines.dropWhile blank).reverse.dropWhile blank).reverse

/-- The lines of a comment's content. Inside a block comment one star is taken from every line that
has it; other text is decorated only as a whole, so that its bullets survive. -/
def contentLines (raw : List Char) : List (List Char) :=
  let raw := unixNewlines raw
  let block := ['/', '*'].isPrefixOf (trim raw)
  let lines := (raw.splitOn '\n').map withoutDelimiters
  withoutBlankEnds (if block || decorated lines then lines.map withoutStar else lines)

end OverloadDocs.Comment
