/-!
Wildcard patterns and what they match. A piece of a pattern takes some characters off the front of a
text; where it has a choice, all the texts that can be left are considered.
-/

namespace OverloadDocs.Glob

/-- A piece of a pattern. -/
inductive Piece where
  | literal (c : Char)
  | anyRun
  | anyOne
  | oneIn (negated : Bool) (ranges : List (Char × Char))
  | nothing
  deriving Inhabited

/-- A pattern is matched piece by piece. -/
abbrev Pattern := List Piece

/-- What can be left of a text after a run of characters. -/
def afterRun : List Char → List (List Char)
  | [] => [[]]
  | c :: cs => (c :: cs) :: afterRun cs

/-- What is left of a text after one character of a class. -/
def afterOne (p : Char → Bool) : List Char → List (List Char)
  | [] => []
  | c :: cs => if p c then [cs] else []

def inSome (ranges : List (Char × Char)) (c : Char) : Bool :=
  ranges.any fun (lo, hi) => lo ≤ c && c ≤ hi

/-- What can be left of a text after a piece. -/
def Piece.rests : Piece → List Char → List (List Char)
  | .literal c, cs => afterOne (· == c) cs
  | .anyRun, cs => afterRun cs
  | .anyOne, cs => afterOne (fun _ => true) cs
  | .oneIn negated ranges, cs => afterOne (fun c => inSome ranges c != negated) cs
  | .nothing, _ => []

/-- What can be left of any of some texts after a sequence of pieces. -/
def restsOfAll : List Piece → List (List Char) → List (List Char)
  | [], texts => texts
  | p :: ps, texts => restsOfAll ps (texts.flatMap p.rests).eraseDups

/-- Whether a pattern matches the whole of a text. -/
def Pattern.matches (p : Pattern) (text : String) : Bool := (restsOfAll p [text.toList]).contains []

end OverloadDocs.Glob
