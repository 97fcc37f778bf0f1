/-!
Identifiers: an ASCII letter or underscore followed by letters, digits and underscores.
-/

namespace OverloadDocs.Text

/-- A character that can begin an identifier. -/
def isIdentStart (c : Char) : Bool :=
  c == '_' || ('a' ≤ c && c ≤ 'z') || ('A' ≤ c && c ≤ 'Z')

def isIdentPart (c : Char) : Bool :=
  isIdentStart c || ('0' ≤ c && c ≤ '9')

def isIdentifier (name : String) : Bool :=
  match name.toList with
  | [] => false
  | c :: cs => isIdentStart c && cs.all isIdentPart

end OverloadDocs.Text
