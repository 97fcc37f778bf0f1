import OverloadDocs.Yaml.Value

/-!
Reading YAML text that holds a map.
-/

namespace OverloadDocs.Yaml

/-- A character that may stand in a text. -/
def isAllowed (c : Char) : Bool :=
  c == '\t' || c == '\n' || (' ' ≤ c && c ≤ '~') || c == '\u0085' || ('\u00a0' ≤ c && c ≠ '\ufffe' && c ≠ '\uffff')

/-- A text with every carriage return, and a line feed after it, turned into one line feed. -/
def plainBreaks : List Char → List Char
  | [] => []
  | '\r' :: '\n' :: cs => '\n' :: plainBreaks cs
  | '\r' :: cs => '\n' :: plainBreaks cs
  | c :: cs => c :: plainBreaks cs

/-- A text without the mark of its encoding. -/
def withoutMark : List Char → List Char
  | '\ufeff' :: cs => cs
  | cs => cs

/-- The entries of the map that the first document of a text is; nothing is the empty map. -/
def entries (text : String) : Except YamlError (List (String × Yaml)) :=
  let cs := plainBreaks (withoutMark text.toList)
  if !cs.all isAllowed then .error (.malformed none .controlCharacter)
  else (Node.ofText cs).bind Node.rootEntries

end OverloadDocs.Yaml
