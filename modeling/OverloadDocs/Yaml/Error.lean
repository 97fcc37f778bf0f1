import OverloadDocs.Text.Quoted

/-!
What can be wrong with YAML text, and how it is told. A text is refused for its characters, for the order of
its tokens, or because its nodes have no value where they stand.
-/

namespace OverloadDocs

namespace Yaml

/-- What is wrong at a place of a text. -/
inductive Problem where
  | controlCharacter
  | noToken
  | colonMissing
  | itemNotAllowed
  | keyNotAllowed
  | valueNotAllowed
  | tooDeep (most : Nat)
  | nameMissing
  | directiveMissing
  | directiveRunsOn
  | directiveUnknown
  | lineEndMissing
  | versionMissing
  | versionTooLong
  | versionPointMissing
  | handleMarkMissing
  | blankMissing
  | gapMissing
  | tagMissing
  | tagCloseMissing
  | octetMissing
  | leadingOctet
  | trailingOctet
  | zeroIndentation
  | tabInIndentation
  | tabBeforeWord
  | documentInside
  | endInside
  | escapeUnknown
  | escapeDigitsMissing
  | escapeInvalid
  | documentStartMissing
  | contentMissing
  | dashMissing
  | keyMissing
  | bracketMissing
  | braceMissing
  | handleUndefined
  | handleTwice
  | versionTwice
  | versionUnknown
  deriving DecidableEq

def Problem.message : Problem → String
  | .controlCharacter => "control characters are not allowed"
  | .noToken => "found character that cannot start any token"
  | .colonMissing => "could not find expected ':'"
  | .itemNotAllowed => "block sequence entries are not allowed in this context"
  | .keyNotAllowed => "mapping keys are not allowed in this context"
  | .valueNotAllowed => "mapping values are not allowed in this context"
  | .tooDeep most => s!"exceeded max depth of {most}"
  | .nameMissing => "did not find expected alphabetic or numeric character"
  | .directiveMissing => "could not find expected directive name"
  | .directiveRunsOn => "found unexpected non-alphabetical character"
  | .directiveUnknown => "found unknown directive name"
  | .lineEndMissing => "did not find expected comment or line break"
  | .versionMissing => "did not find expected version number"
  | .versionTooLong => "found extremely long version number"
  | .versionPointMissing => "did not find expected digit or '.' character"
  | .handleMarkMissing => "did not find expected '!'"
  | .blankMissing => "did not find expected whitespace"
  | .gapMissing => "did not find expected whitespace or line break"
  | .tagMissing => "did not find expected tag URI"
  | .tagCloseMissing => "did not find the expected '>'"
  | .octetMissing => "did not find URI escaped octet"
  | .leadingOctet => "found an incorrect leading UTF-8 octet"
  | .trailingOctet => "found an incorrect trailing UTF-8 octet"
  | .zeroIndentation => "found an indentation indicator equal to 0"
  | .tabInIndentation => "found a tab character where an indentation space is expected"
  | .tabBeforeWord => "found a tab character that violates indentation"
  | .documentInside => "found unexpected document indicator"
  | .endInside => "found unexpected end of stream"
  | .escapeUnknown => "found unknown escape character"
  | .escapeDigitsMissing => "did not find expected hexdecimal number"
  | .escapeInvalid => "found invalid Unicode character escape code"
  | .documentStartMissing => "did not find expected <document start>"
  | .contentMissing => "did not find expected node content"
  | .dashMissing => "did not find expected '-' indicator"
  | .keyMissing => "did not find expected key"
  | .bracketMissing => "did not find expected ',' or ']'"
  | .braceMissing => "did not find expected ',' or '\x7d'"
  | .handleUndefined => "found undefined tag handle"
  | .handleTwice => "found duplicate %TAG directive"
  | .versionTwice => "found duplicate %YAML directive"
  | .versionUnknown => "found incompatible YAML document"

/-- What a value can be wanted for. -/
inductive Wanted where
  | map
  | text
  deriving DecidableEq

def listType : String := "[]interface \x7b\x7d"

/-- The name of the type of maps, whose keys may be restricted to texts. -/
def mapType (texts : Bool) : String :=
  if texts then "map[string]interface \x7b\x7d" else "map[interface \x7b\x7d]interface \x7b\x7d"

def Wanted.render : Wanted → String
  | .map => mapType true
  | .text => "string"

/-- A node that does not fit where it stands: a key that its map has already, or a node of another type than
the wanted one, with its tag and, if it is a scalar, its text. -/
inductive Mismatch where
  | repeatedKey (line : Nat) (key : String) (first : Nat)
  | otherType (line : Nat) (tag : String) (text : Option String) (wanted : Wanted)
  deriving DecidableEq

/-- A text as it is shown in a message: of a long one only the first bytes. -/
def excerpt (text : String) : String :=
  if 10 < text.utf8ByteSize then Text.ofBytes ((Text.bytesOfChars text.toList).take 7) ++ "..." else text

def Mismatch.message : Mismatch → String
  | .repeatedKey line key first => s!"line {line}: mapping key {Text.quoted key} already defined at line {first}"
  | .otherType line tag text wanted =>
    let shown := match text with
      | some text => " `" ++ excerpt text ++ "`"
      | none => ""
    s!"line {line}: cannot unmarshal {tag}{shown} into {wanted.render}"

end Yaml

/-- Why a YAML text cannot be read. -/
inductive YamlError where
  | malformed (line : Option Nat) (problem : Yaml.Problem)
  | unknownAnchor (name : String)
  | endlessAlias (name : String)
  | excessiveAliases
  | mergedOther
  | unfitScalar (found text wanted : String)
  | invalidBase64
  | keyOfType (type : String)
  | collectionKey (shown : String)
  | mismatches (all : List Yaml.Mismatch)
  deriving DecidableEq

namespace YamlError

/-- Which of two lines is told: that of the beginning of what is read, or else the one that has been reached.
The first line of a text is not told. -/
def toldLine? (start here : Nat) : Option Nat :=
  if start ≠ 0 then some start else if here ≠ 0 then some here else none

/-- A problem with characters. -/
def ofCharacters (start here : Nat) (problem : Yaml.Problem) : YamlError :=
  .malformed ((toldLine? start here).map (· + 1)) problem

/-- A problem with tokens, whose lines are counted from zero. -/
def ofTokens (start here : Nat) (problem : Yaml.Problem) : YamlError :=
  .malformed (toldLine? start here) problem

def message (e : YamlError) : String :=
  "yaml: " ++ match e with
    | .malformed none problem => problem.message
    | .malformed (some line) problem => s!"line {line}: {problem.message}"
    | .unknownAnchor name => s!"unknown anchor '{name}' referenced"
    | .endlessAlias name => s!"anchor '{name}' value contains itself"
    | .excessiveAliases => "document contains excessive aliasing"
    | .mergedOther => "map merge requires map or sequence of maps as the value"
    | .unfitScalar found text wanted => s!"cannot decode {found} `{text}` as a {wanted}"
    | .invalidBase64 => "!!binary value contains invalid base64 data"
    | .keyOfType type => s!"runtime error: hash of unhashable type {type}"
    | .collectionKey shown => s!"invalid map key: {shown}"
    | .mismatches all => "unmarshal errors:" ++ String.join (all.map fun m => "\n  " ++ m.message)

end YamlError

end OverloadDocs
