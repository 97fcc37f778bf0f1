import OverloadDocs.Location
import OverloadDocs.Token

/-!
What the grammar reports about a text that it rejects: the text, the token at which it gave up, and
what it wanted there.
-/

namespace OverloadDocs

/-- What was wanted at the token where reading stopped. -/
inductive Expectation where
  | type
  | identifier
  | openBracket
  | openParen
  | closeParen
  | dimensions
  | tupleElement
  | functionName
  | parameterName
  | nothing
  deriving DecidableEq

/-- How diagnostics name what was found; nothing left is the end of the input. -/
def describeFound : Option Lexeme → String
  | none => "end of input"
  | some lexeme => lexeme.describe

/-- The word that was found where no keyword may stand. -/
def foundWord : Option Lexeme → String
  | some (.ident name) => Text.quoted name
  | found => describeFound found

/-- The wording of what was wanted and what was found. -/
def Expectation.explain (found : Option Lexeme) : Expectation → String
  | .type => "expected type, found " ++ describeFound found
  | .identifier => "expected identifier, found " ++ describeFound found
  | .openBracket => "expected '[', found " ++ describeFound found
  | .openParen => "expected '(', found " ++ describeFound found
  | .closeParen => "expected ')', found " ++ describeFound found
  | .dimensions => "array dimensions may only contain commas, found " ++ describeFound found
  | .tupleElement => "tuple must have at least one element type"
  | .functionName => foundWord found ++ " is a type keyword, not a function name"
  | .parameterName => foundWord found ++ " is a type keyword, not a parameter name"
  | .nothing => "unexpected " ++ describeFound found ++ " after end of declaration"

/-- A rejected text: where reading stopped, as a byte offset, what was wanted and what was found
there, and the place of the text itself when it is known. -/
structure SyntaxError where
  text : String
  offset : Nat
  expected : Expectation
  found : Option Lexeme
  source : Location := {}
  deriving DecidableEq

namespace SyntaxError

def detail (e : SyntaxError) : String := e.expected.explain e.found

def message (e : SyntaxError) : String :=
  let report := s!"syntax error at offset {e.offset} in {Text.quoted e.text}: {e.detail}"
  if e.source.render = "" then report else e.source.render ++ ": " ++ report

end SyntaxError

end OverloadDocs
