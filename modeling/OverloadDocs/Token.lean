import OverloadDocs.Text.Identifier
import OverloadDocs.Text.Quoted

/-!
Tokens of the signature language. `Token.scan` cuts a text into tokens that remember where they
start, in bytes; blanks separate tokens and are dropped. Nothing is refused here: a character
outside the language becomes one illegal token for each of its bytes.
-/

namespace OverloadDocs

/-- What a token is. -/
inductive Lexeme where
  | ident (name : String)
  | openBracket
  | closeBracket
  | openParen
  | closeParen
  | comma
  | semicolon
  | illegal (byte : UInt8)
  deriving DecidableEq

/-- How diagnostics name a token that was found. -/
def Lexeme.describe : Lexeme → String
  | .ident name => "identifier " ++ Text.quoted name
  | .openBracket => "'['"
  | .closeBracket => "']'"
  | .openParen => "'('"
  | .closeParen => "')'"
  | .comma => "','"
  | .semicolon => "';'"
  | .illegal byte => "illegal character " ++ Text.quotedByte byte

/-- A lexeme and the byte offset at which it starts. -/
structure Token where
  lexeme : Lexeme
  offset : Nat
  deriving DecidableEq

namespace Token

def isSpace (c : Char) : Bool := c == ' ' || ('\t' ≤ c && c ≤ '\r')

/-- The lexemes of one character that is neither a blank nor part of an identifier. -/
def symbols (c : Char) : List Lexeme :=
  match c with
  | '[' => [.openBracket]
  | ']' => [.closeBracket]
  | '(' => [.openParen]
  | ')' => [.closeParen]
  | ',' => [.comma]
  | ';' => [.semicolon]
  | c => (String.utf8EncodeChar c).map .illegal

/-- The tokens of the text that starts at a byte offset. -/
def scanFrom (offset : Nat) : List Char → List Token
  | [] => []
  | c :: cs =>
    if isSpace c then scanFrom (offset + 1) cs
    else if Text.isIdentStart c then
      let name := c :: cs.takeWhile Text.isIdentPart
      ⟨.ident (String.ofList name), offset⟩ ::
        scanFrom (offset + name.length) (cs.dropWhile Text.isIdentPart)
    else
      (symbols c).mapIdx (fun i lexeme => ⟨lexeme, offset + i⟩) ++ scanFrom (offset + c.utf8Size) cs
termination_by cs => cs.length
decreasing_by
  all_goals simp only [List.length_cons]
  · exact Nat.lt_succ_self _
  · exact Nat.lt_succ_of_le (List.dropWhile_suffix _).length_le
  · exact Nat.lt_succ_self _

def scan (text : String) : List Token := scanFrom 0 text.toList

end Token

end OverloadDocs
