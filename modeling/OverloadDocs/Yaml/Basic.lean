import OverloadDocs.Binary64
import OverloadDocs.Text.Integer
import OverloadDocs.Yaml.Timestamp

/-!
Values of the YAML data model, and what an unquoted scalar is taken for.
-/

namespace OverloadDocs

/-- A YAML value. Of a map only the entries are kept whose keys are texts. -/
inductive Yaml where
  | null
  | bool (b : Bool)
  | int (n : Int)
  | float (x : Binary64)
  | timestamp (text : String)
  | str (s : String)
  | seq (items : List Yaml)
  | map (entries : List (String × Yaml))
  deriving Inhabited

namespace Yaml

/-- What an unquoted scalar is taken for. -/
inductive Plain where
  | null
  | bool (b : Bool)
  | int (n : Int)
  | float (x : Binary64)
  | timestamp
  | merge
  | text

/-- Splits digits at the front of a text. -/
def takeDigits (cs : List Char) : List Char × List Char := (cs.takeWhile Char.isDigit, cs.dropWhile Char.isDigit)

/-- The exponent that ends a number: nothing is zero. -/
def exponent? (cs : List Char) : Option Int :=
  match cs with
  | [] => some 0
  | e :: cs =>
    if e == 'e' || e == 'E' then
      let (negative, digits) := Text.splitSign cs
      if digits.isEmpty || !digits.all Char.isDigit then none
      else
        let n : Int := Nat.ofDigitChars 10 digits 0
        some (if negative then -n else n)
    else none

/-- The number that a text spells in decimals, with or without a point and an exponent, unless it is too
large. -/
def decimal? (cs : List Char) : Option Binary64 :=
  let (negative, cs) := Text.splitSign cs
  let (whole, rest) := takeDigits cs
  let (fraction, rest) := match rest with
    | '.' :: rest => takeDigits rest
    | rest => ([], rest)
  if whole.isEmpty && fraction.isEmpty then none
  else (exponent? rest).bind fun e =>
    Binary64.ofDecimal? negative (Nat.ofDigitChars 10 (whole ++ fraction) 0) (e - fraction.length)

/-- The number after a prefix for the base two or eight; a sign may stand after the prefix. -/
def prefixed? (cs : List Char) : Option Int :=
  match cs with
  | '0' :: 'b' :: digits => Text.signedDigits? 2 digits
  | '0' :: 'o' :: digits => Text.signedDigits? 8 digits
  | '-' :: '0' :: 'b' :: digits => Text.signedDigits? 2 ('-' :: digits)
  | '-' :: '0' :: 'o' :: digits => Text.signedDigits? 8 ('-' :: digits)
  | _ => none

/-- The number that a text spells which begins with a digit or a sign. Underscores do not count. -/
def number? (cs : List Char) : Option Plain :=
  let digits := cs.filter (· ≠ '_')
  ((Text.integer? digits).map Plain.int).orElse fun _ =>
  ((Text.unsigned? digits).map Plain.int).orElse fun _ =>
  ((decimal? digits).map Plain.float).orElse fun _ =>
  (prefixed? digits).map Plain.int

/-- A text without the underscores between its digits, unless some stand elsewhere. -/
def withoutSeparators? (before : Option Char) : List Char → Option (List Char)
  | [] => some []
  | '_' :: cs =>
    if (before.map Char.isDigit).getD false && (cs.head?.map Char.isDigit).getD false then
      withoutSeparators? (some '_') cs
    else none
  | c :: cs => (withoutSeparators? (some c) cs).map (c :: ·)

def nullWords : List String := ["", "~", "null", "Null", "NULL"]

def trueWords : List String := ["true", "True", "TRUE"]

def falseWords : List String := ["false", "False", "FALSE"]

def nanWords : List String := [".nan", ".NaN", ".NAN"]

def infinityWords : List String := [".inf", ".Inf", ".INF", "+.inf", "+.Inf", "+.INF"]

def negativeInfinityWords : List String := ["-.inf", "-.Inf", "-.INF"]

/-- The key under which other maps are merged into a map. -/
def mergeKey : String := "<<"

/-- What a word stands for. -/
def word? (text : String) : Option Plain :=
  if nullWords.contains text then some .null
  else if trueWords.contains text then some (.bool true)
  else if falseWords.contains text then some (.bool false)
  else if nanWords.contains text then some (.float .nan)
  else if infinityWords.contains text then some (.float (.infinite false))
  else if negativeInfinityWords.contains text then some (.float (.infinite true))
  else if text = mergeKey then some .merge
  else none

/-- What an unquoted scalar is taken for that may not be a timestamp. -/
def Plain.ofUntimed (cs : List Char) : Plain :=
  match word? (String.ofList cs), cs with
  | some plain, _ => plain
  | none, [] => .text
  | none, c :: _ =>
    if c == '.' then (((withoutSeparators? none cs).bind decimal?).map Plain.float).getD .text
    else if c.isDigit || c == '+' || c == '-' then (number? cs).getD .text
    else .text

/-- What an unquoted scalar is taken for. -/
def Plain.of (cs : List Char) : Plain := if isTimestamp cs then .timestamp else Plain.ofUntimed cs

def isNull : Yaml → Bool
  | .null => true
  | _ => false

end Yaml

end OverloadDocs
