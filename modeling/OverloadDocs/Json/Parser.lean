import OverloadDocs.Json.Basic

/-!
Reading JSON text. The whole text has to be one value; values may be nested ten thousand deep.
-/

namespace OverloadDocs.Json

def maxDepth : Nat := 10000

def isSpace (c : Char) : Bool := c == ' ' || c == '\t' || c == '\n' || c == '\r'

def skipSpace (cs : List Char) : List Char := cs.dropWhile isSpace

def hexValue? (c : Char) : Option Nat :=
  if '0' ≤ c ∧ c ≤ '9' then some (c.toNat - '0'.toNat)
  else if 'a' ≤ c ∧ c ≤ 'f' then some (c.toNat - 'a'.toNat + 10)
  else if 'A' ≤ c ∧ c ≤ 'F' then some (c.toNat - 'A'.toNat + 10)
  else none

/-- The number that four hexadecimal digits spell. -/
def hexUnit? (a b c d : Char) : Option Nat := do
  return (((← hexValue? a) * 16 + (← hexValue? b)) * 16 + (← hexValue? c)) * 16 + (← hexValue? d)

/-- Whether a unit is the first half of a surrogate pair. -/
def isHighUnit (n : Nat) : Bool := 0xd800 ≤ n && n < 0xdc00

/-- Whether a unit is the second half of a surrogate pair. -/
def isLowUnit (n : Nat) : Bool := 0xdc00 ≤ n && n < 0xe000

/-- The characters of code units: a surrogate pair is one character, and half of a pair that stands
alone is replaced. -/
def joinUnits : List Nat → List Char
  | high :: low :: units =>
    if isHighUnit high && isLowUnit low then
      Char.ofNat ((high - 0xd800) * 0x400 + (low - 0xdc00) + 0x10000) :: joinUnits units
    else if isHighUnit high || isLowUnit high then '\ufffd' :: joinUnits (low :: units)
    else Char.ofNat high :: joinUnits (low :: units)
  | [unit] => [if isHighUnit unit || isLowUnit unit then '\ufffd' else Char.ofNat unit]
  | [] => []

/-- The character that a backslash and this letter stand for. -/
def shortEscape? : Char → Option Char
  | '"' => some '"'
  | '\\' => some '\\'
  | '/' => some '/'
  | 'b' => some '\x08'
  | 'f' => some '\x0c'
  | 'n' => some '\n'
  | 'r' => some '\r'
  | 't' => some '\t'
  | _ => none

/-- Reads a string after its opening quote, as code units. -/
def readUnits : List Char → Option (List Nat × List Char)
  | [] => none
  | '"' :: rest => some ([], rest)
  | '\\' :: 'u' :: a :: b :: c :: d :: rest => do
    let unit ← hexUnit? a b c d
    let (units, after) ← readUnits rest
    return (unit :: units, after)
  | '\\' :: c :: rest => do
    let c ← shortEscape? c
    let (units, after) ← readUnits rest
    return (c.toNat :: units, after)
  | c :: rest => do
    if c.toNat < 0x20 then none
    let (units, after) ← readUnits rest
    return (c.toNat :: units, after)

def readString (cs : List Char) : Option (List Char × List Char) :=
  (readUnits cs).map fun (units, rest) => (joinUnits units, rest)

def leadingDigits (cs : List Char) : List Char := cs.takeWhile Char.isDigit

/-- The whole part of a number: zero, or digits that do not start with zero. -/
def readWhole (cs : List Char) : Option (List Char × List Char) :=
  match leadingDigits cs with
  | [] => none
  | ['0'] => some (['0'], cs.drop 1)
  | '0' :: _ => some (['0'], cs.drop 1)
  | digits => some (digits, cs.drop digits.length)

def readDecimals : List Char → Option (List Char × List Char)
  | '.' :: cs =>
    match leadingDigits cs with
    | [] => none
    | digits => some (digits, cs.drop digits.length)
  | cs => some ([], cs)

def readExponent : List Char → Option (Option Int × List Char)
  | e :: cs =>
    if e = 'e' ∨ e = 'E' then
      let (negative, cs) := match cs with
        | '-' :: cs => (true, cs)
        | '+' :: cs => (false, cs)
        | cs => (false, cs)
      match leadingDigits cs with
      | [] => none
      | digits =>
        let n : Int := Nat.ofDigitChars 10 digits 0
        some (some (if negative then -n else n), cs.drop digits.length)
    else some (none, e :: cs)
  | [] => some (none, [])

/-- The power of ten beyond which every number is infinite or zero. -/
def farScale : Int := 400

/-- The value of a number with decimals or an exponent. -/
def scientific (negative : Bool) (digits decimals : List Char) (exponent : Int) : Float :=
  let mantissa := Nat.ofDigitChars 10 (digits ++ decimals) 0
  let scale := exponent - decimals.length
  let x :=
    if mantissa = 0 ∨ scale < -(farScale + digits.length + decimals.length) then 0
    else if farScale < scale then 1 / 0
    else Float.ofScientific mantissa (scale < 0) scale.natAbs
  if negative then -x else x

def readNumber (cs : List Char) : Option (Json × List Char) := do
  let (negative, unsigned) := match cs with
    | '-' :: rest => (true, rest)
    | _ => (false, cs)
  let (digits, rest) ← readWhole unsigned
  let (decimals, rest) ← readDecimals rest
  let (exponent, rest) ← readExponent rest
  if decimals.isEmpty && exponent.isNone then
    let n : Int := Nat.ofDigitChars 10 digits 0
    return (.int (if negative then -n else n), rest)
  return (.float (scientific negative digits decimals (exponent.getD 0)), rest)

/-- Reads a value that has no parts. -/
def readScalar : List Char → Option (Json × List Char)
  | 'n' :: 'u' :: 'l' :: 'l' :: rest => some (.null, rest)
  | 't' :: 'r' :: 'u' :: 'e' :: rest => some (.bool true, rest)
  | 'f' :: 'a' :: 'l' :: 's' :: 'e' :: rest => some (.bool false, rest)
  | '"' :: rest => (readString rest).map fun (text, after) => (.str (String.ofList text), after)
  | cs => readNumber cs

/-- Reads the key of a member and the colon after it. -/
def readKey (input : List Char) : Option (String × List Char) :=
  match skipSpace input with
  | '"' :: cs =>
    match readString cs with
    | none => none
    | some (key, afterKey) =>
      match skipSpace afterKey with
      | ':' :: cs => some (String.ofList key, cs)
      | _ => none
  | _ => none

mutual

/-- Reads a value with at most so many levels below it. The fuel bounds the calls inside one another. -/
def readValue : (fuel depth : Nat) → List Char → Option (Json × List Char)
  | 0, _, _ => none
  | fuel + 1, depth, input =>
    match skipSpace input with
    | '[' :: cs =>
      match depth, skipSpace cs with
      | 0, _ => none
      | _ + 1, ']' :: rest => some (.arr [], rest)
      | depth + 1, _ => (readItems fuel depth cs).map fun (items, rest) => (.arr items, rest)
    | '\x7b' :: cs =>
      match depth, skipSpace cs with
      | 0, _ => none
      | _ + 1, '\x7d' :: rest => some (.obj [], rest)
      | depth + 1, _ => (readMembers fuel depth cs).map fun (members, rest) => (.obj members, rest)
    | cs => readScalar cs

def readItems : (fuel depth : Nat) → List Char → Option (List Json × List Char)
  | 0, _, _ => none
  | fuel + 1, depth, input =>
    match readValue fuel depth input with
    | none => none
    | some (item, rest) =>
      match skipSpace rest with
      | ',' :: cs => (readItems fuel depth cs).map fun (items, rest) => (item :: items, rest)
      | ']' :: cs => some ([item], cs)
      | _ => none

def readMembers : (fuel depth : Nat) → List Char → Option (List (String × Json) × List Char)
  | 0, _, _ => none
  | fuel + 1, depth, input =>
    match readKey input with
    | none => none
    | some (key, cs) =>
      match readValue fuel depth cs with
      | none => none
      | some (value, rest) =>
        match skipSpace rest with
        | ',' :: cs =>
          (readMembers fuel depth cs).map fun (members, rest) => ((key, value) :: members, rest)
        | '\x7d' :: cs => some ([(key, value)], cs)
        | _ => none

end

/-- The value that a text spells. Between a call and the next one inside it but one, a character is
taken, so that twice the length is fuel enough. -/
def parse? (text : String) : Option Json :=
  match readValue (2 * text.length + 2) maxDepth text.toList with
  | some (value, rest) => if (skipSpace rest).isEmpty then some value else none
  | none => none

end OverloadDocs.Json
