/-!
Version numbers: three numbers, the last two of which may be left out, then an optional pre-release and
optional metadata. Metadata does not count when versions are compared.
-/

namespace OverloadDocs

structure Version where
  major : Nat := 0
  minor : Nat := 0
  patch : Nat := 0
  pre : List (List Char) := []
  metadata : List Char := []
  deriving DecidableEq, Inhabited

namespace Version

/-- What can be wrong with the text of a version. -/
inductive Fault where
  | malformed
  | leadingZero
  | tooLarge (digits : String)
  deriving DecidableEq

def Fault.message : Fault → String
  | .malformed => "Invalid Semantic Version"
  | .leadingZero => "Version segment starts with 0"
  | .tooLarge digits =>
    s!"Error parsing version segment: strconv.ParseUint: parsing \"{digits}\": value out of range"

def render (v : Version) : String :=
  let pre := if v.pre.isEmpty then [] else '-' :: ['.'].intercalate v.pre
  let metadata := if v.metadata.isEmpty then [] else '+' :: v.metadata
  s!"{v.major}.{v.minor}.{v.patch}" ++ String.ofList (pre ++ metadata)

def isLabelChar (c : Char) : Bool := c.isDigit || c.isAlpha || c == '-'

def areLabels (parts : List (List Char)) : Bool :=
  parts.all fun part => !part.isEmpty && part.all isLabelChar

def isNumber (cs : List Char) : Bool := !cs.isEmpty && cs.all Char.isDigit

def numberOf (cs : List Char) : Nat := Nat.ofDigitChars 10 cs 0

/-- The first number of a version that does not fit 64 bits. -/
def tooLarge? (numbers : List (List Char)) : Option (List Char) :=
  numbers.find? fun n => Nat.pow 2 64 ≤ numberOf n

def parse (text : String) : Except Fault Version :=
  let cs := match text.toList with
    | 'v' :: cs => cs
    | cs => cs
  let core := cs.takeWhile fun c => c ≠ '-' ∧ c ≠ '+'
  let after := cs.dropWhile fun c => c ≠ '-' ∧ c ≠ '+'
  let (pre, metadata) := match after with
    | '-' :: rest =>
      (some (rest.takeWhile (· ≠ '+')), (rest.dropWhile (· ≠ '+')))
    | rest => (none, rest)
  let preParts := (pre.map (·.splitOn '.')).getD []
  let metadata := match metadata with
    | '+' :: rest => some rest
    | _ => none
  let numbers := core.splitOn '.'
  if !(numbers.all isNumber && numbers.length ≤ 3 && areLabels preParts &&
      (metadata.all fun m => areLabels (m.splitOn '.'))) then .error .malformed
  else match tooLarge? numbers with
    | some digits => .error (.tooLarge (String.ofList digits))
    | none =>
      if preParts.any fun p => isNumber p && p.length > 1 && p.head? == some '0' then
        .error .leadingZero
      else
        .ok {
          major := numberOf (numbers.getD 0 [])
          minor := numberOf (numbers.getD 1 [])
          patch := numberOf (numbers.getD 2 [])
          pre := preParts
          metadata := metadata.getD [] }

/-- Whether a part of a pre-release counts as a number. -/
def isComparedAsNumber (part : List Char) : Bool := isNumber part && numberOf part < Nat.pow 2 64

/-- Compares parts of pre-releases: numbers among each other by value and below other labels. -/
def compareParts (a b : List Char) : Ordering :=
  if a = b then .eq
  else match isComparedAsNumber a, isComparedAsNumber b with
    | false, false => if String.ofList b < String.ofList a then .gt else .lt
    | true, false => .lt
    | false, true => .gt
    | true, true => if numberOf b < numberOf a then .gt else .lt

/-- Compares pre-releases part by part; one that has more parts is above. -/
def comparePre : List (List Char) → List (List Char) → Ordering
  | [], [] => .eq
  | [], _ :: _ => .lt
  | _ :: _, [] => .gt
  | a :: as, b :: bs => (compareParts a b).then (comparePre as bs)

/-- Compares versions; a pre-release is below its release. -/
def compare (v w : Version) : Ordering :=
  (Ord.compare v.major w.major).then <|
    (Ord.compare v.minor w.minor).then <|
      (Ord.compare v.patch w.patch).then <|
        match v.pre, w.pre with
        | [], [] => .eq
        | [], _ => .gt
        | _, [] => .lt
        | a, b => comparePre a b

end Version

end OverloadDocs
