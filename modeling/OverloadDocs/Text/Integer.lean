/-!
Whole numbers as settings spell them: a sign, a prefix for another base, and digits that underscores may
separate. The number has to fit 64 bits.
-/

namespace OverloadDocs.Text

/-- The value of a digit, letters going on after nine. -/
def digitValue? (c : Char) : Option Nat :=
  if '0' ≤ c ∧ c ≤ '9' then some (c.toNat - '0'.toNat)
  else if 'a' ≤ c ∧ c ≤ 'z' then some (c.toNat - 'a'.toNat + 10)
  else if 'A' ≤ c ∧ c ≤ 'Z' then some (c.toNat - 'A'.toNat + 10)
  else none

/-- The number that digits of a base spell, from the number before them. -/
def digitsFrom (base : Nat) : Nat → List Char → Option Nat
  | n, [] => some n
  | n, c :: cs =>
    match digitValue? c with
    | some d => if d < base then digitsFrom base (base * n + d) cs else none
    | none => none

/-- Digits without the underscores that separate them; each has to stand between two digits, or after
the prefix. -/
def separated? (afterDigit : Bool) : List Char → Option (List Char)
  | [] => if afterDigit then some [] else none
  | '_' :: cs =>
    match afterDigit, cs with
    | true, c :: _ => if c == '_' then none else separated? false cs
    | _, _ => none
  | c :: cs => (separated? true cs).map (c :: ·)

/-- The base of the number that a text without a sign spells, and its digits: a zero in front is the prefix
of the base eight, and with a letter after it of another one. -/
def digitsOf (cs : List Char) : Nat × List Char :=
  match cs with
  | '0' :: x :: d :: rest =>
    if x == 'x' || x == 'X' then (16, d :: rest)
    else if x == 'b' || x == 'B' then (2, d :: rest)
    else if x == 'o' || x == 'O' then (8, d :: rest)
    else (8, x :: d :: rest)
  | '0' :: rest => (8, rest)
  | cs => (10, cs)

def natural? (cs : List Char) : Option Nat :=
  let (base, digits) := digitsOf cs
  (separated? (decide (base ≠ 10)) digits).bind (digitsFrom base 0)

/-- Whether a text has a minus sign, and the text without its sign. -/
def splitSign : List Char → Bool × List Char
  | '-' :: rest => (true, rest)
  | '+' :: rest => (false, rest)
  | cs => (false, cs)

/-- The number that digits of a base spell after a sign. -/
def signedDigits? (base : Nat) (cs : List Char) : Option Int :=
  let (negative, digits) := splitSign cs
  match digits with
  | [] => none
  | _ =>
    match digitsFrom base 0 digits with
    | none => none
    | some n =>
      if negative then (if n ≤ Nat.pow 2 63 then some (-(n : Int)) else none)
      else if n < Nat.pow 2 63 then some n else none

/-- The number without a sign that a text spells, with one more binary digit. -/
def unsigned? (cs : List Char) : Option Int :=
  match natural? cs with
  | some n => if n < Nat.pow 2 64 then some n else none
  | none => none

/-- Whether the number at the front of a text does not fit 64 binary digits, whatever follows it. -/
def runsOver (cs : List Char) : Bool :=
  let (base, digits) := digitsOf cs
  let isDigit (c : Char) := ((digitValue? c).map fun d => decide (d < base)).getD false
  let front := (digits.takeWhile fun c => c == '_' || isDigit c).filter (· ≠ '_')
  ((digitsFrom base 0 front).map fun n => decide (Nat.pow 2 64 ≤ n)).getD false

/-- Whether a text is refused as a number for being too large, not for what it is made of. -/
def isTooLarge (cs : List Char) : Bool :=
  let digits := (splitSign cs).2
  runsOver digits || (natural? digits).isSome

def integer? (cs : List Char) : Option Int :=
  let (negative, digits) := splitSign cs
  match natural? digits with
  | none => none
  | some n =>
    if negative then (if n ≤ Nat.pow 2 63 then some (-(n : Int)) else none)
    else if n < Nat.pow 2 63 then some n else none

end OverloadDocs.Text
