/-!
Timestamps among unquoted scalars: a date, or a date and a time of day. After a letter between them a zone
follows the time, after blanks none does. Fields may have one digit, except the year.
-/

namespace OverloadDocs.Yaml

/-- A number of one or two digits at the front of a text, and the rest. -/
def shortNumber? : List Char → Option (Nat × List Char)
  | a :: b :: rest =>
    if !a.isDigit then none
    else if b.isDigit then some (Nat.ofDigitChars 10 [a, b] 0, rest)
    else some (Nat.ofDigitChars 10 [a] 0, b :: rest)
  | [a] => if a.isDigit then some (Nat.ofDigitChars 10 [a] 0, []) else none
  | [] => none

def isLeapYear (year : Nat) : Bool := year % 4 == 0 && (year % 100 != 0 || year % 400 == 0)

/-- How many days a month has; no month has none. -/
def daysIn (year month : Nat) : Nat :=
  if month = 2 then (if isLeapYear year then 29 else 28)
  else if month = 4 ∨ month = 6 ∨ month = 9 ∨ month = 11 then 30
  else if 1 ≤ month ∧ month ≤ 12 then 31
  else 0

/-- The rest of a text after a date at its front. -/
def afterDate? (cs : List Char) : Option (List Char) :=
  let year := cs.takeWhile Char.isDigit
  match cs.drop year.length with
  | '-' :: rest =>
    match shortNumber? rest with
    | some (month, '-' :: rest) =>
      match shortNumber? rest with
      | some (day, rest) =>
        if year.length = 4 ∧ 1 ≤ day ∧ day ≤ daysIn (Nat.ofDigitChars 10 year 0) month then some rest
        else none
      | none => none
    | _ => none
  | _ => none

/-- The rest of a text after a fraction of a second, if there is one. -/
def afterFraction : List Char → List Char
  | p :: d :: rest =>
    if (p == '.' || p == ',') && d.isDigit then rest.dropWhile Char.isDigit else p :: d :: rest
  | cs => cs

/-- The rest of a text after a time of day at its front. -/
def afterTime? (cs : List Char) : Option (List Char) :=
  match shortNumber? cs with
  | some (hour, ':' :: rest) =>
    match shortNumber? rest with
    | some (minute, ':' :: rest) =>
      match shortNumber? rest with
      | some (second, rest) =>
        if hour < 24 ∧ minute < 60 ∧ second < 60 then some (afterFraction rest) else none
      | none => none
    | _ => none
  | _ => none

def isZone : List Char → Bool
  | ['Z'] => true
  | [sign, a, b, ':', c, d] =>
    (sign == '+' || sign == '-') && [a, b, c, d].all Char.isDigit &&
      Nat.ofDigitChars 10 [a, b] 0 ≤ 24 && Nat.ofDigitChars 10 [c, d] 0 ≤ 60
  | _ => false

def isTimestamp (cs : List Char) : Bool :=
  match afterDate? cs with
  | none => false
  | some [] => true
  | some (c :: time) =>
    if c == 'T' || c == 't' then ((afterTime? time).map isZone).getD false
    else c == ' ' && ((afterTime? (time.dropWhile (· == ' '))).map List.isEmpty).getD false

end OverloadDocs.Yaml
