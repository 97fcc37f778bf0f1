import OverloadDocs.Text.Fixed

/-!
Numbers with 53 binary digits. Decimals are read to the nearest such number, a tie going to the even
mantissa, and numbers are written with the fewest decimal digits that read back.
-/

namespace OverloadDocs

/-- A number `mantissa * 2 ^ exponent` with a sign, or one that is not finite. -/
inductive Binary64 where
  | finite (negative : Bool) (mantissa : Nat) (exponent : Int)
  | infinite (negative : Bool)
  | nan
  deriving DecidableEq, Inhabited

namespace Binary64

/-- A positive fraction over a power of a base. -/
def scaledBy (base num den : Nat) (exponent : Int) : Nat × Nat :=
  if 0 ≤ exponent then (num, den * Nat.pow base exponent.toNat)
  else (num * Nat.pow base (-exponent).toNat, den)

/-- The least exponent with which the whole part of a positive fraction has at most 53 binary digits. -/
def exponentFor (num den : Nat) : Int :=
  let low : Int := (num.log2 : Int) - den.log2 - 53
  let (n, d) := scaledBy 2 num den low
  max (-1074) (if n / d < Nat.pow 2 53 then low else low + 1)

/-- The mantissa and exponent nearest to a positive fraction, unless it is too large. -/
def nearest? (num den : Nat) : Option (Nat × Int) :=
  let exponent := exponentFor num den
  let (n, d) := scaledBy 2 num den exponent
  let mantissa := Text.roundedQuotient n d
  let (mantissa, exponent) :=
    if mantissa = Nat.pow 2 53 then (Nat.pow 2 52, exponent + 1) else (mantissa, exponent)
  if 971 < exponent then none else some (mantissa, exponent)

/-- The number nearest to digits times a power of ten, unless it is too large. Powers far beyond the
range are not computed. -/
def ofDecimal? (negative : Bool) (digits : Nat) (exponent : Int) : Option Binary64 :=
  let magnitude : Int := (Nat.toDigits 10 digits).length + exponent
  if digits = 0 ∨ magnitude < -330 then some (finite negative 0 0)
  else if 310 < magnitude then none
  else
    let (num, den) := scaledBy 10 digits 1 (-exponent)
    (nearest? num den).map fun (mantissa, exponent) => finite negative mantissa exponent

/-- How many digits stand before the point of a positive fraction; below one, minus the number of zeros
after the point. -/
def wholeDigits (num den : Nat) : Int :=
  if den ≤ num then (Nat.toDigits 10 (num / den)).length
  else 1 - (Nat.toDigits 10 (den / num)).length

/-- The number of `count` digits that reads back as a mantissa and an exponent and is nearest to their
value, if there is one: digits and a power of ten. -/
def withDigits? (mantissa : Nat) (exponent : Int) (count : Nat) : Option (Nat × Int) :=
  let (num, den) := scaledBy 2 mantissa 1 (-exponent)
  let place := wholeDigits num den - count
  let (n, d) := scaledBy 10 num den place
  let below := n / d
  let readsBack (digits : Nat) :=
    let (num, den) := scaledBy 10 digits 1 (-place)
    digits ≠ 0 && nearest? num den == some (mantissa, exponent)
  let closer := if 2 * (n % d) ≤ d then below else below + 1
  let farther := if 2 * (n % d) ≤ d then below + 1 else below
  if readsBack closer then some (closer, place)
  else if readsBack farther then some (farther, place)
  else none

/-- The fewest digits that read back as a mantissa and an exponent, and their power of ten. Seventeen
always do. -/
def shortest (mantissa : Nat) (exponent : Int) : Nat × Int :=
  (((List.range 17).findSome? fun i => withDigits? mantissa exponent (i + 1))).getD (0, 0)

/-- Digits times a power of ten, written with a point and without needless zeros. -/
def positional (digits : Nat) (exponent : Int) : String :=
  let written := Nat.toDigits 10 digits
  let padded :=
    if 0 ≤ exponent then written ++ List.replicate exponent.toNat '0'
    else List.replicate ((-exponent).toNat + 1 - written.length) '0' ++ written
  let places := (-exponent).toNat
  let whole := padded.take (padded.length - places)
  let fraction := ((padded.drop (padded.length - places)).reverse.dropWhile (· == '0')).reverse
  String.ofList (if fraction.isEmpty then whole else whole ++ '.' :: fraction)

def render : Binary64 → String
  | .nan => "NaN"
  | .infinite negative => if negative then "-Inf" else "+Inf"
  | .finite negative mantissa exponent =>
    let sign := if negative then "-" else ""
    if mantissa = 0 then sign ++ "0"
    else
      let (digits, place) := shortest mantissa exponent
      sign ++ positional digits place

/-- The whole part of a number in 64 bits; the least number stands for all that do not fit. -/
def toInt64 : Binary64 → Int
  | .finite negative mantissa exponent =>
    let (num, den) := scaledBy 2 mantissa 1 (-exponent)
    let whole : Int := (num / den : Nat)
    let whole := if negative then -whole else whole
    if -(Nat.pow 2 63 : Int) ≤ whole ∧ whole < Nat.pow 2 63 then whole else -(Nat.pow 2 63 : Int)
  | _ => -(Nat.pow 2 63 : Int)

def ofInt (n : Int) : Binary64 := (ofDecimal? (decide (n < 0)) n.natAbs 0).getD .nan

end Binary64

end OverloadDocs
