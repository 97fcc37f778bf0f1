/-!
Numbers with a fixed number of decimals. The binary value is taken exactly and rounded to the nearest
decimal, a tie going to the even neighbour.
-/

namespace OverloadDocs.Text

/-- The quotient of two numbers rounded to the nearest whole number, a tie going to the even one. -/
def roundedQuotient (num den : Nat) : Nat :=
  let q := num / den
  let twice := 2 * (num % den)
  if twice < den then q
  else if den < twice then q + 1
  else q + q % 2

/-- A whole number of units of the last decimal, written with the point before that many digits. -/
def fixedDigits (places units : Nat) : String :=
  let digits := Nat.toDigits 10 units
  let digits := List.replicate (places + 1 - digits.length) '0' ++ digits
  let whole := digits.take (digits.length - places)
  let decimals := digits.drop (digits.length - places)
  if places = 0 then String.ofList whole else String.ofList (whole ++ '.' :: decimals)

/-- A number with a fixed number of decimals. -/
def fixed (places : Nat) (x : Float) : String :=
  let bits := x.toBits.toNat
  let negative := bits / Nat.pow 2 63 = 1
  let exponent := bits / Nat.pow 2 52 % Nat.pow 2 11
  let fraction := bits % Nat.pow 2 52
  let sign := if negative then "-" else ""
  if exponent = 2047 then
    if fraction = 0 then (if negative then "-Inf" else "+Inf") else "NaN"
  else
    -- The value is `mantissa * 2 ^ (scale - 1074)`.
    let mantissa := if exponent = 0 then fraction else fraction + Nat.pow 2 52
    let scale := exponent - 1
    sign ++ fixedDigits places
      (roundedQuotient (mantissa * Nat.pow 2 scale * Nat.pow 10 places) (Nat.pow 2 1074))

end OverloadDocs.Text
