import OverloadDocs.Text.Utf8

/-!
Bytes written with 64 letters, four letters for three bytes.
-/

namespace OverloadDocs.Text

/-- The value of a letter. -/
def base64Value? (c : Char) : Option Nat :=
  if 'A' ≤ c ∧ c ≤ 'Z' then some (c.toNat - 'A'.toNat)
  else if 'a' ≤ c ∧ c ≤ 'z' then some (c.toNat - 'a'.toNat + 26)
  else if '0' ≤ c ∧ c ≤ '9' then some (c.toNat - '0'.toNat + 52)
  else if c = '+' then some 62
  else if c = '/' then some 63
  else none

/-- The bytes that letters stand for. Equal signs fill the last group up. -/
def base64Bytes? : List Char → Option (List Nat)
  | [] => some []
  | [a, b, '=', '='] => do
    let x ← base64Value? a
    let y ← base64Value? b
    return [4 * x + y / 16]
  | [a, b, c, '='] => do
    let x ← base64Value? a
    let y ← base64Value? b
    let z ← base64Value? c
    return [4 * x + y / 16, y % 16 * 16 + z / 4]
  | a :: b :: c :: d :: rest => do
    let x ← base64Value? a
    let y ← base64Value? b
    let z ← base64Value? c
    let w ← base64Value? d
    let bytes ← base64Bytes? rest
    return (4 * x + y / 16) :: (y % 16 * 16 + z / 4) :: (z % 4 * 64 + w) :: bytes
  | _ => none

/-- The text that letters stand for; line breaks between them do not count. -/
def base64Text? (cs : List Char) : Option String :=
  (base64Bytes? (cs.filter fun c => c ≠ '\n' && c ≠ '\r')).map fun bytes =>
    String.ofList ((charsOf (bytes.map UInt8.ofNat)).map (·.2))

end OverloadDocs.Text
