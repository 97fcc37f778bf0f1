import OverloadDocs.Text.Lower

/-!
How far two words are apart: the least number of bytes that have to be inserted, removed or exchanged to
make one of them the other. Letters count without regard to case.
-/

namespace OverloadDocs.Text

/-- Fills a row of distances for one byte of a word. Beside the place to fill stand the distance before
it, the one above, and the one above the former. -/
def distancesAfter (byte : UInt8) : (diagonal left : Nat) → List UInt8 → List Nat → List Nat
  | diagonal, left, other :: others, above :: row =>
    let here := if byte = other then diagonal else 1 + min diagonal (min left above)
    here :: distancesAfter byte above here others row
  | _, _, _, _ => []

/-- The row of distances for one byte more. -/
def nextDistances (others : List UInt8) (row : List Nat) (byte : UInt8) : List Nat :=
  match row with
  | [] => []
  | first :: row => (first + 1) :: distancesAfter byte first (first + 1) others row

/-- The bytes of a word in lower case. -/
def foldedBytes (s : String) : List UInt8 := (lower s).toUTF8.toList

def distance (s t : String) : Nat :=
  (((foldedBytes s).foldl (nextDistances (foldedBytes t))
    (List.range ((foldedBytes t).length + 1))).getLast?).getD 0

end OverloadDocs.Text
