/-!
Anchors: the targets that references link to. Fresh ones come from a supply that never gives the same
anchor twice.
-/

namespace OverloadDocs

/-- A supply of anchors, counting those already given. -/
structure Anchors where
  given : Nat := 0
  deriving DecidableEq, Inhabited

namespace Anchors

/-- A number in lower-case hexadecimal digits, with zeros in front up to a width. -/
def paddedHex (width n : Nat) : List Char :=
  let digits := Nat.toDigits 16 n
  List.replicate (width - digits.length) '0' ++ digits

/-- The anchor with a given number, in the form of a universally unique identifier. -/
def anchorText (n : Nat) : String :=
  "00000000-0000-4000-8000-" ++ String.ofList (paddedHex 12 n)

/-- The next anchor, and the supply without it. -/
def take (supply : Anchors) : String × Anchors :=
  (anchorText supply.given, ⟨supply.given + 1⟩)

/-- The anchor of a new entry: the one it has, or else a fresh one. -/
def orFresh (supply : Anchors) (anchor : String) : String × Anchors :=
  if anchor = "" then supply.take else (anchor, supply)

end Anchors

end OverloadDocs
