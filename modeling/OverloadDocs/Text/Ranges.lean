/-!
Classes of characters as tables of ranges.
-/

namespace OverloadDocs.Text

/-- Whether `n` lies in one of the ranges between positions `lo` (inclusive) and `hi` (exclusive)
of an increasing table, found by bisection. -/
def inRanges (ranges : Array (Nat × Nat)) (n lo hi : Nat) : Bool :=
  if lo < hi then
    let mid := (lo + hi) / 2
    match ranges[mid]? with
    | none => false
    | some (first, last) =>
      if n < first then inRanges ranges n lo mid
      else if last < n then inRanges ranges n (mid + 1) hi
      else true
  else false
termination_by hi - lo

/-- Whether a character lies in one of the ranges of an increasing table. -/
def isAmong (ranges : Array (Nat × Nat)) (c : Char) : Bool := inRanges ranges c.toNat 0 ranges.size

end OverloadDocs.Text
