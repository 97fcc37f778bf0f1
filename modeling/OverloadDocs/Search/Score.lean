import OverloadDocs.Text.Fixed

/-!
Scores, and what is done with them: ranking with ties by identity, relevance of a text match, and the
fusion of several rankings by the reciprocals of their ranks. The arithmetic is a parameter, so that
the same definitions speak of floating-point and of exact scores.
-/

namespace OverloadDocs

/-- The arithmetic that scores need. -/
class Score (α : Type) where
  ofNat : Nat → α
  add : α → α → α
  div : α → α → α
  abs : α → α
  lt : α → α → Bool
  /-- The text with two decimals. -/
  hundredths : α → String

instance : Score Float where
  ofNat := Float.ofNat
  add := (· + ·)
  div := (· / ·)
  abs := Float.abs
  lt a b := a < b
  hundredths := Text.fixed 2

namespace Score

variable {α : Type} [Score α]

/-- Whether a score is neither below nor above zero. -/
def isZero (x : α) : Bool := !lt x (ofNat 0) && !lt (ofNat 0) x

/-- The relevance of a text match with a raw score: one for a score of zero, and less the farther the
score is from it. -/
def relevance (raw : α) : α := div (ofNat 1) (add (ofNat 1) (div (abs raw) (ofNat 50)))

end Score

/-- A function with its score and its place in a ranking, counted from one. -/
structure Ranked (α : Type) where
  id : Int
  score : α
  rank : Nat

namespace Ranked

variable {α : Type} [Score α]

/-- Adds to the score of a function, which starts at zero. -/
def addScore (id : Int) (x : α) : List (Int × α) → List (Int × α)
  | [] => [(id, x)]
  | (i, y) :: scores =>
    if i = id then (i, Score.add y x) :: scores else (i, y) :: addScore id x scores

/-- What a ranking contributes to the score of the function at a rank. -/
def reciprocal (k : α) (rank : Nat) : α := Score.div (Score.ofNat 1) (Score.add k (Score.ofNat rank))

/-- What a ranking contributes to the scores of its functions. -/
def contributions (k : α) (ids : List Int) : List (Int × α) :=
  ids.mapIdx fun i id => (id, reciprocal k (i + 1))

/-- Whether one scored function is placed before another: by a higher score, then by a lower
identity. -/
def before (a b : Int × α) : Bool :=
  Score.lt b.2 a.2 || (!Score.lt a.2 b.2 && a.1 ≤ b.1)

def numbered (scores : List (Int × α)) : List (Ranked α) :=
  scores.mapIdx fun i (id, score) => ⟨id, score, i + 1⟩

def defaultConstant : α := Score.ofNat 60

/-- Fuses two rankings: the score of a function is the sum of the reciprocals of its ranks, each shifted
by a constant. -/
def fuse (k : α) (refs texts : List Int) : List (Ranked α) :=
  let k := if Score.isZero k then defaultConstant else k
  let scores := (contributions k refs ++ contributions k texts).foldl
    (fun scores (id, x) => addScore id x scores) []
  numbered (scores.mergeSort before)

end Ranked

end OverloadDocs
