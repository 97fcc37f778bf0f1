import OverloadDocs.Signature

/-!
Documentation records. Parameter texts are keyed by position; the positions are kept in increasing
order, so that two records with the same content are equal.
-/

namespace OverloadDocs

/-- Texts by position, in increasing order of position. -/
abbrev PositionTexts := List (Int × String)

namespace PositionTexts

/-- The text at a position. -/
def get? (m : PositionTexts) (i : Int) : Option String :=
  (m.find? (·.1 = i)).map (·.2)

def put (i : Int) (text : String) : PositionTexts → PositionTexts
  | [] => [(i, text)]
  | (j, t) :: m =>
    if i < j then (i, text) :: (j, t) :: m
    else if i = j then (i, text) :: m
    else (j, t) :: put i text m

end PositionTexts

/-- What a comment says about a function. -/
structure Documentation where
  summary : String := ""
  paramDocs : PositionTexts := []
  returnDoc : Option String := none
  failures : List String := []
  deriving DecidableEq, Inhabited

namespace Documentation

def isEmpty (d : Documentation) : Bool :=
  d.summary == "" && d.paramDocs.isEmpty && d.returnDoc.isNone && d.failures.isEmpty

/-- The text for the parameter of that name. -/
def paramDoc? (d : Documentation) (s : Signature) (name : String) : Option String :=
  (s.paramIndex? name).bind fun i => PositionTexts.get? d.paramDocs i

end Documentation

/-- A signature together with its documentation. -/
structure Documented where
  signature : Signature
  doc : Documentation := {}
  deriving DecidableEq, Inhabited

end OverloadDocs
