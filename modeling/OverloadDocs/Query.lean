import OverloadDocs.Signature

/-!
Queries: what a reference or a member list asks for. A bare name asks for every overload of it, a
qualified one for the overload with exactly these parameter types.
-/

namespace OverloadDocs

/-- A name, and the parameter types when the query is qualified; a query qualified by the empty list
asks for the overload without parameters. -/
structure Query where
  name : String
  types? : Option (List TypeExpr) := none
  deriving DecidableEq, Inhabited

namespace Query

/-- Whether the query fixes the parameter types. -/
def qualified (q : Query) : Bool := q.types?.isSome

def render (q : Query) : String :=
  match q.types? with
  | none => q.name
  | some types => identityKey q.name types

/-- Whether a signature is one the query asks for. -/
def Matches (q : Query) (s : Signature) : Prop :=
  s.name = q.name ∧ ∀ types, q.types? = some types → types = s.paramTypes

instance (q : Query) (s : Signature) : Decidable (q.Matches s) :=
  match h : q.types? with
  | none => decidable_of_iff (s.name = q.name) (by simp [Matches, h])
  | some types => decidable_of_iff (s.name = q.name ∧ types = s.paramTypes) (by simp [Matches, h])

end Query

end OverloadDocs
