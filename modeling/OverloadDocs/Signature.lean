import OverloadDocs.Location
import OverloadDocs.TypeExpr

/-!
Function signatures and their identity. Two signatures are the same overload when their names and
their parameter types agree; parameter names, the return type and the place do not count. The key
of a signature is the text of that identity.
-/

namespace OverloadDocs

/-- A declared parameter. Its name may be empty and never takes part in overload identity. -/
structure Parameter where
  name : String := ""
  type : TypeExpr := .missing
  deriving DecidableEq, Inhabited

namespace Parameter

/-- The type, followed by the name if there is one. -/
def render (p : Parameter) : String :=
  if p.name = "" then p.type.render else p.type.render ++ " " ++ p.name

end Parameter

/-- A function declaration: `order` is its position among the declarations it was read with, and
`anchor` the target that references link to, empty until it is registered. -/
structure Signature where
  name : String := ""
  params : List Parameter := []
  returnType : TypeExpr := .missing
  order : Int := 0
  source : Location := {}
  anchor : String := ""
  deriving DecidableEq, Inhabited

/-- The text of an overload's identity. -/
def identityKey (name : String) (types : List TypeExpr) : String :=
  name ++ "(" ++ TypeExpr.renderList ", " types ++ ")"

namespace Signature

def paramTypes (s : Signature) : List TypeExpr := s.params.map (·.type)

/-- The text of the signature's identity. -/
def key (s : Signature) : String := identityKey s.name s.paramTypes

/-- Equal names and equal parameter types. -/
def SameOverload (s t : Signature) : Prop :=
  s.name = t.name ∧ s.paramTypes = t.paramTypes

instance (s t : Signature) : Decidable (s.SameOverload t) :=
  inferInstanceAs (Decidable (_ ∧ _))

/-- The position of the first parameter of that name; an empty name names no parameter. -/
def paramIndex? (s : Signature) (name : String) : Option Nat :=
  if name = "" then none else s.params.findIdx? (·.name = name)

/-- The text of the declaration. A missing return type is left out. -/
def render (s : Signature) : String :=
  let result := match s.returnType with
    | .missing => ""
    | t => t.render ++ " "
  result ++ s.name ++ "(" ++ ", ".intercalate (s.params.map Parameter.render) ++ ")"

/-- Whether every parameter has a type. -/
def paramsTyped (s : Signature) : Bool := s.params.all (·.type ≠ .missing)

/-- The text of the declaration, which only a signature with all its parameter types has. -/
def render? (s : Signature) : Option String :=
  if s.paramsTyped then some s.render else none

def describe (s : Signature) : String :=
  if s.source.render = "" then s.render else s.render ++ " at " ++ s.source.render

/-- What can be wrong with a signature. -/
inductive Fault where
  | unnamed
  | untyped (param : Nat)
  | param (param : Nat) (fault : TypeExpr.Fault)
  | result (fault : TypeExpr.Fault)
  deriving DecidableEq

def Fault.message : Fault → String
  | .unnamed => "function name is required"
  | .untyped i => s!"parameter {i} has no type"
  | .param i fault => s!"parameter {i}: {fault.message}"
  | .result fault => s!"return type: {fault.message}"

/-- The first fault among parameters, the first of which has position `i`. -/
def paramFault? : Nat → List Parameter → Option Fault
  | _, [] => none
  | i, p :: ps =>
    match p.type with
    | .missing => some (.untyped i)
    | t =>
      match t.fault? with
      | some fault => some (.param i fault)
      | none => paramFault? (i + 1) ps

/-- The first fault of a signature: its name, then its parameters, then its return type. -/
def fault? (s : Signature) : Option Fault :=
  if s.name = "" then some .unnamed
  else match paramFault? 0 s.params with
    | some fault => some fault
    | none =>
      match s.returnType with
      | .missing => none
      | t => t.fault?.map .result

def Valid (s : Signature) : Prop := s.fault? = none

instance (s : Signature) : Decidable s.Valid := inferInstanceAs (Decidable (s.fault? = none))

end Signature

end OverloadDocs
