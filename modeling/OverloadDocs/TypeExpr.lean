import OverloadDocs.Text.Identifier
import OverloadDocs.Text.Quoted

/-!
Types of the signature language: scalar types, arrays of any number of dimensions, vectors, row
vectors, matrices and tuples. A value may be ill formed, as data from outside can be; `fault?` says
what is wrong with it, and a type without a fault is rendered to text that determines it.
-/

namespace OverloadDocs

/-- A type. Arrays compare by their written nesting, so an array of arrays differs from an array of
two dimensions. `missing` stands where a type was left out. -/
inductive TypeExpr where
  | missing
  | primitive (name : String)
  | array (dims : Int) (elem : TypeExpr)
  | vector
  | rowVector
  | matrix
  | tuple (elems : List TypeExpr)
  deriving Inhabited

namespace TypeExpr

mutual

def decideEq : (a b : TypeExpr) → Decidable (a = b)
  | .missing, .missing => isTrue rfl
  | .vector, .vector => isTrue rfl
  | .rowVector, .rowVector => isTrue rfl
  | .matrix, .matrix => isTrue rfl
  | .primitive m, .primitive n =>
    if h : m = n then isTrue (by rw [h]) else isFalse (by simp [h])
  | .array m a, .array n b =>
    match decEq m n, decideEq a b with
    | isTrue h, isTrue g => isTrue (by rw [h, g])
    | isFalse h, _ => isFalse (by simp [h])
    | _, isFalse g => isFalse (by simp [g])
  | .tuple as, .tuple bs =>
    match decideEqList as bs with
    | isTrue h => isTrue (by rw [h])
    | isFalse h => isFalse (by simp [h])
  | .missing, .primitive _ | .missing, .array .. | .missing, .vector | .missing, .rowVector
  | .missing, .matrix | .missing, .tuple _ => isFalse nofun
  | .primitive _, .missing | .primitive _, .array .. | .primitive _, .vector
  | .primitive _, .rowVector | .primitive _, .matrix | .primitive _, .tuple _ => isFalse nofun
  | .array .., .missing | .array .., .primitive _ | .array .., .vector | .array .., .rowVector
  | .array .., .matrix | .array .., .tuple _ => isFalse nofun
  | .vector, .missing | .vector, .primitive _ | .vector, .array .. | .vector, .rowVector
  | .vector, .matrix | .vector, .tuple _ => isFalse nofun
  | .rowVector, .missing | .rowVector, .primitive _ | .rowVector, .array .. | .rowVector, .vector
  | .rowVector, .matrix | .rowVector, .tuple _ => isFalse nofun
  | .matrix, .missing | .matrix, .primitive _ | .matrix, .array .. | .matrix, .vector
  | .matrix, .rowVector | .matrix, .tuple _ => isFalse nofun
  | .tuple _, .missing | .tuple _, .primitive _ | .tuple _, .array .. | .tuple _, .vector
  | .tuple _, .rowVector | .tuple _, .matrix => isFalse nofun

def decideEqList : (as bs : List TypeExpr) → Decidable (as = bs)
  | [], [] => isTrue rfl
  | [], _ :: _ | _ :: _, [] => isFalse nofun
  | a :: as, b :: bs =>
    match decideEq a b, decideEqList as bs with
    | isTrue h, isTrue g => isTrue (by rw [h, g])
    | isFalse h, _ => isFalse (by simp [h])
    | _, isFalse g => isFalse (by simp [g])

end

instance : DecidableEq TypeExpr := decideEq

/-- The words that introduce structured types. They name no scalar type, function or parameter. -/
def keywords : List String := ["array", "tuple", "vector", "row_vector", "matrix"]

/-- Whether a word introduces a structured type. -/
def isKeyword (name : String) : Bool := keywords.contains name

mutual

/-- The text of a type. A missing element of an array leaves its place empty. -/
def render : TypeExpr → String
  | .missing => ""
  | .primitive name => name
  | .array dims elem =>
    "array[" ++ String.ofList (List.replicate (dims - 1).toNat ',') ++ "] " ++ elem.render
  | .vector => "vector"
  | .rowVector => "row_vector"
  | .matrix => "matrix"
  | .tuple elems => "tuple(" ++ ", ".intercalate (renderItems elems) ++ ")"

/-- The texts of the types of a list; a missing one is shown as a question mark. -/
def renderItems : List TypeExpr → List String
  | [] => []
  | .missing :: ts => "?" :: renderItems ts
  | t :: ts => t.render :: renderItems ts

end

def renderList (sep : String) (ts : List TypeExpr) : String :=
  sep.intercalate (renderItems ts)

/-- What can be wrong with a type. -/
inductive Fault where
  | missing
  | noDimension
  | noElement
  | emptyTuple
  | unnamed
  | notIdentifier (name : String)
  | reserved (name : String)
  deriving DecidableEq

def Fault.message : Fault → String
  | .missing => "missing type"
  | .noDimension => "array dimensionality must be >= 1"
  | .noElement => "array element type is required"
  | .emptyTuple => "tuple must have at least one element"
  | .unnamed => "primitive type name is required"
  | .notIdentifier name => s!"primitive type name {Text.quoted name} is not an identifier"
  | .reserved name => s!"primitive type name {Text.quoted name} is reserved"

def nameFault? (name : String) : Option Fault :=
  if name = "" then some .unnamed
  else if !Text.isIdentifier name then some (.notIdentifier name)
  else if isKeyword name then some (.reserved name)
  else none

mutual

/-- The first fault of a type, outermost first and from left to right. -/
def fault? : TypeExpr → Option Fault
  | .missing => some .missing
  | .primitive name => nameFault? name
  | .array dims elem =>
    if dims < 1 then some .noDimension
    else match elem with
      | .missing => some .noElement
      | elem => elem.fault?
  | .tuple [] => some .emptyTuple
  | .tuple (t :: ts) => firstFault? (t :: ts)
  | .vector | .rowVector | .matrix => none

def firstFault? : List TypeExpr → Option Fault
  | [] => none
  | t :: ts =>
    match t.fault? with
    | some fault => some fault
    | none => firstFault? ts

end

def Valid (t : TypeExpr) : Prop := t.fault? = none

instance (t : TypeExpr) : Decidable t.Valid := inferInstanceAs (Decidable (t.fault? = none))

end TypeExpr

end OverloadDocs
