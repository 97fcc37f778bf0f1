/-!
Values of the JSON data model. Members of an object stand in the order in which they are written.
-/

namespace OverloadDocs

/-- A JSON value. Whole numbers are kept apart from measured ones, and a value that is only written can
be given as its text. -/
inductive Json where
  | null
  | bool (b : Bool)
  | int (n : Int)
  | float (x : Float)
  | verbatim (text : String)
  | str (s : String)
  | arr (items : List Json)
  | obj (members : List (String × Json))
  deriving Inhabited

namespace Json

def strings (ss : List String) : Json := .arr (ss.map .str)

/-- A member with a text, left out when the text is empty. -/
def textMember (key text : String) : List (String × Json) :=
  if text = "" then [] else [(key, .str text)]

/-- A member with a number, left out when it is zero. -/
def intMember (key : String) (n : Int) : List (String × Json) :=
  if n = 0 then [] else [(key, .int n)]

/-- A member with a list, left out when it is empty. -/
def listMember (key : String) (items : List Json) : List (String × Json) :=
  if items.isEmpty then [] else [(key, .arr items)]

/-- A member with a text that may be absent. -/
def optionMember (key : String) (text : Option String) : List (String × Json) :=
  match text with
  | none => []
  | some text => [(key, .str text)]

/-- The value of a member; of several the last counts. -/
def member? (j : Json) (key : String) : Option Json :=
  match j with
  | .obj members => (members.reverse.find? (·.1 = key)).map (·.2)
  | _ => none

def text? (j : Json) (key : String) : Option String :=
  match j.member? key with
  | some (.str s) => some s
  | _ => none

/-- A measured number cut to a whole one in 64 bits; the least of them stands for all that do not fit. -/
def truncated (x : Float) : Int :=
  let bound : Float := 9223372036854775808
  if !(-bound ≤ x && x < bound) then -9223372036854775808
  else if x < 0 then -((-x).toUInt64.toNat : Int)
  else x.toUInt64.toNat

/-- A member that is a number, as a whole one. -/
def int? (j : Json) (key : String) : Option Int :=
  match j.member? key with
  | some (.int n) => some n
  | some (.float x) => some (truncated x)
  | _ => none

def bool? (j : Json) (key : String) : Option Bool :=
  match j.member? key with
  | some (.bool b) => some b
  | _ => none

def items? (j : Json) (key : String) : Option (List Json) :=
  match j.member? key with
  | some (.arr items) => some items
  | _ => none

end Json

end OverloadDocs
