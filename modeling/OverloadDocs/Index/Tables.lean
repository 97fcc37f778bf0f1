import OverloadDocs.Resolution

/-!
An index with its tables. Beside the list of the entries one table leads from a name to its overloads and one
from an identity key to its entry, and a look-up searches no list. A registration enters a function in all
three, and gives the signature that it is called with an anchor unless it has one. A selection goes through its
members one by one, and remembers the keys that it has met.
-/

namespace OverloadDocs

/-- An index with the tables for its look-ups. -/
structure TabledIndex extends Index where
  nameTable : String → List Documented := fun _ => []
  keyTable : String → Option Documented := fun _ => none
  deriving Inhabited

/-- What a registration leaves behind: the refusal, if it is refused, and the index, the supply of anchors and
the signature that it was called with. -/
structure Registration where
  refusal : Option RegisterError := none
  index : TabledIndex
  supply : Anchors
  signature : Option Signature

namespace TabledIndex

/-- Enters a function behind the others. -/
def add (t : TabledIndex) (e : Documented) : TabledIndex where
  entries := t.entries ++ [e]
  frozen := t.frozen
  nameTable name := if name = e.signature.name then t.nameTable name ++ [e] else t.nameTable name
  keyTable key := if key = e.signature.key then some e else t.keyTable key

/-- The index that takes no further entries. -/
def freeze (t : TabledIndex) : TabledIndex := { t with frozen := true }

/-- A registration that is refused changes nothing. -/
def refuse (t : TabledIndex) (supply : Anchors) (s : Option Signature) (e : RegisterError) : Registration where
  refusal := some e
  index := t
  supply := supply
  signature := s

/-- Registers a function at the end of the index. Without documentation it gets an empty record. -/
def register (t : TabledIndex) (supply : Anchors) (s : Option Signature) (doc : Option Documentation) :
    Registration :=
  if t.frozen then t.refuse supply s .frozen
  else match s with
    | none => t.refuse supply s .absent
    | some sig =>
      match sig.fault? with
      | some fault => t.refuse supply s (.invalid sig.name fault)
      | none =>
        match t.keyTable sig.key with
        | some e => t.refuse supply s (.duplicate e.signature sig)
        | none =>
          let (sig, supply) := Index.anchored supply sig
          { index := t.add ⟨sig, doc.getD {}⟩, supply := supply, signature := some sig }

def overloads (t : TabledIndex) (name : String) : List Signature := (t.nameTable name).map (·.signature)

def knows (t : TabledIndex) (name : String) : Bool := !(t.nameTable name).isEmpty

def find? (t : TabledIndex) (name : String) (types : List TypeExpr) : Option Signature :=
  (t.keyTable (identityKey name types)).bind fun e =>
    if e.signature.name = name ∧ e.signature.paramTypes = types then some e.signature else none

/-- The documentation registered with the overload that a signature names. -/
def record? (t : TabledIndex) (s : Signature) : Option Documentation :=
  (t.keyTable s.key).bind fun e => if e.signature.SameOverload s then some e.doc else none

/-- Resolves a query through the table of names. -/
def resolve (t : TabledIndex) (q : Query) : Resolution := .among (t.overloads q.name) q

end TabledIndex

/-- A selection in progress: the signatures selected so far, the keys met on the way, and the members that match
nothing. -/
structure Selection where
  selected : List Signature := []
  seen : List String := []
  unmatched : List NotFound := []

namespace Selection

/-- Selects a signature unless its key has been met. -/
def take (sel : Selection) (s : Signature) : Selection :=
  if s.key ∈ sel.seen then sel
  else { sel with selected := sel.selected ++ [s], seen := s.key :: sel.seen }

/-- Selects what one more member asks for, among the overloads of its name. -/
def add (t : TabledIndex) (sel : Selection) (member : Query) : Selection :=
  let matched := (t.overloads member.name).filter (member.Matches ·)
  let sel := matched.foldl take sel
  if matched.isEmpty then
    { sel with unmatched := sel.unmatched ++ [⟨member, member.qualified && t.knows member.name⟩] }
  else sel

end Selection

/-- The signatures that a member list selects, and the members that match nothing. The empty list selects
everything. -/
def TabledIndex.select (t : TabledIndex) (members : List Query) : List Signature × List NotFound :=
  if members.isEmpty then (t.signatures, [])
  else
    let sel := members.foldl (Selection.add t) {}
    (sel.selected, sel.unmatched)

/-- A call that changes an index: a registration, which may come without a signature or without documentation,
or the end of registrations. -/
inductive IndexCall where
  | register (s : Option Signature) (doc : Option Documentation)
  | freeze

/-- The index and the supply after a call. -/
def IndexCall.apply : TabledIndex × Anchors → IndexCall → TabledIndex × Anchors
  | (t, supply), .register s doc => ((t.register supply s doc).index, (t.register supply s doc).supply)
  | (t, supply), .freeze => (t.freeze, supply)

/-- The index and the supply after calls, from an empty index on. -/
def TabledIndex.afterCalls (supply : Anchors) (calls : List IndexCall) : TabledIndex × Anchors :=
  calls.foldl IndexCall.apply ({}, supply)

end OverloadDocs
