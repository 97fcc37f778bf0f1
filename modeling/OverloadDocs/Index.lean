import OverloadDocs.Anchor
import OverloadDocs.Documentation
import OverloadDocs.Query

/-!
The index of documented functions. Entries stand in order of registration and are pairwise different
overloads; every look-up is a view of that one list. A frozen index takes no further entries.
-/

namespace OverloadDocs

/-- Why a function was not registered. -/
inductive RegisterError where
  | frozen
  | absent
  | invalid (name : String) (fault : Signature.Fault)
  | duplicate (existing again : Signature)
  deriving DecidableEq

def duplicateMessage (existing again : Signature) : String :=
  s!"duplicate definition of {again.key} at {again.source.describe} (first defined at {existing.source.describe})"

def RegisterError.message : RegisterError → String
  | .frozen => "index is frozen"
  | .absent => "cannot register nil signature"
  | .invalid name fault => s!"invalid signature {name}: {fault.message}"
  | .duplicate existing again => duplicateMessage existing again

/-- A query that matches nothing; `known` when its name exists with other parameter types. -/
structure NotFound where
  query : Query
  known : Bool
  deriving DecidableEq

def NotFound.message (e : NotFound) : String :=
  let report := s!"reference target not found `{e.query.render}`"
  if e.known then report ++ "; no overload has these parameter types" else report

/-- Documented functions in order of registration. -/
structure Index where
  entries : List Documented := []
  frozen : Bool := false
  deriving DecidableEq, Inhabited

namespace Index

def signatures (idx : Index) : List Signature := idx.entries.map (·.signature)

def size (idx : Index) : Nat := idx.entries.length

/-- The entry with an identity key. -/
def byKey? (idx : Index) (key : String) : Option Documented :=
  idx.entries.find? (·.signature.key = key)

def byName (idx : Index) (name : String) : List Signature :=
  idx.signatures.filter (·.name = name)

def hasName (idx : Index) (name : String) : Bool :=
  idx.entries.any (·.signature.name = name)

/-- The overload with that name and these parameter types. Ill-formed types can have the text of
others, so the entry found by its key is compared as a structure. -/
def lookup? (idx : Index) (name : String) (types : List TypeExpr) : Option Signature :=
  (idx.byKey? (identityKey name types)).bind fun e =>
    if e.signature.name = name ∧ e.signature.paramTypes = types then some e.signature else none

/-- The documentation of the overload that a signature names. -/
def doc? (idx : Index) (s : Signature) : Option Documentation :=
  (idx.byKey? s.key).bind fun e => if e.signature.SameOverload s then some e.doc else none

def names (idx : Index) : List String :=
  idx.signatures.foldl (fun seen s => if seen.contains s.name then seen else seen ++ [s.name]) []

/-- The index that takes no further entries. -/
def freeze (idx : Index) : Index := { idx with frozen := true }

/-- The signature as it is registered: with an anchor, fresh if it has none. -/
def anchored (supply : Anchors) (s : Signature) : Signature × Anchors :=
  let (anchor, supply) := supply.orFresh s.anchor
  ({ s with anchor := anchor }, supply)

def register (idx : Index) (supply : Anchors) (s : Option Signature) (doc : Documentation) :
    Except RegisterError (Index × Anchors) :=
  if idx.frozen then .error .frozen
  else match s with
    | none => .error .absent
    | some s =>
      match s.fault? with
      | some fault => .error (.invalid s.name fault)
      | none =>
        match idx.byKey? s.key with
        | some e => .error (.duplicate e.signature s)
        | none =>
          let (s, supply) := anchored supply s
          .ok ({ idx with entries := idx.entries ++ [⟨s, doc⟩] }, supply)

/-- A merge in progress: the index so far, the supply, and the refusals in order. -/
structure Merging where
  index : Index := {}
  supply : Anchors
  errors : List RegisterError := []

/-- Takes one more entry into a merge. It is renumbered by the entries already there. -/
def Merging.add (m : Merging) (e : Documented) : Merging :=
  let s := { e.signature with order := m.index.size }
  match m.index.register m.supply (some s) e.doc with
  | .ok (index, supply) => { m with index := index, supply := supply }
  | .error err => { m with errors := m.errors ++ [err] }

/-- Joins indexes in order into a frozen one. The first definition of every overload is kept, and each
later one is an error. -/
def merge (supply : Anchors) (parts : List Index) : Merging :=
  let m := (parts.flatMap (·.entries)).foldl Merging.add { supply := supply }
  { m with index := m.index.freeze }

/-- The signatures that a member asks for. -/
def matching (idx : Index) (member : Query) : List Signature :=
  idx.signatures.filter (member.Matches ·)

def unmatched (idx : Index) (members : List Query) : List NotFound :=
  (members.filter fun q => (idx.matching q).isEmpty).map fun q =>
    ⟨q, q.qualified && idx.hasName q.name⟩

/-- Keeps the first of the signatures that share a key. -/
def dedupByKey (signatures : List Signature) : List Signature :=
  signatures.foldl
    (fun kept s => if kept.any (·.key = s.key) then kept else kept ++ [s]) []

/-- The signatures that a member list selects, in list order and each once, and the members that match
nothing. The empty list selects everything. -/
def select (idx : Index) (members : List Query) : List Signature × List NotFound :=
  if members.isEmpty then (idx.signatures, [])
  else (dedupByKey (members.flatMap idx.matching), idx.unmatched members)

end Index

end OverloadDocs
