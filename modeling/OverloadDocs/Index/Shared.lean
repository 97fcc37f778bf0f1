import OverloadDocs.Index

/-!
Indexes that share their signatures. An index refers to the places at which its signatures are kept, and a
signature without an anchor is given one where it is kept. Indexes that are joined stay in use: joining renumbers
what it takes, so each signature is copied to a new place first.
-/

namespace OverloadDocs

/-- An entry with the place of its signature. -/
structure SharedEntry where
  place : Nat
  doc : Documentation

/-- An index that refers to its signatures. -/
structure SharedIndex where
  entries : List SharedEntry := []
  frozen : Bool := false

namespace SharedIndex

/-- What an entry stands for, given the signatures at their places. -/
def entryAt? (kept : List Signature) (e : SharedEntry) : Option Documented :=
  kept[e.place]?.map fun s => ⟨s, e.doc⟩

/-- What an index stands for, given the signatures at their places. -/
def view (kept : List Signature) (x : SharedIndex) : Index where
  entries := x.entries.filterMap (entryAt? kept)
  frozen := x.frozen

/-- Registers the signature at a place, and gives it an anchor there unless it has one. -/
def register (x : SharedIndex) (kept : List Signature) (supply : Anchors) (place : Nat) (doc : Documentation) :
    Except RegisterError (SharedIndex × List Signature × Anchors) :=
  ((x.view kept).register supply kept[place]? doc).map fun (_, rest) =>
    ({ x with entries := x.entries ++ [⟨place, doc⟩] },
      kept.modify place fun s => (Index.anchored supply s).1, rest)

end SharedIndex

/-- A merge in progress: the signatures at their places, the index so far, the supply, and the refusals in
order. -/
structure SharedMerging where
  kept : List Signature
  supply : Anchors
  index : SharedIndex := {}
  errors : List RegisterError := []

/-- Takes one more entry into a merge. A copy of its signature is renumbered and registered. -/
def SharedMerging.add (m : SharedMerging) (e : SharedEntry) : SharedMerging :=
  match m.kept[e.place]? with
  | none => m
  | some s =>
    let kept := m.kept ++ [{ s with order := m.index.entries.length }]
    match m.index.register kept m.supply m.kept.length e.doc with
    | .ok (index, kept, supply) => { m with index := index, kept := kept, supply := supply }
    | .error err => { m with kept := kept, errors := m.errors ++ [err] }

/-- Takes the entries of one more part into a merge. A part may be missing. -/
def SharedMerging.addPart (m : SharedMerging) : Option SharedIndex → SharedMerging
  | none => m
  | some part => part.entries.foldl SharedMerging.add m

/-- Joins indexes in order into a frozen one, and leaves them as they are. -/
def SharedIndex.merge (kept : List Signature) (supply : Anchors) (parts : List (Option SharedIndex)) :
    SharedMerging :=
  let m := parts.foldl SharedMerging.addPart { kept := kept, supply := supply }
  { m with index := { m.index with frozen := true } }

end OverloadDocs
