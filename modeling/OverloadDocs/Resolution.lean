import OverloadDocs.Cache
import OverloadDocs.Grammar
import OverloadDocs.Index

/-!
Resolution of references. A qualified query needs exactly its parameter types; a bare name resolves to
all its overloads and is ambiguous when there are several. The first candidate is the one to link to.
-/

namespace OverloadDocs

/-- How a reference came out. -/
inductive ResolutionKind where
  | unique
  | ambiguous
  | notFound
  deriving DecidableEq

def ResolutionKind.name : ResolutionKind → String
  | .unique => "unique"
  | .ambiguous => "ambiguous"
  | .notFound => "not_found"

/-- A resolved reference: the candidates in order of registration, and whether the name of a qualified
query without candidates is known. -/
structure Resolution where
  kind : ResolutionKind
  query : Query
  candidates : List Signature
  nameKnown : Bool
  deriving DecidableEq

/-- What there is to say about a reference that is not unique. -/
inductive Diagnostic where
  | ambiguous (query : Query) (candidates : List Signature)
  | notFound (error : NotFound)
  deriving DecidableEq

def ambiguousMessage (query : Query) (candidates : List Signature) : String :=
  let list := "; ".intercalate (candidates.map (·.describe))
  let first := (candidates.head?.map (·.render)).getD ""
  let args := (candidates.head?.map fun s => TypeExpr.renderList ", " s.paramTypes).getD ""
  s!"multiple functions found for reference `{query.render}`: {list} (using `{first}`); qualify the target by specifying argument types, e.g. `{query.name}({args})`"

def Diagnostic.message : Diagnostic → String
  | .ambiguous query candidates => ambiguousMessage query candidates
  | .notFound error => error.message

namespace Resolution

def unique? (r : Resolution) : Option Signature :=
  if r.kind = .unique then r.candidates.head? else none

/-- The signature to link to. -/
def first? (r : Resolution) : Option Signature := r.candidates.head?

/-- What there is to say about a reference that is not unique. -/
def diagnostic? (r : Resolution) : Option Diagnostic :=
  match r.kind with
  | .unique => none
  | .ambiguous => some (.ambiguous r.query r.candidates)
  | .notFound => some (.notFound ⟨r.query, r.nameKnown⟩)

end Resolution

/-- Resolves a query among the overloads of its name. -/
def Resolution.among (overloads : List Signature) (q : Query) : Resolution :=
  match q.types? with
  | some _ =>
    match overloads.find? (q.Matches ·) with
    | some s => ⟨.unique, q, [s], false⟩
    | none => ⟨.notFound, q, [], !overloads.isEmpty⟩
  | none =>
    match overloads with
    | [] => ⟨.notFound, q, [], false⟩
    | [s] => ⟨.unique, q, [s], false⟩
    | _ => ⟨.ambiguous, q, overloads, false⟩

def Index.resolve (idx : Index) (q : Query) : Resolution := .among (idx.byName q.name) q

/-- A reference whose text is not a query. -/
structure TargetError where
  cause : SyntaxError
  deriving DecidableEq

def TargetError.message (e : TargetError) : String :=
  "invalid reference target: " ++ e.cause.message

/-- An index with a memory of the reference texts it has read. -/
structure Resolver where
  index : Index
  cache : Cache String Query

namespace Resolver

def defaultCacheSize : Nat := 1024

/-- A resolver that has read nothing yet; a size that is not positive means the default. -/
def ofIndex (index : Index) (cacheSize : Int) : Resolver :=
  ⟨index, ⟨if cacheSize ≤ 0 then defaultCacheSize else cacheSize.toNat, []⟩⟩

/-- Reads and resolves a reference. Only a malformed text is an error. -/
def resolveTarget (r : Resolver) (target : String) : Except TargetError Resolution × Resolver :=
  match r.cache.find? target with
  | some q => (.ok (r.index.resolve q), { r with cache := r.cache.touch target })
  | none =>
    match Query.parse target with
    | .error e => (.error ⟨e⟩, r)
    | .ok q => (.ok (r.index.resolve q), { r with cache := r.cache.insert target q })

end Resolver

end OverloadDocs
