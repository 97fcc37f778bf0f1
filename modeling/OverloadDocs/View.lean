import OverloadDocs.Json.Basic
import OverloadDocs.Resolution

/-!
Views: what is shown of functions and resolutions, as JSON values. Members without content are left
out.
-/

namespace OverloadDocs

def Parameter.view (p : Parameter) (doc : String) : Json :=
  .obj (Json.textMember "name" p.name ++ [("type", .str p.type.render)] ++ Json.textMember "doc" doc)

namespace Signature

/-- The views of the parameters, each with the text documented for its position. -/
def paramViews (s : Signature) (doc : Documentation) : List Json :=
  s.params.mapIdx fun i p => p.view ((PositionTexts.get? doc.paramDocs i).getD "")

def view (s : Signature) (doc : Documentation) : Json :=
  .obj (
    [("signature", .str s.render), ("key", .str s.key)] ++
    Json.textMember "anchor" s.anchor ++
    Json.textMember "file" s.source.file ++
    Json.intMember "line" s.source.line ++
    Json.textMember "return_type" s.returnType.render ++
    Json.textMember "summary" doc.summary ++
    Json.listMember "params" (s.paramViews doc) ++
    Json.optionMember "returns" doc.returnDoc ++
    Json.listMember "failure_conditions" (doc.failures.map .str))

/-- The view of a function, which only a signature with all its parameter types has. -/
def view? (s : Signature) (doc : Documentation) : Option Json :=
  if s.paramsTyped then some (s.view doc) else none

end Signature

def Documented.view (f : Documented) : Json := f.signature.view f.doc

/-- The view of a resolution, given the documentation of its candidates. -/
def Resolution.view (r : Resolution) (docOf : Signature → Documentation) : Json :=
  .obj (
    [("query", .str r.query.render), ("kind", .str r.kind.name)] ++
    Json.textMember "link" ((r.first?.map (·.anchor)).getD "") ++
    Json.listMember "candidates" (r.candidates.map fun s => s.view (docOf s)) ++
    Json.textMember "diagnostic" ((r.diagnostic?.map (·.message)).getD ""))

def Index.docOf (idx : Index) (s : Signature) : Documentation := (idx.doc? s).getD {}

end OverloadDocs
