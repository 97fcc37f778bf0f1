import OverloadDocs.Proofs.StoredText

/-!
Rows read back as what they were made of. A record is stored in one form only, whatever it says and in which order
its parameter texts were given, and the stored text of a record that says nothing is the empty object.
-/

namespace OverloadDocs

namespace PositionTexts

/-- Texts at positions of 64 bits, of which at one position the last counts. -/
def ofEntries (es : List (Int64 × String)) : PositionTexts :=
  es.foldl (fun m e => put e.1.toInt e.2 m) []

theorem sorted_foldl_put {es : List (Int64 × String)} {m : PositionTexts} (hm : m.Sorted) (hfits : m.Fits) :
    Sorted (es.foldl (fun m e => put e.1.toInt e.2 m) m) ∧ Fits (es.foldl (fun m e => put e.1.toInt e.2 m) m) := by
  induction es generalizing m with
  | nil => exact ⟨hm, hfits⟩
  | cons e es ih =>
      refine ih hm.put fun e' he' => ?_
      rcases mem_put he' with rfl | he'
      · exact ⟨e.1.le_toInt, e.1.toInt_lt⟩
      · exact hfits e' he'

/-- However entries are given, their texts are in order and within 64 bits. -/
theorem sorted_and_fits_ofEntries (es : List (Int64 × String)) : (ofEntries es).Sorted ∧ (ofEntries es).Fits :=
  sorted_foldl_put List.Pairwise.nil fun _ => nofun

end PositionTexts

namespace Documentation

/-- A record as a map from positions to texts gives it. -/
theorem storable_of_entries {d : Documentation} (h : ∃ es, d.paramDocs = .ofEntries es) : d.Storable := by
  obtain ⟨es, hes⟩ := h
  obtain ⟨hsorted, hfits⟩ := PositionTexts.sorted_and_fits_ofEntries es
  exact ⟨hes ▸ hsorted, hes ▸ hfits⟩

theorem toJson_eq_empty_iff {d : Documentation} : d.toJson = .obj [] ↔ d.isEmpty := by
  obtain ⟨summary, paramDocs, returnDoc, failures⟩ := d
  rw [toJson, Json.obj.injEq, isEmpty]
  simp only [List.append_eq_nil_iff, Json.textMember, Json.optionMember, Json.listMember, Bool.and_eq_true,
    beq_iff_eq, ite_eq_left_iff, List.cons_ne_nil, imp_false, Decidable.not_not]
  cases returnDoc <;> cases failures <;> simp

/-- The stored text of a record is the empty object just when the record says nothing. -/
theorem compact_toJson_eq_iff {d : Documentation} : d.toJson.compact = "\x7b\x7d" ↔ d.isEmpty := by
  rw [← toJson_eq_empty_iff]
  constructor
  · intro h
    have hempty : Json.Textual 10000 (.obj []) := fun _ => nofun
    have hread := Json.parse?_compact (textual_toJson d 9998)
    have htext : d.toJson.compact = (Json.obj []).compact := h
    rw [htext, Json.parse?_compact hempty] at hread
    exact (Option.some.inj hread).symm
  · intro h
    rw [h]
    rfl

end Documentation

namespace FunctionRow

/-- The row of a declared function reads back as the function, with the record that it came with, or the empty one
if it came without; and the stored text is the empty object just when there is nothing to store. -/
theorem toDocumented_ofFunction {text : String} {order : Int} {s : Signature}
    (hparse : Signature.parse text order = .ok s) (source : Location) (anchor : String) {doc : Option Documentation}
    (hdoc : ∀ d ∈ doc, ∃ es, d.paramDocs = .ofEntries es) (fileId : Int) :
    let placed : Signature := { s with source := source, anchor := anchor }
    FunctionRow.toDocumented { ofFunction placed doc fileId with filePath := source.file } =
        .ok ⟨placed, doc.getD {}⟩ ∧
      ((ofFunction placed doc fileId).docJson = "\x7b\x7d" ↔ ∀ d ∈ doc, d.isEmpty) := by
  intro placed
  obtain ⟨hs, horder, -, -⟩ := Signature.parse_eq_ok_iff.mp hparse
  have hplaced : placed.WellFormed := ⟨hs.name, hs.paramNames, hs.paramTypes, hs.result⟩
  have hstorable : (doc.getD {}).Storable := by
    cases doc with
    | none => exact ⟨List.Pairwise.nil, fun _ => nofun⟩
    | some d => exact Documentation.storable_of_entries (hdoc d rfl)
  refine ⟨?_, ?_⟩
  · let f : Documented := ⟨placed, doc.getD {}⟩
    have hf : f.signature.WellFormed := hplaced
    rw [toDocumented_eq_ok (f := f) hf hstorable rfl rfl rfl]
    rfl
  · have htext : (ofFunction placed doc fileId).docJson = (doc.getD {}).toJson.compact := rfl
    rw [htext, Documentation.compact_toJson_eq_iff]
    cases doc with
    | none => simp [Documentation.isEmpty]
    | some d => simp

/-- Markup, separators of lines, controls, positions whose texts are in another order than they are, and an empty text
for the result all come back. -/
theorem toDocumented_of_escaped_texts :
    let s : Signature :=
      { name := "f", params := [{ name := "x", type := .array 2 .vector }, { type := .primitive "int" }]
        returnType := .primitive "real", order := 7 }
    let entries : List (Int64 × String) := [(10, "ten"), (1, "one"), (-2, "a\"b\\c"), (1, "uno")]
    let doc : Documentation :=
      { summary := "<é> & \u2028\n\t\x01", paramDocs := .ofEntries entries, returnDoc := some "",
        failures := ["", "x < 0"] }
    let placed : Signature := { s with source := ⟨"a.stan", 3, 5⟩, anchor := "top" }
    let row := FunctionRow.ofFunction placed (some doc) 4
    Signature.parse "real f(array[,]vector x, int)" 7 = .ok s ∧
      FunctionRow.toDocumented { row with filePath := "a.stan" } = .ok ⟨placed, doc⟩ ∧
      row.docJson ≠ "\x7b\x7d" := by
  intro s entries doc placed row
  have hparse : Signature.parse "real f(array[,]vector x, int)" 7 = .ok s :=
    Signature.parse_eq_ok_iff.mpr ⟨by decide, rfl, rfl, by decide +kernel⟩
  have hdoc : ∀ d ∈ some doc, ∃ es, d.paramDocs = .ofEntries es := by
    intro d hd
    obtain rfl := Option.some.inj hd
    exact ⟨entries, rfl⟩
  obtain ⟨hread, htext⟩ := toDocumented_ofFunction hparse ⟨"a.stan", 3, 5⟩ "top" hdoc 4
  exact ⟨hparse, hread, fun hempty => absurd (htext.mp hempty doc rfl) (by decide)⟩

end FunctionRow

end OverloadDocs
