import OverloadDocs.Proofs.JsonText
import OverloadDocs.Proofs.SignatureReading
import OverloadDocs.Store.FunctionRow

/-!
What is stored of a function is read back. The documentation goes through JSON text, where the texts of the
parameters stand in the order of their positions as texts and are put back by position; the signature goes
through its rendered text.
-/

namespace OverloadDocs

namespace PositionTexts

def Sorted (m : PositionTexts) : Prop := m.Pairwise (·.1 < ·.1)

/-- The positions are numbers of 64 bits. -/
def Fits (m : PositionTexts) : Prop := ∀ e ∈ m, -(Nat.pow 2 63 : Nat) ≤ e.1 ∧ e.1 < (Nat.pow 2 63 : Nat)

theorem perm_put {i : Int} (text : String) {m : PositionTexts} (hi : ∀ e ∈ m, e.1 ≠ i) :
    (put i text m).Perm ((i, text) :: m) := by
  induction m with
  | nil => exact .refl _
  | cons e m ih =>
      obtain ⟨hhead, htail⟩ := List.forall_mem_cons.mp hi
      rw [put]
      split
      · exact .refl _
      · rw [if_neg (Ne.symm hhead)]
        exact ((ih htail).cons e).trans (.swap ..)

theorem mem_put {i : Int} {text : String} {m : PositionTexts} {e : Int × String} (he : e ∈ put i text m) :
    e = (i, text) ∨ e ∈ m := by
  induction m with
  | nil => exact .inl (List.mem_singleton.mp he)
  | cons e' m ih =>
      rw [put] at he
      split at he
      · exact List.mem_cons.mp he
      split at he
      · exact (List.mem_cons.mp he).imp_right (List.mem_cons_of_mem _)
      · rcases List.mem_cons.mp he with rfl | he
        · exact .inr List.mem_cons_self
        · exact (ih he).imp_right (List.mem_cons_of_mem _)

/-- A text is put at its place in the order, also in place of another. -/
theorem Sorted.put {i : Int} {text : String} {m : PositionTexts} (hm : m.Sorted) : (put i text m).Sorted := by
  induction m with
  | nil => exact List.pairwise_singleton _ _
  | cons e m ih =>
      obtain ⟨hbefore, hrest⟩ := List.pairwise_cons.mp hm
      rw [PositionTexts.put]
      split
      · rename_i hless
        refine List.pairwise_cons.mpr ⟨List.forall_mem_cons.mpr ⟨hless, fun e' he' => ?_⟩, hm⟩
        exact Int.lt_trans hless (hbefore e' he')
      split
      · rename_i heq
        subst heq
        exact List.pairwise_cons.mpr ⟨hbefore, hrest⟩
      · rename_i hless hne
        refine List.pairwise_cons.mpr ⟨fun e' he' => ?_, ih hrest⟩
        rcases mem_put he' with rfl | he'
        · change e.1 < i
          omega
        · exact hbefore e' he'

/-- Entries put in one after the other stand in the order of their positions. -/
theorem perm_foldl_put {es m : PositionTexts} (hm : m.Sorted)
    (hdiff : (es.map (·.1)).Nodup) (hnew : ∀ e ∈ es, ∀ e' ∈ m, e'.1 ≠ e.1) :
    (es.foldl (fun m e => put e.1 e.2 m) m).Perm (es ++ m) ∧
      Sorted (es.foldl (fun m e => put e.1 e.2 m) m) := by
  induction es generalizing m with
  | nil => exact ⟨.refl _, hm⟩
  | cons e es ih =>
      obtain ⟨hhead, htail⟩ := List.forall_mem_cons.mp hnew
      rw [List.map_cons, List.nodup_cons] at hdiff
      have hput := perm_put e.2 hhead
      have hnew' : ∀ e' ∈ es, ∀ e'' ∈ put e.1 e.2 m, e''.1 ≠ e'.1 := by
        intro e' he' e'' he''
        rcases List.mem_cons.mp (hput.mem_iff.mp he'') with rfl | he''
        · intro heq
          exact hdiff.1 (List.mem_map.mpr ⟨e', he', heq.symm⟩)
        · exact htail e' he' e'' he''
      obtain ⟨hperm, hsorted⟩ := ih hm.put hdiff.2 hnew'
      exact ⟨hperm.trans ((List.Perm.append_left es hput).trans List.perm_middle), hsorted⟩

theorem Sorted.nodup_positions {m : PositionTexts} (hm : m.Sorted) : (m.map (·.1)).Nodup :=
  List.pairwise_map.mpr (List.Pairwise.imp (fun h => Int.ne_of_lt h) hm)

/-- However its entries are ordered before, a record of texts is put together again. -/
theorem foldl_put_eq {es m : PositionTexts} (hm : m.Sorted) (hes : es.Perm m) :
    es.foldl (fun m e => put e.1 e.2 m) [] = m := by
  obtain ⟨hperm, hsorted⟩ := perm_foldl_put (m := []) List.Pairwise.nil
    ((hes.map _).nodup_iff.mpr hm.nodup_positions) (fun _ _ => nofun)
  rw [List.append_nil] at hperm
  refine List.Perm.eq_of_pairwise (fun e e' _ _ h h' => ?_) hsorted hm (hperm.trans hes)
  omega

end PositionTexts

namespace Documentation

theorem position?_of_digits {key : String} (negative : Bool) {n : Nat}
    (hkey : key.toList = (if negative then ['-'] else []) ++ Nat.toDigits 10 n)
    {i : Int} (hi : i = if negative then -(n : Int) else n) (hlow : -(Nat.pow 2 63 : Nat) ≤ i)
    (hhigh : i < (Nat.pow 2 63 : Nat)) : position? key = some i := by
  have hdigits : (Nat.toDigits 10 n).all Char.isDigit = true :=
    List.all_eq_true.mpr fun c hc => Nat.isDigit_of_mem_toDigits (by decide) (by decide) hc
  have hnonempty : (Nat.toDigits 10 n).isEmpty = false := by
    rw [List.isEmpty_eq_false_iff]
    exact Nat.toDigits_ne_nil
  have hplain : ∀ c cs, Nat.toDigits 10 n = c :: cs → c ≠ '-' ∧ c ≠ '+' := by
    intro c cs hchars
    rw [hchars] at hdigits
    constructor
    · rintro rfl
      simp at hdigits
    · rintro rfl
      simp at hdigits
  rw [position?, hkey]
  cases negative with
  | true =>
      simp only [if_true, List.singleton_append, hnonempty, hdigits, Bool.not_true, Bool.or_self,
        Bool.false_eq_true, if_false, Nat.ofDigitChars_ten_toDigits] at hi ⊢
      rw [← hi, if_pos ⟨hlow, hhigh⟩]
  | false =>
      simp only [Bool.false_eq_true, if_false, List.nil_append] at hi ⊢
      split
      · rename_i hchars
        exact absurd rfl (hplain _ _ hchars).1
      · rename_i hchars
        exact absurd rfl (hplain _ _ hchars).2
      · simp only [hnonempty, hdigits, Bool.not_true, Bool.or_self, Bool.false_eq_true, if_false,
          Nat.ofDigitChars_ten_toDigits]
        rw [← hi, if_pos ⟨hlow, hhigh⟩]

/-- A position is read off its own text. -/
theorem position?_toString {i : Int} (hlow : -(Nat.pow 2 63 : Nat) ≤ i) (hhigh : i < (Nat.pow 2 63 : Nat)) :
    position? (toString i) = some i := by
  cases i with
  | ofNat n =>
      refine position?_of_digits false (n := n) ?_ rfl hlow hhigh
      change (toString n).toList = _
      rw [Nat.toString_eq_repr, Nat.toList_repr]
      rfl
  | negSucc n =>
      refine position?_of_digits true (n := n + 1) ?_ rfl hlow hhigh
      change ("-" ++ toString (n + 1)).toList = _
      rw [String.toList_append, Nat.toString_eq_repr, Nat.toList_repr]
      rfl

def positionMember (e : Int × String) : String × Json := (toString e.1, .str e.2)

theorem addParamTexts_map {es m : PositionTexts} (hes : PositionTexts.Fits es) :
    addParamTexts m (es.map positionMember) =
      some (es.foldl (fun m e => PositionTexts.put e.1 e.2 m) m) := by
  induction es generalizing m with
  | nil => rfl
  | cons e es ih =>
      obtain ⟨⟨hlow, hhigh⟩, htail⟩ := List.forall_mem_cons.mp hes
      rw [List.map_cons, positionMember, addParamTexts, position?_toString hlow hhigh]
      exact ih htail

/-- The members of the parameter texts are those of the texts in some order. -/
theorem paramMembers_eq_map (m : PositionTexts) :
    ∃ es : PositionTexts, es.Perm m ∧ paramMembers m = es.map positionMember :=
  ⟨m.mergeSort fun a b => toString a.1 ≤ toString b.1, List.mergeSort_perm _ _,
    (List.map_mergeSort (f := positionMember) (fun _ _ _ _ => rfl)).symm⟩

theorem addParamTexts_paramMembers {m : PositionTexts} (hm : m.Sorted) (hfits : m.Fits) :
    addParamTexts [] (paramMembers m) = some m := by
  obtain ⟨es, hperm, hmembers⟩ := paramMembers_eq_map m
  rw [hmembers, addParamTexts_map fun e he => hfits e (hperm.mem_iff.mp he),
    PositionTexts.foldl_put_eq hm hperm]

theorem textsOver_map_str (texts : List String) :
    textsOver [] (texts.map .str) = some texts := by
  induction texts with
  | nil => rfl
  | cons text texts ih => simp [textsOver, text?, ih]

/-- A record that storing keeps as it is: positions in order, and within 64 bits. -/
structure Storable (d : Documentation) : Prop where
  sorted : d.paramDocs.Sorted
  fits : d.paramDocs.Fits

theorem textual_toJson (d : Documentation) (depth : Nat) : Json.Textual (depth + 2) d.toJson := by
  obtain ⟨summary, paramDocs, returnDoc, failures⟩ := d
  obtain ⟨es, -, hmembers⟩ := paramMembers_eq_map paramDocs
  intro m hm
  simp only [List.mem_append] at hm
  rcases hm with ((hm | hm) | hm) | hm
  · rw [Json.textMember] at hm
    split at hm
    · cases hm
    · cases List.mem_singleton.mp hm
      trivial
  · split at hm
    · cases hm
    · cases List.mem_singleton.mp hm
      rw [hmembers]
      exact List.forall_mem_map.mpr fun _ _ => Json.textual_str _ _
  · cases returnDoc with
    | none => cases hm
    | some text =>
        cases List.mem_singleton.mp hm
        trivial
  · rw [Json.listMember] at hm
    split at hm
    · cases hm
    · cases List.mem_singleton.mp hm
      exact List.forall_mem_map.mpr fun _ _ => Json.textual_str _ _

theorem addAll_append (d : Draft) (ms ms' : List (String × Json)) :
    d.addAll (ms ++ ms') = (d.addAll ms).bind (·.addAll ms') := by
  induction ms generalizing d with
  | nil => rfl
  | cons m ms ih =>
      obtain ⟨key, value⟩ := m
      rw [List.cons_append, Draft.addAll, Draft.addAll]
      cases hadd : d.add key value with
      | none => rfl
      | some d' => exact ih d'

/-- A draft without failure texts. -/
def draftOf (summary : String) (paramDocs : PositionTexts) (returnDoc : Option String) : Draft :=
  { doc := { summary := summary, paramDocs := paramDocs, returnDoc := returnDoc } }

theorem addAll_summary (text : String) :
    (draftOf "" [] none).addAll (Json.textMember "summary" text) = some (draftOf text [] none) := by
  rw [Json.textMember]
  split
  · subst_vars
    rfl
  · rfl

theorem addAll_params (summary : String) {m : PositionTexts} (hm : m.Sorted) (hfits : m.Fits) :
    (draftOf summary [] none).addAll
        (if m.isEmpty then [] else [("param_docs", .obj (paramMembers m))]) =
      some (draftOf summary m none) := by
  split
  · rename_i hempty
    rw [List.isEmpty_iff.mp hempty]
    rfl
  · have hadd : (draftOf summary [] none).add "param_docs" (.obj (paramMembers m)) =
        (addParamTexts [] (paramMembers m)).bind fun m => some (draftOf summary m none) := rfl
    rw [Draft.addAll, hadd, addParamTexts_paramMembers hm hfits]
    rfl

theorem addAll_result (summary : String) (m : PositionTexts) (text : Option String) :
    (draftOf summary m none).addAll (Json.optionMember "return_doc" text) =
      some (draftOf summary m text) := by
  cases text <;> rfl

theorem addAll_failures (summary : String) (m : PositionTexts) (text : Option String)
    (failures : List String) :
    ((draftOf summary m text).addAll
        (Json.listMember "failure_conditions" (failures.map .str))).map (·.doc) =
      some ⟨summary, m, text, failures⟩ := by
  rw [Json.listMember]
  cases failures with
  | nil => rfl
  | cons failure failures =>
      have hadd : (draftOf summary m text).add "failure_conditions"
          (.arr ((failure :: failures).map .str)) =
          (textsOver [] ((failure :: failures).map .str)).bind fun texts =>
            some ⟨⟨summary, m, text, texts⟩, texts ++ List.drop texts.length []⟩ := rfl
      rw [List.map_cons, List.isEmpty_cons, if_neg (by decide), Draft.addAll, ← List.map_cons, hadd,
        textsOver_map_str]
      rfl

theorem ofJson?_toJson {d : Documentation} (hd : d.Storable) : ofJson? d.toJson = some d := by
  obtain ⟨summary, paramDocs, returnDoc, failures⟩ := d
  rw [toJson, ofJson?]
  change ((draftOf "" [] none).addAll _).map _ = _
  rw [addAll_append, addAll_append, addAll_append, addAll_summary, Option.bind_some,
    addAll_params summary hd.sorted hd.fits, Option.bind_some, addAll_result, Option.bind_some,
    addAll_failures]

/-- The stored text of a record is read back to the record. -/
theorem ofText?_compact {d : Documentation} (hd : d.Storable) :
    ofText? d.toJson.compact = some d := by
  have hne : d.toJson.compact ≠ "" := by
    intro hempty
    have := congrArg String.toList hempty
    rw [toJson, Json.toList_compact_obj] at this
    cases this
  rw [ofText?, if_neg hne, Json.parse?_compact (textual_toJson d 9998), Option.bind_some,
    ofJson?_toJson hd]

end Documentation

namespace FunctionRow

/-- A row that holds what is stored of a function reads back as the function, at the place and with the
anchor that the row has. -/
theorem toDocumented_eq_ok {f : Documented} (hs : f.signature.WellFormed) (hd : f.doc.Storable)
    {row : FunctionRow} (hsignature : row.signature = f.signature.render)
    (horder : row.order = f.signature.order) (hdoc : row.docJson = f.doc.toJson.compact) :
    row.toDocumented =
      .ok { f with
        signature.source := ⟨row.filePath, row.startLine, row.endLine⟩
        signature.anchor := row.anchor } := by
  have hparse : Signature.parse row.signature row.order = .ok f.signature.unplaced := by
    rw [hsignature, horder]
    exact Signature.parse_eq_ok_iff.mpr ⟨⟨hs.name, hs.paramNames, hs.paramTypes, hs.result⟩, rfl, rfl,
      Signature.lexemes_render hs⟩
  rw [toDocumented, hparse]
  simp only [hdoc, Documentation.ofText?_compact hd]
  rfl

end FunctionRow

end OverloadDocs
