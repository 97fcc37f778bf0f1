import OverloadDocs.Proofs.SignatureReading

/-!
The identity key of a signature decides its overload. A name can hold any characters, parentheses and
commas among them, so the key is taken apart from its end: the text of the parameter types is balanced, and
the parenthesis that opens the list is the one that the last parenthesis closes. The list of types inside is
then fixed by its lexemes.
-/

namespace OverloadDocs

open Grammar

/-- In a balanced text as many parentheses are opened as closed, and in none of its ends more. -/
structure Balanced (w : List Char) : Prop where
  total : w.count '(' = w.count ')'
  ends : ∀ a u, w = a ++ u → u.count '(' ≤ u.count ')'

namespace Balanced

theorem of_not_mem {w : List Char} (hopen : '(' ∉ w) (hclose : ')' ∉ w) : Balanced w where
  total := by rw [List.count_eq_zero.mpr hopen, List.count_eq_zero.mpr hclose]
  ends a u hu := by
    subst hu
    rw [List.count_eq_zero.mpr fun h => hopen (List.mem_append_right a h)]
    exact Nat.zero_le _

theorem append {w v : List Char} (hw : Balanced w) (hv : Balanced v) : Balanced (w ++ v) where
  total := by rw [List.count_append, List.count_append, hw.total, hv.total]
  ends a u hu := by
    rcases List.append_eq_append_iff.mp hu with ⟨b, rfl, hb⟩ | ⟨b, hb, rfl⟩
    · exact hv.ends b u hb
    · rw [List.count_append, List.count_append, hv.total]
      exact Nat.add_le_add_right (hw.ends a b hb) _

theorem enclosed {w : List Char} (hw : Balanced w) : Balanced ('(' :: (w ++ [')'])) := by
  have htotal : ('(' :: (w ++ [')'])).count '(' = ('(' :: (w ++ [')'])).count ')' := by
    simp [List.count_append, hw.total]
  refine ⟨htotal, fun a u hu => ?_⟩
  cases a with
  | nil =>
      rw [List.nil_append] at hu
      rw [← hu]
      exact Nat.le_of_eq htotal
  | cons c a =>
      rcases List.append_eq_append_iff.mp (List.cons.inj hu).2 with ⟨b, rfl, hb⟩ | ⟨b, hb, rfl⟩
      · cases b with
        | nil =>
            rw [List.nil_append] at hb
            rw [← hb]
            decide
        | cons d b =>
            obtain ⟨-, rfl⟩ := List.append_eq_nil_iff.mp (List.cons.inj hb).2.symm
            exact Nat.le_refl _
      · have hend := hw.ends a b hb
        simp only [List.count_append, List.count_singleton]
        simp
        omega

theorem intercalate {sep : List Char} (hsep : Balanced sep) {ws : List (List Char)}
    (hws : ∀ w ∈ ws, Balanced w) : Balanced (sep.intercalate ws) := by
  induction ws with
  | nil => exact of_not_mem nofun nofun
  | cons w ws ih =>
      obtain ⟨hw, htail⟩ := List.forall_mem_cons.mp hws
      by_cases hempty : ws = []
      · rwa [hempty, List.intercalate_singleton]
      · rw [List.intercalate_cons_of_ne_nil hempty]
        exact (hw.append hsep).append (ih htail)

/-- A parenthesis before a balanced text is found from the end of the whole. -/
theorem split_unique {n n' w w' : List Char} (hw : Balanced w) (hw' : Balanced w')
    (h : n ++ '(' :: w = n' ++ '(' :: w') : n = n' ∧ w = w' := by
  have key {a w w' : List Char} (hw : Balanced w) (hw' : Balanced w')
      (h : '(' :: w = a ++ '(' :: w') : a = [] := by
    cases a with
    | nil => rfl
    | cons c a =>
        have hend := hw.ends a ('(' :: w') (List.cons.inj h).2
        have htotal := hw'.total
        rw [List.count_cons_self, List.count_cons_of_ne (by decide)] at hend
        omega
  rcases List.append_eq_append_iff.mp h with ⟨a, rfl, ha⟩ | ⟨a, rfl, ha⟩
  · cases key hw hw' ha
    exact ⟨(List.append_nil n).symm, (List.cons.inj ha).2⟩
  · cases key hw' hw ha
    exact ⟨List.append_nil n', (List.cons.inj ha).2.symm⟩

end Balanced

namespace TypeExpr

theorem balanced_render {t : TypeExpr} (ht : t.Valid) : Balanced t.render.toList := by
  induction t with
  | missing => exact absurd ht not_valid_missing
  | primitive name =>
      have hname := (valid_primitive.mp ht).1
      have hparts := Text.isIdentPart_of_isIdentifier hname
      exact .of_not_mem (fun h => absurd (hparts _ h) (by decide))
        (fun h => absurd (hparts _ h) (by decide))
  | array dims elem ih =>
      have htext : (TypeExpr.array dims elem).render.toList =
          "array[".toList ++ (List.replicate (dims - 1).toNat ',' ++ ("] ".toList ++
            elem.render.toList)) := by
        simp [render]
      rw [htext]
      refine .append (.of_not_mem (by decide) (by decide)) (.append ?_
        (.append (.of_not_mem (by decide) (by decide)) (ih (valid_array.mp ht).2)))
      exact .of_not_mem (by simp [List.mem_replicate]) (by simp [List.mem_replicate])
  | vector => exact .of_not_mem (by decide) (by decide)
  | rowVector => exact .of_not_mem (by decide) (by decide)
  | matrix => exact .of_not_mem (by decide) (by decide)
  | tuple elems ih =>
      obtain ⟨-, helems⟩ := valid_tuple.mp ht
      have htext : (TypeExpr.tuple elems).render.toList =
          "tuple".toList ++ ('(' :: ((renderList ", " elems).toList ++ [')'])) := by
        simp [render, renderList]
      rw [htext, renderList, renderItems_eq_map helems, String.toList_intercalate]
      refine .append (.of_not_mem (by decide) (by decide)) (.enclosed (.intercalate
        (.of_not_mem (by decide) (by decide)) ?_))
      simpa using fun t hmem => ih t hmem (helems t hmem)

end TypeExpr

def Parameter.unnamed (t : TypeExpr) : Parameter := { type := t }

theorem paramsWellFormed_unnamed {ts : List TypeExpr} (hts : ∀ t ∈ ts, t.Valid) :
    ParamsWellFormed (ts.map .unnamed) :=
  List.forall_mem_map.mpr fun t ht => ⟨hts t ht, .inl rfl⟩

theorem map_type_unnamed (ts : List TypeExpr) : (ts.map Parameter.unnamed).map (·.type) = ts := by
  rw [List.map_map]
  exact List.map_id ts

theorem listLexemes_unnamed (ts : List TypeExpr) : listLexemes (ts.map .unnamed) =
    .openParen :: ([Lexeme.comma].intercalate (ts.map (·.lexemes)) ++ [.closeParen]) := by
  simp [listLexemes, Parameter.unnamed, Parameter.lexemes, Function.comp_def]

/-- The list of types in parentheses fixes the types. -/
theorem types_eq_of_lexemes_eq {ts ts' : List TypeExpr} (hts : ∀ t ∈ ts, t.Valid)
    (hts' : ∀ t ∈ ts', t.Valid) (h : [Lexeme.comma].intercalate (ts.map (·.lexemes)) =
      [Lexeme.comma].intercalate (ts'.map (·.lexemes))) : ts = ts' := by
  let input : List Token := (listLexemes (ts.map .unnamed)).map fun l => ⟨l, 0⟩
  have hinput : input.map (·.lexeme) = listLexemes (ts.map .unnamed) := by
    simp [input, Function.comp_def]
  have hinput' : input.map (·.lexeme) = listLexemes (ts'.map .unnamed) := by
    rw [hinput, listLexemes_unnamed, listLexemes_unnamed, h]
  obtain ⟨_, -, hread⟩ :=
    paramList_complete (paramsWellFormed_unnamed hts) (hinput.trans (List.append_nil _).symm)
  obtain ⟨_, -, hread'⟩ :=
    paramList_complete (paramsWellFormed_unnamed hts') (hinput'.trans (List.append_nil _).symm)
  have hsame := congrArg (List.map Parameter.type) (hread.unique hread').1
  rwa [map_type_unnamed, map_type_unnamed] at hsame

theorem lexemesOf_renderList {ts : List TypeExpr} (hts : ∀ t ∈ ts, t.Valid) :
    Token.lexemesOf (TypeExpr.renderList ", " ts).toList =
      [Lexeme.comma].intercalate (ts.map (·.lexemes)) := by
  have := Token.lexemesOf_intercalate (fun t : TypeExpr => t.render.toList) TypeExpr.lexemes
    (fun t hmem _ hrest => TypeExpr.lexemesOf_render (hts t hmem) hrest) Token.Stops.nil
  rw [List.append_nil] at this
  rw [TypeExpr.renderList, TypeExpr.renderItems_eq_map hts, String.toList_intercalate, List.map_map]
  simpa [Token.lexemesOf, Token.scanFrom, Function.comp_def] using this

theorem balanced_renderList {ts : List TypeExpr} (hts : ∀ t ∈ ts, t.Valid) :
    Balanced (TypeExpr.renderList ", " ts).toList := by
  rw [TypeExpr.renderList, TypeExpr.renderItems_eq_map hts, String.toList_intercalate]
  refine .intercalate (.of_not_mem (by decide) (by decide)) ?_
  simpa using fun t hmem => TypeExpr.balanced_render (hts t hmem)

/-- The text of an identity fixes the name and the types. -/
theorem identityKey_injective {name name' : String} {ts ts' : List TypeExpr}
    (hts : ∀ t ∈ ts, t.Valid) (hts' : ∀ t ∈ ts', t.Valid)
    (h : identityKey name ts = identityKey name' ts') : name = name' ∧ ts = ts' := by
  have hchars : name.toList ++ '(' :: (TypeExpr.renderList ", " ts).toList =
      name'.toList ++ '(' :: (TypeExpr.renderList ", " ts').toList := by
    have := congrArg String.toList h
    simp only [identityKey, String.toList_append] at this
    simpa using List.append_cancel_right this
  obtain ⟨hname, hlist⟩ :=
    (balanced_renderList hts).split_unique (balanced_renderList hts') hchars
  refine ⟨String.toList_inj.mp hname, types_eq_of_lexemes_eq hts hts' ?_⟩
  rw [← lexemesOf_renderList hts, ← lexemesOf_renderList hts', hlist]

namespace Signature

theorem paramFault?_eq_none {i : Nat} {params : List Parameter} :
    paramFault? i params = none ↔ ∀ p ∈ params, p.type.Valid := by
  induction params generalizing i with
  | nil => simp [paramFault?]
  | cons p params ih =>
      rw [List.forall_mem_cons, ← ih (i := i + 1), TypeExpr.Valid]
      cases htype : p.type with
      | missing => simp [paramFault?, htype, TypeExpr.fault?]
      | _ =>
          simp only [paramFault?, htype]
          split
          · rename_i hfault
            simp [hfault]
          · rename_i hfault
            simp [hfault]

/-- What makes a signature valid: a name, valid parameter types, and a valid result if there is one. -/
theorem valid_iff {s : Signature} :
    s.Valid ↔ s.name ≠ "" ∧ (∀ p ∈ s.params, p.type.Valid) ∧
      (s.returnType = .missing ∨ s.returnType.Valid) := by
  rw [← paramFault?_eq_none (i := 0), Valid, fault?]
  by_cases hname : s.name = ""
  · simp [hname]
  · rw [if_neg hname]
    cases hparams : paramFault? 0 s.params with
    | some fault => simp
    | none => cases hresult : s.returnType <;> simp [hname, TypeExpr.Valid]

theorem Valid.paramTypes {s : Signature} (h : s.Valid) : ∀ t ∈ s.paramTypes, t.Valid :=
  List.forall_mem_map.mpr (valid_iff.mp h).2.1

/-- Valid signatures have the same key exactly when they are the same overload, whatever characters
their names hold. -/
theorem key_eq_iff_sameOverload {s t : Signature} (hs : s.Valid) (ht : t.Valid) :
    s.key = t.key ↔ s.SameOverload t := by
  constructor
  · exact identityKey_injective hs.paramTypes ht.paramTypes
  · rintro ⟨hname, htypes⟩
    rw [key, key, hname, htypes]

/-- A name that looks like the beginning of a parameter list does not run into one. -/
theorem key_ne_of_parenthesis_in_name :
    let s : Signature := { name := "f(tuple(real), ", params := [{ type := .tuple [.vector] }] }
    let t : Signature := { name := "f", params := [{ type := .tuple [.primitive "real"] },
      { type := .tuple [.vector] }] }
    s.Valid ∧ t.Valid ∧ s.key ≠ t.key := by
  refine ⟨by decide, by decide, fun h => ?_⟩
  exact absurd ((key_eq_iff_sameOverload (by decide) (by decide)).mp h) (by decide)

end Signature

end OverloadDocs
