import OverloadDocs.Proofs.Spelling

/-!
How the reader of types is inverted by their spelling. It takes a type off some tokens exactly when their
lexemes begin with the spelling of that type: what is read is valid and was spelled, and what is valid and
spelled is read, whatever follows.
-/

namespace OverloadDocs

open Text

/-- Tokens that begin with some lexemes, before the tokens of a rest. -/
def Spelled (input : List Token) (ls : List Lexeme) (rest : List Token) : Prop :=
  input.map (·.lexeme) = ls ++ rest.map (·.lexeme)

theorem Spelled.cons {t : Token} {input : List Token} {ls : List Lexeme} {rest : List Token}
    (h : Spelled input ls rest) : Spelled (t :: input) (t.lexeme :: ls) rest := by
  rw [Spelled, List.map_cons, h]
  rfl

theorem Spelled.append {input mid rest : List Token} {ls ls' : List Lexeme}
    (h : Spelled input ls mid) (h' : Spelled mid ls' rest) : Spelled input (ls ++ ls') rest := by
  rw [Spelled, h, h', List.append_assoc]

theorem Spelled.refl (input : List Token) : Spelled input [] input := rfl

/-- Tokens as they are cut from a text: the words among them are identifiers. -/
def WordsCut (input : List Token) : Prop :=
  ∀ name, Lexeme.ident name ∈ input.map (·.lexeme) → isIdentifier name

theorem WordsCut.rest {input rest : List Token} {ls : List Lexeme} (h : WordsCut input)
    (hs : Spelled input ls rest) : WordsCut rest := by
  intro name hname
  apply h
  rw [hs]
  exact List.mem_append_right _ hname

theorem WordsCut.tail {t : Token} {input : List Token} (h : WordsCut (t :: input)) :
    WordsCut input :=
  h.rest (Spelled.refl input).cons

namespace Token

theorem isIdentifier_ofList {c : Char} {cs : List Char} (hc : isIdentStart c)
    (hcs : cs.all isIdentPart) : isIdentifier (String.ofList (c :: cs)) := by
  rw [isIdentifier, String.toList_ofList]
  exact Bool.and_eq_true_iff.mpr ⟨hc, hcs⟩

theorem not_ident_mem_symbols (name : String) (c : Char) : Lexeme.ident name ∉ symbols c := by
  unfold symbols
  split <;> simp

theorem wordsCut_scanFrom (offset : Nat) (cs : List Char) : WordsCut (scanFrom offset cs) := by
  intro name
  fun_induction scanFrom offset cs with
  | case1 =>
      intro hname
      cases hname
  | case2 offset c cs hspace ih => exact ih
  | case3 offset c cs hspace hstart word ih =>
      rw [List.map_cons, List.mem_cons]
      rintro (hword | hrest)
      · cases hword
        exact isIdentifier_ofList hstart (List.all_takeWhile)
      · exact ih hrest
  | case4 offset c cs hspace hstart ih =>
      rw [List.map_append, map_lexeme_mapIdx, List.mem_append]
      rintro (hsymbol | hrest)
      · exact absurd hsymbol (not_ident_mem_symbols name c)
      · exact ih hrest

theorem wordsCut_scan (text : String) : WordsCut (scan text) := wordsCut_scanFrom 0 text.toList

end Token

namespace Grammar

/-- A reader takes a value off the front of some tokens and leaves a rest. -/
def Takes {α : Type} (read : (input : List Token) → Except Failure (Reading α input))
    (input : List Token) (value : α) (rest : List Token) : Prop :=
  ∃ h, read input = .ok ⟨value, rest, h⟩

theorem Takes.unique {α : Type} {read : (input : List Token) → Except Failure (Reading α input)}
    {input rest rest' : List Token} {value value' : α} (h : Takes read input value rest)
    (h' : Takes read input value' rest') : value = value' ∧ rest = rest' := by
  obtain ⟨_, h⟩ := h
  obtain ⟨_, h'⟩ := h'
  cases h.symm.trans h'
  exact ⟨rfl, rfl⟩

theorem Takes.shorter {α : Type} {read : (input : List Token) → Except Failure (Reading α input)}
    {input rest : List Token} {value : α} (h : Takes read input value rest) :
    rest.length < input.length :=
  h.1

/-! ## Dimensions -/

theorem commas_spelled (input : List Token) :
    Spelled input (List.replicate (input.takeWhile isComma).length .comma)
      (input.dropWhile isComma) := by
  induction input with
  | nil => rfl
  | cons t input ih =>
      by_cases ht : isComma t
      · rw [List.takeWhile_cons_of_pos ht, List.dropWhile_cons_of_pos ht, List.length_cons,
          List.replicate_succ]
        have hlexeme : t.lexeme = .comma := of_decide_eq_true ht
        rw [← hlexeme]
        rw [← hlexeme] at ih
        exact ih.cons
      · rw [List.takeWhile_cons_of_neg ht, List.dropWhile_cons_of_neg ht]
        exact Spelled.refl _

theorem readDimensions_sound {input rest : List Token} {dims : Int}
    (h : Takes readDimensions input dims rest) :
    ∃ n : Nat, dims = n + 1 ∧
      Spelled input (.openBracket :: List.replicate n .comma ++ [.closeBracket]) rest := by
  obtain ⟨hlength, h⟩ := h
  unfold readDimensions at h
  split at h
  · rename_i offset ts
    split at h
    · rename_i offset' rest' hrest
      cases h
      refine ⟨_, rfl, ?_⟩
      have hcommas := commas_spelled ts
      rw [hrest] at hcommas
      exact (hcommas.append (Spelled.refl rest).cons).cons
    · cases h
  · cases h

theorem map_lexeme_eq_cons {input : List Token} {l : Lexeme} {ls : List Lexeme}
    (h : input.map (·.lexeme) = l :: ls) :
    ∃ offset ts, input = ⟨l, offset⟩ :: ts ∧ ts.map (·.lexeme) = ls := by
  obtain ⟨⟨lexeme, offset⟩, ts, rfl, rfl, rfl⟩ := List.map_eq_cons_iff.mp h
  exact ⟨offset, ts, rfl, rfl⟩

theorem commas_complete {input : List Token} {n : Nat} {l : Lexeme} {ls : List Lexeme}
    (hl : l ≠ .comma) (h : input.map (·.lexeme) = List.replicate n .comma ++ l :: ls) :
    (input.takeWhile isComma).length = n ∧
      ∃ offset rest, input.dropWhile isComma = ⟨l, offset⟩ :: rest ∧ rest.map (·.lexeme) = ls := by
  induction n generalizing input with
  | zero =>
      obtain ⟨offset, ts, rfl, hts⟩ := map_lexeme_eq_cons h
      have hnot : ¬ isComma ⟨l, offset⟩ := by
        rw [isComma, decide_eq_true_eq]
        exact hl
      rw [List.takeWhile_cons_of_neg hnot, List.dropWhile_cons_of_neg hnot]
      exact ⟨rfl, offset, ts, rfl, hts⟩
  | succ n ih =>
      obtain ⟨offset, ts, rfl, hts⟩ := map_lexeme_eq_cons h
      have hcomma : isComma ⟨.comma, offset⟩ := rfl
      obtain ⟨hlength, hrest⟩ := ih hts
      rw [List.takeWhile_cons_of_pos hcomma, List.dropWhile_cons_of_pos hcomma, List.length_cons,
        hlength]
      exact ⟨rfl, hrest⟩

theorem readDimensions_complete {input : List Token} {n : Nat} {ls : List Lexeme}
    (h : input.map (·.lexeme) =
      .openBracket :: List.replicate n .comma ++ .closeBracket :: ls) :
    ∃ rest, rest.map (·.lexeme) = ls ∧ Takes readDimensions input (n + 1) rest := by
  obtain ⟨offset, ts, rfl, hts⟩ := map_lexeme_eq_cons h
  obtain ⟨hlength, offset', rest, hdrop, hrest⟩ := commas_complete (by decide) hts
  refine ⟨rest, hrest, ?_⟩
  unfold Takes readDimensions
  dsimp only
  split
  · rename_i offset'' rest' hrest'
    cases hdrop.symm.trans hrest'
    have hshorter := (List.dropWhile_suffix isComma (l := ts)).length_le
    rw [hdrop] at hshorter
    rw [hlength]
    exact ⟨by simp only [List.length_cons] at hshorter ⊢; omega, rfl⟩
  · rename_i hnot
    exact absurd hdrop (hnot _ _)

/-! ## Types -/

/-- The type that a word spells by itself. -/
def typeOfWord (name : String) : TypeExpr :=
  if name = "vector" then .vector
  else if name = "row_vector" then .rowVector
  else if name = "matrix" then .matrix
  else .primitive name

theorem takes_array {offset : Nat} {ts rest : List Token} {t : TypeExpr} :
    Takes readType (⟨.ident "array", offset⟩ :: ts) t rest ↔
      ∃ dims mid elem, Takes readDimensions ts dims mid ∧ Takes readType mid elem rest ∧
        t = .array dims elem := by
  constructor
  · rintro ⟨hlength, h⟩
    rw [readType.eq_def] at h
    dsimp only at h
    rw [if_pos rfl] at h
    split at h
    · cases h
    · rename_i dims mid hmid hdims
      split at h
      · cases h
      · rename_i elem rest' hrest helem
        cases h
        exact ⟨dims, mid, elem, ⟨_, hdims⟩, ⟨_, helem⟩, rfl⟩
  · rintro ⟨dims, mid, elem, ⟨hmid, hdims⟩, ⟨hrest, helem⟩, rfl⟩
    refine ⟨by simp only [List.length_cons]; omega, ?_⟩
    rw [readType.eq_def]
    simp only [if_true, hdims, helem]

theorem takes_tuple {offset : Nat} {ts rest : List Token} {t : TypeExpr} :
    Takes readType (⟨.ident "tuple", offset⟩ :: ts) t rest ↔
      ∃ offset' us elems, ts = ⟨.openParen, offset'⟩ :: us ∧ closes us = false ∧
        Takes readElements us elems rest ∧ t = .tuple elems := by
  constructor
  · rintro ⟨hlength, h⟩
    rw [readType.eq_def] at h
    dsimp only at h
    rw [if_neg (by decide), if_pos rfl] at h
    split at h
    · rename_i offset' us
      split at h
      · cases h
      · rename_i hcloses
        split at h
        · cases h
        · rename_i elems rest' hrest helems
          cases h
          exact ⟨offset', us, elems, rfl, Bool.eq_false_iff.mpr hcloses, ⟨_, helems⟩, rfl⟩
    · cases h
  · rintro ⟨offset', us, elems, rfl, hcloses, ⟨hrest, helems⟩, rfl⟩
    refine ⟨by simp only [List.length_cons]; omega, ?_⟩
    rw [readType.eq_def]
    simp only [String.reduceEq, if_true, if_false, hcloses, Bool.false_eq_true, helems]

theorem takes_word {name : String} (harray : name ≠ "array") (htuple : name ≠ "tuple")
    {offset : Nat} {ts rest : List Token} {t : TypeExpr} :
    Takes readType (⟨.ident name, offset⟩ :: ts) t rest ↔ t = typeOfWord name ∧ rest = ts := by
  have hread : Takes readType (⟨.ident name, offset⟩ :: ts) (typeOfWord name) ts := by
    refine ⟨Nat.lt_succ_self _, ?_⟩
    rw [readType.eq_def]
    simp only [if_neg harray, if_neg htuple, typeOfWord]
    by_cases hvector : name = "vector"
    · simp only [if_pos hvector]
    · by_cases hrow : name = "row_vector"
      · simp only [if_neg hvector, if_pos hrow]
      · by_cases hmatrix : name = "matrix"
        · simp only [if_neg hvector, if_neg hrow, if_pos hmatrix]
        · simp only [if_neg hvector, if_neg hrow, if_neg hmatrix]
  constructor
  · intro h
    exact h.unique hread
  · rintro ⟨rfl, rfl⟩
    exact hread

theorem ident_of_takes_type {input rest : List Token} {t : TypeExpr}
    (h : Takes readType input t rest) : ∃ name offset ts, input = ⟨.ident name, offset⟩ :: ts := by
  obtain ⟨hlength, h⟩ := h
  rw [readType.eq_def] at h
  split at h
  · rename_i name offset ts
    exact ⟨name, offset, ts, rfl⟩
  · cases h

theorem takes_elements {input rest : List Token} {elems : List TypeExpr} :
    Takes readElements input elems rest ↔
      ∃ t mid, Takes readType input t mid ∧
        ((∃ offset ts more, mid = ⟨.comma, offset⟩ :: ts ∧ Takes readElements ts more rest ∧
            elems = t :: more) ∨
          ∃ offset, mid = ⟨.closeParen, offset⟩ :: rest ∧ elems = [t]) := by
  constructor
  · rintro ⟨hlength, h⟩
    rw [readElements] at h
    split at h
    · cases h
    · rename_i t mid hmid ht
      split at h
      · rename_i offset ts _
        split at h
        · cases h
        · rename_i more rest' hrest hmore
          cases h
          exact ⟨t, _, ⟨_, ht⟩, .inl ⟨offset, ts, more, rfl, ⟨_, hmore⟩, rfl⟩⟩
      · rename_i offset ts _
        cases h
        exact ⟨t, _, ⟨_, ht⟩, .inr ⟨offset, rfl, rfl⟩⟩
      · cases h
  · rintro ⟨t, mid, ⟨hmid, ht⟩, ⟨offset, ts, more, rfl, ⟨hrest, hmore⟩, rfl⟩ | ⟨offset, rfl, rfl⟩⟩
    · refine ⟨by simp only [List.length_cons] at hmid; omega, ?_⟩
      rw [readElements]
      simp only [ht, hmore]
    · refine ⟨by simp only [List.length_cons] at hmid; omega, ?_⟩
      rw [readElements]
      simp only [ht]

/-- A word by itself is read as a type that is valid, and that it spells. -/
theorem typeOfWord_valid {name : String} (hname : isIdentifier name) (harray : name ≠ "array")
    (htuple : name ≠ "tuple") :
    (typeOfWord name).Valid ∧ (typeOfWord name).lexemes = [.ident name] := by
  rw [typeOfWord]
  by_cases hvector : name = "vector"
  · subst hvector
    exact ⟨by decide, rfl⟩
  by_cases hrow : name = "row_vector"
  · subst hrow
    exact ⟨by decide, rfl⟩
  by_cases hmatrix : name = "matrix"
  · subst hmatrix
    exact ⟨by decide, rfl⟩
  rw [if_neg hvector, if_neg hrow, if_neg hmatrix, TypeExpr.valid_primitive]
  refine ⟨⟨hname, ?_⟩, rfl⟩
  simp [TypeExpr.isKeyword, TypeExpr.keywords, *]

theorem elements_sound {n : Nat}
    (htypes : ∀ {input rest : List Token} {t : TypeExpr}, input.length ≤ n → WordsCut input →
      Takes readType input t rest → t.Valid ∧ Spelled input t.lexemes rest)
    {input rest : List Token} {elems : List TypeExpr} (hn : input.length ≤ n)
    (hcut : WordsCut input) (h : Takes readElements input elems rest) :
    (TypeExpr.tuple elems).Valid ∧
      Spelled input ([Lexeme.comma].intercalate (elems.map (·.lexemes)) ++ [.closeParen]) rest := by
  induction elems generalizing input with
  | nil =>
      obtain ⟨t, mid, -, ⟨_, _, _, -, -, h⟩ | ⟨_, -, h⟩⟩ := takes_elements.mp h <;> cases h
  | cons t elems ih =>
      obtain ⟨t', mid, ht, hmid⟩ := takes_elements.mp h
      obtain ⟨hvalid, hspelled⟩ := htypes hn hcut ht
      have hshorter := ht.shorter
      rcases hmid with ⟨offset, ts, more, rfl, hmore, heq⟩ | ⟨offset, rfl, heq⟩
      · cases heq
        simp only [List.length_cons] at hshorter
        obtain ⟨hrest, hspelled'⟩ := ih (by omega) (hcut.rest hspelled).tail hmore
        obtain ⟨hne, hall⟩ := TypeExpr.valid_tuple.mp hrest
        refine ⟨TypeExpr.valid_tuple.mpr ⟨List.cons_ne_nil _ _,
          List.forall_mem_cons.mpr ⟨hvalid, hall⟩⟩, ?_⟩
        rw [List.map_cons, List.intercalate_cons_of_ne_nil (by simpa using hne), List.append_assoc,
          List.append_assoc]
        exact hspelled.append hspelled'.cons
      · cases heq
        refine ⟨TypeExpr.valid_tuple.mpr ⟨List.cons_ne_nil _ _, by simpa using hvalid⟩, ?_⟩
        rw [List.map_cons, List.map_nil, List.intercalate_singleton]
        exact hspelled.append (Spelled.refl rest).cons

/-- A type that is read is valid, and the tokens taken spell it. -/
theorem type_sound_of_length_le (n : Nat) {input rest : List Token} {t : TypeExpr}
    (hn : input.length ≤ n) (hcut : WordsCut input) (h : Takes readType input t rest) :
    t.Valid ∧ Spelled input t.lexemes rest := by
  -- On the length, since the elements of a tuple are read behind one another and not from a subterm.
  induction n generalizing input rest t with
  | zero =>
      have := h.shorter
      omega
  | succ n ih =>
      obtain ⟨name, offset, ts, rfl⟩ := ident_of_takes_type h
      simp only [List.length_cons] at hn
      by_cases harray : name = "array"
      · subst harray
        obtain ⟨dims, mid, elem, hdims, helem, rfl⟩ := takes_array.mp h
        obtain ⟨k, rfl, hspelled⟩ := readDimensions_sound hdims
        have hmid := hdims.shorter
        obtain ⟨hvalid, hspelled'⟩ := ih (by omega) (hcut.tail.rest hspelled) helem
        refine ⟨TypeExpr.valid_array.mpr ⟨by omega, hvalid⟩, ?_⟩
        have hcommas : ((k : Int) + 1 - 1).toNat = k := by omega
        have := (hspelled.append hspelled').cons (t := ⟨.ident "array", offset⟩)
        simpa only [TypeExpr.lexemes, hcommas, List.append_assoc, List.cons_append,
          List.nil_append] using this
      by_cases htuple : name = "tuple"
      · subst htuple
        obtain ⟨offset', us, elems, rfl, -, helems, rfl⟩ := takes_tuple.mp h
        simp only [List.length_cons] at hn
        obtain ⟨hvalid, hspelled⟩ := elements_sound ih (by omega) hcut.tail.tail helems
        refine ⟨hvalid, ?_⟩
        have := (hspelled.cons (t := ⟨.openParen, offset'⟩)).cons (t := ⟨.ident "tuple", offset⟩)
        rw [TypeExpr.lexemes, TypeExpr.lexemesOfEach_eq_map]
        exact this
      obtain ⟨rfl, rfl⟩ := (takes_word harray htuple).mp h
      obtain ⟨hvalid, hlexemes⟩ :=
        typeOfWord_valid (hcut name (List.mem_cons_self)) harray htuple
      refine ⟨hvalid, ?_⟩
      rw [hlexemes]
      exact (Spelled.refl rest).cons

theorem type_sound {input rest : List Token} {t : TypeExpr} (hcut : WordsCut input)
    (h : Takes readType input t rest) : t.Valid ∧ Spelled input t.lexemes rest :=
  type_sound_of_length_le input.length (Nat.le_refl _) hcut h

/-- The spelling of a valid type begins with a word, so it is no closing parenthesis. -/
theorem lexemes_head {t : TypeExpr} (ht : t.Valid) : ∃ name ls, t.lexemes = .ident name :: ls := by
  cases t with
  | missing => exact absurd ht TypeExpr.not_valid_missing
  | _ => exact ⟨_, _, rfl⟩

theorem closes_eq_false {input : List Token} {name : String} {ls : List Lexeme}
    (h : input.map (·.lexeme) = .ident name :: ls) : closes input = false := by
  obtain ⟨offset, ts, rfl, -⟩ := map_lexeme_eq_cons h
  rfl

theorem elements_complete {elems : List TypeExpr}
    (htypes : ∀ t ∈ elems, ∀ {input : List Token} {ls : List Lexeme},
      input.map (·.lexeme) = t.lexemes ++ ls →
        ∃ rest, rest.map (·.lexeme) = ls ∧ Takes readType input t rest)
    (hne : elems ≠ []) {input : List Token} {ls : List Lexeme}
    (h : input.map (·.lexeme) =
      [Lexeme.comma].intercalate (elems.map (·.lexemes)) ++ .closeParen :: ls) :
    ∃ rest, rest.map (·.lexeme) = ls ∧ Takes readElements input elems rest := by
  induction elems generalizing input with
  | nil => exact absurd rfl hne
  | cons t elems ih =>
      obtain ⟨hhead, htail⟩ := List.forall_mem_cons.mp htypes
      rw [List.map_cons] at h
      by_cases hmore : elems = []
      · subst hmore
        rw [List.map_nil, List.intercalate_singleton] at h
        obtain ⟨mid, hmid, ht⟩ := hhead h
        obtain ⟨offset, rest, rfl, hrest⟩ := map_lexeme_eq_cons hmid
        exact ⟨rest, hrest, takes_elements.mpr ⟨t, _, ht, .inr ⟨offset, rfl, rfl⟩⟩⟩
      · rw [List.intercalate_cons_of_ne_nil (by simpa using hmore), List.append_assoc,
          List.append_assoc] at h
        obtain ⟨mid, hmid, ht⟩ := hhead h
        obtain ⟨offset, ts, rfl, hts⟩ := map_lexeme_eq_cons hmid
        obtain ⟨rest, hrest, helems⟩ := ih htail hmore hts
        exact ⟨rest, hrest,
          takes_elements.mpr ⟨t, _, ht, .inl ⟨offset, ts, elems, rfl, helems, rfl⟩⟩⟩

/-- A valid type is read off its spelling, whatever follows. -/
theorem type_complete {t : TypeExpr} (ht : t.Valid) {input : List Token} {ls : List Lexeme}
    (h : input.map (·.lexeme) = t.lexemes ++ ls) :
    ∃ rest, rest.map (·.lexeme) = ls ∧ Takes readType input t rest := by
  induction t generalizing input ls with
  | missing => exact absurd ht TypeExpr.not_valid_missing
  | primitive name =>
      obtain ⟨-, hword⟩ := TypeExpr.valid_primitive.mp ht
      obtain ⟨offset, rest, rfl, hrest⟩ := map_lexeme_eq_cons h
      simp only [TypeExpr.isKeyword, TypeExpr.keywords, List.contains_eq_mem, decide_eq_false_iff_not,
        List.mem_cons, not_or] at hword
      obtain ⟨harray, htuple, hvector, hrow, hmatrix, -⟩ := hword
      refine ⟨rest, hrest, (takes_word harray htuple).mpr ⟨?_, rfl⟩⟩
      rw [typeOfWord, if_neg hvector, if_neg hrow, if_neg hmatrix]
  | array dims elem ih =>
      obtain ⟨hdims, helem⟩ := TypeExpr.valid_array.mp ht
      simp only [TypeExpr.lexemes, List.cons_append, List.append_assoc] at h
      obtain ⟨offset, ts, rfl, hts⟩ := map_lexeme_eq_cons h
      obtain ⟨mid, hmid, hd⟩ := readDimensions_complete hts
      obtain ⟨rest, hrest, he⟩ := ih helem hmid
      refine ⟨rest, hrest, takes_array.mpr ⟨_, mid, elem, hd, he, ?_⟩⟩
      congr 1
      omega
  | vector =>
      obtain ⟨offset, rest, rfl, hrest⟩ := map_lexeme_eq_cons h
      exact ⟨rest, hrest, (takes_word (by decide) (by decide)).mpr ⟨rfl, rfl⟩⟩
  | rowVector =>
      obtain ⟨offset, rest, rfl, hrest⟩ := map_lexeme_eq_cons h
      exact ⟨rest, hrest, (takes_word (by decide) (by decide)).mpr ⟨rfl, rfl⟩⟩
  | matrix =>
      obtain ⟨offset, rest, rfl, hrest⟩ := map_lexeme_eq_cons h
      exact ⟨rest, hrest, (takes_word (by decide) (by decide)).mpr ⟨rfl, rfl⟩⟩
  | tuple elems ih =>
      obtain ⟨hne, helems⟩ := TypeExpr.valid_tuple.mp ht
      simp only [TypeExpr.lexemes, TypeExpr.lexemesOfEach_eq_map, List.cons_append,
        List.append_assoc, List.nil_append] at h
      obtain ⟨offset, ts, rfl, hts⟩ := map_lexeme_eq_cons h
      obtain ⟨offset', us, rfl, hus⟩ := map_lexeme_eq_cons hts
      have hcloses : closes us = false := by
        obtain ⟨t, more, rfl⟩ := List.exists_cons_of_ne_nil hne
        obtain ⟨name, ls', hname⟩ := lexemes_head (helems t List.mem_cons_self)
        cases more <;>
          simp only [List.map_cons, List.map_nil, List.intercalate_singleton,
            List.intercalate_cons_cons, hname, List.cons_append] at hus <;>
          exact closes_eq_false hus
      obtain ⟨rest, hrest, he⟩ :=
        elements_complete (fun t hmem _ _ => ih t hmem (helems t hmem)) hne hus
      exact ⟨rest, hrest, takes_tuple.mpr ⟨offset', us, elems, rfl, hcloses, he, rfl⟩⟩

end Grammar

end OverloadDocs
