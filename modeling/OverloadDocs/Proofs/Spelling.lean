import OverloadDocs.Grammar

/-!
The spelling of types and signatures as lexemes. Lexemes are tokens that forget where they start, so two
texts with the same lexemes differ only in the blanks between their tokens. Every valid type and every
well-formed signature has one canonical list of lexemes, and its rendered text is cut into exactly that
list whatever follows it, provided that what follows does not prolong its last word.
-/

namespace OverloadDocs

open Text

/-- Induction over types, with the elements of a tuple taken one by one. -/
@[elab_as_elim, induction_eliminator]
theorem TypeExpr.inductionOn {motive : TypeExpr → Prop} (missing : motive .missing)
    (primitive : ∀ name, motive (.primitive name))
    (array : ∀ dims elem, motive elem → motive (.array dims elem))
    (vector : motive .vector) (rowVector : motive .rowVector) (matrix : motive .matrix)
    (tuple : ∀ elems, (∀ t ∈ elems, motive t) → motive (.tuple elems)) (t : TypeExpr) : motive t :=
  @TypeExpr.rec motive (fun ts => ∀ t ∈ ts, motive t) missing primitive array vector rowVector matrix
    tuple (fun _ h => nomatch h)
    (fun _ _ hhead htail => List.forall_mem_cons.mpr ⟨hhead, htail⟩) t

theorem Text.isIdentPart_of_isIdentifier {name : String} (h : isIdentifier name) :
    ∀ c ∈ name.toList, isIdentPart c := by
  rw [isIdentifier] at h
  cases hchars : name.toList with
  | nil => exact nofun
  | cons c cs =>
      rw [hchars] at h
      obtain ⟨hc, hcs⟩ := Bool.and_eq_true_iff.mp h
      exact List.forall_mem_cons.mpr
        ⟨Bool.or_eq_true_iff.mpr (.inl hc), List.all_eq_true.mp hcs⟩

namespace TypeExpr

theorem valid_array {dims : Int} {elem : TypeExpr} :
    (TypeExpr.array dims elem).Valid ↔ 1 ≤ dims ∧ elem.Valid := by
  by_cases hdims : dims < 1
  · have hnot : ¬ 1 ≤ dims := by omega
    cases elem <;> simp only [Valid, fault?, if_pos hdims, hnot, reduceCtorEq, false_and]
  · have hone : 1 ≤ dims := by omega
    cases elem <;> simp only [Valid, fault?, if_neg hdims, hone, reduceCtorEq, true_and]

theorem firstFault?_eq_none {ts : List TypeExpr} :
    firstFault? ts = none ↔ ∀ t ∈ ts, t.Valid := by
  induction ts with
  | nil => simp [firstFault?]
  | cons t ts ih =>
      rw [firstFault?, List.forall_mem_cons, ← ih]
      cases hfault : t.fault? <;> simp [Valid, hfault]

theorem valid_tuple {elems : List TypeExpr} :
    (TypeExpr.tuple elems).Valid ↔ elems ≠ [] ∧ ∀ t ∈ elems, t.Valid := by
  cases elems with
  | nil => simp [Valid, fault?]
  | cons t ts =>
      rw [Valid, fault?, firstFault?_eq_none]
      exact ⟨fun h => ⟨List.cons_ne_nil _ _, h⟩, And.right⟩

theorem valid_primitive {name : String} :
    (TypeExpr.primitive name).Valid ↔ isIdentifier name ∧ isKeyword name = false := by
  rw [Valid, fault?, nameFault?]
  by_cases hempty : name = ""
  · subst hempty
    decide
  · rw [if_neg hempty]
    cases hident : isIdentifier name <;> cases hword : isKeyword name <;> simp

theorem not_valid_missing : ¬ TypeExpr.missing.Valid := by decide

theorem Valid.ne_missing {t : TypeExpr} (h : t.Valid) : t ≠ .missing := by
  rintro rfl
  exact not_valid_missing h

mutual

def lexemes : TypeExpr → List Lexeme
  | .missing => []
  | .primitive name => [.ident name]
  | .array dims elem =>
    .ident "array" :: .openBracket :: List.replicate (dims - 1).toNat .comma ++
      .closeBracket :: elem.lexemes
  | .vector => [.ident "vector"]
  | .rowVector => [.ident "row_vector"]
  | .matrix => [.ident "matrix"]
  | .tuple elems =>
    .ident "tuple" :: .openParen :: [Lexeme.comma].intercalate (lexemesOfEach elems) ++ [.closeParen]

def lexemesOfEach : List TypeExpr → List (List Lexeme)
  | [] => []
  | t :: ts => t.lexemes :: lexemesOfEach ts

end

theorem lexemesOfEach_eq_map (ts : List TypeExpr) : lexemesOfEach ts = ts.map lexemes := by
  induction ts with
  | nil => rfl
  | cons t ts ih => rw [lexemesOfEach, ih, List.map_cons]

theorem renderItems_eq_map {ts : List TypeExpr} (h : ∀ t ∈ ts, t.Valid) :
    renderItems ts = ts.map render := by
  induction ts with
  | nil => rfl
  | cons t ts ih =>
      obtain ⟨hhead, htail⟩ := List.forall_mem_cons.mp h
      cases t with
      | missing => exact absurd hhead not_valid_missing
      | _ => simp only [renderItems, List.map_cons, ih htail]

end TypeExpr

def Parameter.lexemes (p : Parameter) : List Lexeme :=
  p.type.lexemes ++ if p.name = "" then [] else [.ident p.name]

namespace Signature

def lexemes (s : Signature) : List Lexeme :=
  s.returnType.lexemes ++ .ident s.name :: .openParen ::
    ([Lexeme.comma].intercalate (s.params.map Parameter.lexemes) ++ [.closeParen])

/-- An identifier that is no keyword, which can name a function or a parameter. -/
def IsName (name : String) : Prop := isIdentifier name ∧ TypeExpr.isKeyword name = false

instance (name : String) : Decidable (IsName name) := inferInstanceAs (Decidable (_ ∧ _))

/-- A signature that a text can declare: names are identifiers and no keywords, where a parameter may
be without one, and all types are there and valid. -/
structure WellFormed (s : Signature) : Prop where
  name : IsName s.name
  paramNames : ∀ p ∈ s.params, p.name = "" ∨ IsName p.name
  paramTypes : ∀ p ∈ s.params, p.type.Valid
  result : s.returnType.Valid

/-- The signature without its place and its anchor, which no text declares. -/
def unplaced (s : Signature) : Signature := { s with source := {}, anchor := "" }

end Signature

namespace Token

/-- The lexemes of a text given as characters. -/
def lexemesOf (cs : List Char) : List Lexeme := (scanFrom 0 cs).map (·.lexeme)

def lexemes (text : String) : List Lexeme := (scan text).map (·.lexeme)

theorem lexemes_eq (text : String) : lexemes text = lexemesOf text.toList := rfl

theorem map_lexeme_mapIdx (offset : Nat) (ls : List Lexeme) :
    (ls.mapIdx fun i l => (⟨l, offset + i⟩ : Token)).map (·.lexeme) = ls := by
  apply List.ext_getElem
  · simp only [List.length_map, List.length_mapIdx]
  · intro i _ _
    simp only [List.getElem_map, List.getElem_mapIdx]

/-- Where a text starts does not count for its lexemes. -/
theorem map_lexeme_scanFrom (offset offset' : Nat) (cs : List Char) :
    (scanFrom offset cs).map (·.lexeme) = (scanFrom offset' cs).map (·.lexeme) := by
  fun_induction scanFrom offset cs generalizing offset' with
  | case1 => rw [scanFrom]
  | case2 offset c cs hspace ih => rw [scanFrom, if_pos hspace, ih]
  | case3 offset c cs hspace hstart name ih =>
      rw [scanFrom, if_neg hspace, if_pos hstart, List.map_cons, List.map_cons, ih]
  | case4 offset c cs hspace hstart ih =>
      rw [scanFrom, if_neg hspace, if_neg hstart, List.map_append, List.map_append,
        map_lexeme_mapIdx, map_lexeme_mapIdx, ih]

theorem lexemesOf_space {c : Char} (h : isSpace c) (cs : List Char) :
    lexemesOf (c :: cs) = lexemesOf cs := by
  rw [lexemesOf, scanFrom, if_pos h]
  exact map_lexeme_scanFrom _ _ _

theorem lexemesOf_symbol {c : Char} (hspace : ¬ isSpace c) (hstart : ¬ isIdentStart c)
    (cs : List Char) : lexemesOf (c :: cs) = symbols c ++ lexemesOf cs := by
  rw [lexemesOf, scanFrom, if_neg hspace, if_neg hstart, List.map_append, map_lexeme_mapIdx,
    map_lexeme_scanFrom _ 0 cs, lexemesOf]

theorem isSpace_of_isIdentStart {c : Char} (h : isIdentStart c) : ¬ isSpace c := by
  simp only [isIdentStart, isSpace, Bool.or_eq_true, Bool.and_eq_true, beq_iff_eq,
    decide_eq_true_eq] at *
  rintro (rfl | ⟨hlow, hhigh⟩)
  · revert h
    decide
  · rcases h with (rfl | ⟨hlow', -⟩) | ⟨hlow', -⟩
    · exact absurd hhigh (by decide)
    · exact absurd (Char.le_trans hlow' hhigh) (by decide)
    · exact absurd (Char.le_trans hlow' hhigh) (by decide)

/-- A text that does not prolong a word before it. -/
def Stops (rest : List Char) : Prop := ∀ c ∈ rest.head?, isIdentPart c = false

theorem takeWhile_word {word rest : List Char} (hword : word.all isIdentPart) (hrest : Stops rest) :
    (word ++ rest).takeWhile isIdentPart = word ∧ (word ++ rest).dropWhile isIdentPart = rest := by
  have hall := List.all_eq_true.mp hword
  rw [List.takeWhile_append_of_pos hall, List.dropWhile_append_of_pos hall]
  cases rest with
  | nil => exact ⟨List.append_nil _, rfl⟩
  | cons c rest =>
      have hc : isIdentPart c = false := hrest c rfl
      simp only [List.takeWhile_cons, List.dropWhile_cons, hc, Bool.false_eq_true, if_false,
        List.append_nil, and_self]

/-- A word is one lexeme wherever no word is prolonged. -/
theorem lexemesOf_word {name : String} (hname : isIdentifier name) {rest : List Char}
    (hrest : Stops rest) : lexemesOf (name.toList ++ rest) = .ident name :: lexemesOf rest := by
  rw [isIdentifier] at hname
  cases hchars : name.toList with
  | nil =>
      rw [hchars] at hname
      cases hname
  | cons c cs =>
      rw [hchars] at hname
      obtain ⟨hstart, hparts⟩ := Bool.and_eq_true_iff.mp hname
      obtain ⟨htake, hdrop⟩ := takeWhile_word hparts hrest
      rw [List.cons_append, lexemesOf, scanFrom, if_neg (isSpace_of_isIdentStart hstart),
        if_pos hstart, List.map_cons, htake, hdrop, ← hchars, String.ofList_toList,
        map_lexeme_scanFrom _ 0 rest, lexemesOf]

theorem Stops.cons {c : Char} (hc : isIdentPart c = false) (cs : List Char) : Stops (c :: cs) := by
  rintro _ ⟨⟩
  exact hc

theorem Stops.nil : Stops [] := nofun

theorem lexemesOf_commas (n : Nat) (cs : List Char) :
    lexemesOf (List.replicate n ',' ++ cs) = List.replicate n .comma ++ lexemesOf cs := by
  induction n with
  | zero => rfl
  | succ n ih =>
      rw [List.replicate_succ, List.cons_append,
        lexemesOf_symbol (c := ',') (by decide) (by decide), ih]
      rfl

/-- What a list of texts is spelled by, if each of them is spelled by some lexemes. -/
theorem lexemesOf_intercalate {α : Type} (text : α → List Char) (spelling : α → List Lexeme)
    {xs : List α} (h : ∀ x ∈ xs, ∀ rest, Stops rest →
      lexemesOf (text x ++ rest) = spelling x ++ lexemesOf rest)
    {rest : List Char} (hrest : Stops rest) :
    lexemesOf ([',', ' '].intercalate (xs.map text) ++ rest) =
      [Lexeme.comma].intercalate (xs.map spelling) ++ lexemesOf rest := by
  induction xs with
  | nil => rfl
  | cons x xs ih =>
      obtain ⟨hhead, htail⟩ := List.forall_mem_cons.mp h
      cases xs with
      | nil =>
          simp only [List.map_cons, List.map_nil, List.intercalate_singleton]
          exact hhead rest hrest
      | cons y ys =>
          simp only [List.map_cons, List.intercalate_cons_cons, List.append_assoc,
            List.cons_append, List.nil_append] at ih ⊢
          rw [hhead _ (Stops.cons (by decide) _), lexemesOf_symbol (c := ',') (by decide) (by decide),
            lexemesOf_space (c := ' ') (by decide), ih htail]
          rfl

end Token

open Token

namespace TypeExpr

/-- The text of a valid type is cut into the lexemes that spell it. -/
theorem lexemesOf_render {t : TypeExpr} (ht : t.Valid) {rest : List Char} (hrest : Stops rest) :
    lexemesOf (t.render.toList ++ rest) = t.lexemes ++ lexemesOf rest := by
  induction t generalizing rest with
  | missing => exact absurd ht not_valid_missing
  | primitive name => exact lexemesOf_word (valid_primitive.mp ht).1 hrest
  | array dims elem ih =>
      have htext : (TypeExpr.array dims elem).render.toList ++ rest =
          "array".toList ++ ('[' :: (List.replicate (dims - 1).toNat ',' ++
            (']' :: ' ' :: (elem.render.toList ++ rest)))) := by
        simp [render]
      rw [htext, lexemesOf_word (by decide) (Stops.cons (by decide) _),
        lexemesOf_symbol (c := '[') (by decide) (by decide), lexemesOf_commas,
        lexemesOf_symbol (c := ']') (by decide) (by decide), lexemesOf_space (c := ' ') (by decide),
        ih (valid_array.mp ht).2 hrest]
      simp [lexemes, symbols]
  | vector => exact lexemesOf_word (by decide) hrest
  | rowVector => exact lexemesOf_word (by decide) hrest
  | matrix => exact lexemesOf_word (by decide) hrest
  | tuple elems ih =>
      obtain ⟨-, helems⟩ := valid_tuple.mp ht
      have htext : (TypeExpr.tuple elems).render.toList ++ rest =
          "tuple".toList ++ ('(' :: ([',', ' '].intercalate (elems.map (·.render.toList)) ++
            (')' :: rest))) := by
        simp [render, renderItems_eq_map helems, Function.comp_def]
      rw [htext, lexemesOf_word (by decide) (Stops.cons (by decide) _),
        lexemesOf_symbol (c := '(') (by decide) (by decide),
        lexemesOf_intercalate _ lexemes (fun t hmem rest hrest => ih t hmem (helems t hmem) hrest)
          (Stops.cons (by decide) _),
        lexemesOf_symbol (c := ')') (by decide) (by decide)]
      simp [lexemes, symbols, lexemesOfEach_eq_map]

theorem lexemes_render {t : TypeExpr} (ht : t.Valid) : Token.lexemes t.render = t.lexemes := by
  rw [Token.lexemes_eq, ← List.append_nil t.render.toList, lexemesOf_render ht Stops.nil]
  simp [lexemesOf, scanFrom]

end TypeExpr

theorem Parameter.lexemesOf_render {p : Parameter} (htype : p.type.Valid)
    (hname : p.name = "" ∨ Signature.IsName p.name) {rest : List Char} (hrest : Stops rest) :
    lexemesOf (p.render.toList ++ rest) = p.lexemes ++ lexemesOf rest := by
  rw [Parameter.render, Parameter.lexemes]
  by_cases hempty : p.name = ""
  · rw [if_pos hempty, if_pos hempty, List.append_nil]
    exact TypeExpr.lexemesOf_render htype hrest
  · have hident : isIdentifier p.name := (hname.resolve_left hempty).1
    have htext : (p.type.render ++ " " ++ p.name).toList ++ rest =
        p.type.render.toList ++ (' ' :: (p.name.toList ++ rest)) := by
      simp
    rw [if_neg hempty, if_neg hempty, htext,
      TypeExpr.lexemesOf_render htype (Stops.cons (by decide) _),
      lexemesOf_space (c := ' ') (by decide), lexemesOf_word hident hrest, List.append_assoc]
    rfl

namespace Signature

/-- The text of a well-formed signature is cut into the lexemes that spell it. -/
theorem lexemes_render {s : Signature} (hs : s.WellFormed) :
    Token.lexemes s.render = s.lexemes := by
  have hresult := hs.result.ne_missing
  have htext : s.render.toList = s.returnType.render.toList ++ (' ' :: (s.name.toList ++ ('(' ::
      ([',', ' '].intercalate (s.params.map (·.render.toList)) ++ [')'])))) := by
    cases hreturn : s.returnType with
    | missing => exact absurd hreturn hresult
    | _ => simp [render, hreturn, Function.comp_def]
  rw [Token.lexemes_eq, htext, TypeExpr.lexemesOf_render hs.result (Stops.cons (by decide) _),
    lexemesOf_space (c := ' ') (by decide), lexemesOf_word hs.name.1 (Stops.cons (by decide) _),
    lexemesOf_symbol (c := '(') (by decide) (by decide),
    lexemesOf_intercalate _ Parameter.lexemes (fun p hmem _ hrest =>
      Parameter.lexemesOf_render (hs.paramTypes p hmem) (hs.paramNames p hmem) hrest)
      (Stops.cons (by decide) _),
    lexemesOf_symbol (c := ')') (by decide) (by decide)]
  simp [lexemes, symbols, lexemesOf, scanFrom]

end Signature

end OverloadDocs
