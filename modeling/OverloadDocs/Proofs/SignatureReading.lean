import OverloadDocs.Proofs.TypeReading

/-!
What the parsers of whole texts accept. The readers of parameter lists are inverted by spelling as the
reader of types is, and the parsers inherit this: two texts give the same signature exactly when they have
the lexemes of its rendered text, and every signature that is given is well formed.
-/

namespace OverloadDocs

open Text

namespace Grammar

/-! ## Parameters -/

/-- The name of a parameter is taken off the front of some tokens, or found to be left out. -/
def TakesName (input : List Token) (name : String) (rest : List Token) : Prop :=
  ∃ h, readParamName input = .ok ⟨(name, rest), h⟩

theorem takes_name {input rest : List Token} {name : String} :
    TakesName input name rest ↔
      (∃ offset, input = ⟨.ident name, offset⟩ :: rest ∧ TypeExpr.isKeyword name = false) ∨
        (name = "" ∧ rest = input ∧ ∀ word offset ts, input ≠ ⟨.ident word, offset⟩ :: ts) := by
  constructor
  · rintro ⟨hlength, h⟩
    rw [readParamName.eq_def] at h
    split at h
    · rename_i word offset ts
      split at h
      · cases h
      · rename_i hword
        cases h
        exact .inl ⟨offset, rfl, Bool.eq_false_iff.mpr hword⟩
    · rename_i hnot
      cases h
      exact .inr ⟨rfl, rfl, hnot⟩
  · rintro (⟨offset, rfl, hword⟩ | ⟨rfl, rfl, hnot⟩)
    · refine ⟨Nat.le_succ _, ?_⟩
      rw [readParamName, if_neg (Bool.eq_false_iff.mp hword)]
    · refine ⟨Nat.le_refl _, ?_⟩
      rw [readParamName]
      exact hnot

/-- What is taken for a name is the end of the spelling of the parameter. -/
theorem name_sound {input rest : List Token} {name : String} (hcut : WordsCut input)
    (h : TakesName input name rest) :
    (name = "" ∨ Signature.IsName name) ∧
      Spelled input (if name = "" then [] else [.ident name]) rest := by
  rcases takes_name.mp h with ⟨offset, rfl, hword⟩ | ⟨rfl, rfl, -⟩
  · have hident := hcut name List.mem_cons_self
    have hne : name ≠ "" := by
      rintro rfl
      exact absurd hident (by decide)
    rw [if_neg hne]
    exact ⟨.inr ⟨hident, hword⟩, (Spelled.refl rest).cons⟩
  · exact ⟨.inl rfl, Spelled.refl rest⟩

/-- A name is taken where it is spelled, and found to be left out before a comma or parenthesis. -/
theorem name_complete {input : List Token} {name : String} {l : Lexeme} {ls : List Lexeme}
    (hname : name = "" ∨ Signature.IsName name) (hl : ∀ word, l ≠ .ident word)
    (h : input.map (·.lexeme) = (if name = "" then [] else [.ident name]) ++ l :: ls) :
    ∃ rest, rest.map (·.lexeme) = l :: ls ∧ TakesName input name rest := by
  by_cases hempty : name = ""
  · rw [if_pos hempty] at h
    refine ⟨input, h, takes_name.mpr (.inr ⟨hempty, rfl, ?_⟩)⟩
    rintro word offset ts rfl
    cases h
    exact hl word rfl
  · rw [if_neg hempty] at h
    obtain ⟨offset, rest, rfl, hrest⟩ := map_lexeme_eq_cons h
    exact ⟨rest, hrest, takes_name.mpr (.inl ⟨offset, rfl, (hname.resolve_left hempty).2⟩)⟩

theorem takes_params {input rest : List Token} {params : List Parameter} :
    Takes readParams input params rest ↔
      ∃ p afterType mid, Takes readType input (Parameter.type p) afterType ∧
        TakesName afterType p.name mid ∧
        ((∃ offset ts more, mid = ⟨.comma, offset⟩ :: ts ∧ Takes readParams ts more rest ∧
            params = p :: more) ∨
          ∃ offset, mid = ⟨.closeParen, offset⟩ :: rest ∧ params = [p]) := by
  constructor
  · rintro ⟨hlength, h⟩
    rw [readParams] at h
    split at h
    · cases h
    · rename_i type afterType hafter htype
      split at h
      · cases h
      · rename_i name mid hmid hname
        split at h
        · rename_i offset ts _
          split at h
          · cases h
          · rename_i more rest' hrest hmore
            cases h
            exact ⟨⟨name, type⟩, _, _, ⟨_, htype⟩, ⟨_, hname⟩,
              .inl ⟨offset, ts, more, rfl, ⟨_, hmore⟩, rfl⟩⟩
        · rename_i offset ts _
          cases h
          exact ⟨⟨name, type⟩, _, _, ⟨_, htype⟩, ⟨_, hname⟩, .inr ⟨offset, rfl, rfl⟩⟩
        · cases h
  · rintro ⟨⟨name, type⟩, afterType, mid, ⟨hafter, htype⟩, ⟨hmid, hname⟩,
      ⟨offset, ts, more, rfl, ⟨hrest, hmore⟩, rfl⟩ | ⟨offset, rfl, rfl⟩⟩
    · refine ⟨by simp only [List.length_cons] at hmid; omega, ?_⟩
      rw [readParams]
      simp only [htype, hname, hmore]
    · refine ⟨by simp only [List.length_cons] at hmid; omega, ?_⟩
      rw [readParams]
      simp only [htype, hname]

/-- What a parameter list can hold: valid types, and names where there are names. -/
def ParamsWellFormed (params : List Parameter) : Prop :=
  ∀ p ∈ params, p.type.Valid ∧ (p.name = "" ∨ Signature.IsName p.name)

theorem params_sound {input rest : List Token} {params : List Parameter} (hcut : WordsCut input)
    (h : Takes readParams input params rest) :
    params ≠ [] ∧ ParamsWellFormed params ∧
      Spelled input ([Lexeme.comma].intercalate (params.map (·.lexemes)) ++ [.closeParen]) rest := by
  induction params generalizing input with
  | nil =>
      obtain ⟨p, _, _, -, -, ⟨_, _, _, -, -, h⟩ | ⟨_, -, h⟩⟩ := takes_params.mp h <;> cases h
  | cons p params ih =>
      obtain ⟨p', afterType, mid, htype, hname, hmid⟩ := takes_params.mp h
      obtain ⟨hvalid, hspelled⟩ := type_sound hcut htype
      obtain ⟨hnamed, hspelled'⟩ := name_sound (hcut.rest hspelled) hname
      have hparam : Spelled input p'.lexemes mid := hspelled.append hspelled'
      refine ⟨List.cons_ne_nil _ _, ?_⟩
      rcases hmid with ⟨offset, ts, more, rfl, hmore, heq⟩ | ⟨offset, rfl, heq⟩
      · cases heq
        obtain ⟨hne, hall, hrest⟩ := ih (hcut.rest hparam).tail hmore
        refine ⟨List.forall_mem_cons.mpr ⟨⟨hvalid, hnamed⟩, hall⟩, ?_⟩
        rw [List.map_cons, List.intercalate_cons_of_ne_nil (by simpa using hne), List.append_assoc,
          List.append_assoc]
        exact hparam.append hrest.cons
      · cases heq
        refine ⟨by simpa [ParamsWellFormed] using ⟨hvalid, hnamed⟩, ?_⟩
        rw [List.map_cons, List.map_nil, List.intercalate_singleton]
        exact hparam.append (Spelled.refl rest).cons

theorem params_complete {params : List Parameter} (hne : params ≠ [])
    (hparams : ParamsWellFormed params) {input : List Token} {ls : List Lexeme}
    (h : input.map (·.lexeme) =
      [Lexeme.comma].intercalate (params.map (·.lexemes)) ++ .closeParen :: ls) :
    ∃ rest, rest.map (·.lexeme) = ls ∧ Takes readParams input params rest := by
  induction params generalizing input with
  | nil => exact absurd rfl hne
  | cons p params ih =>
      obtain ⟨⟨htype, hname⟩, htail⟩ := List.forall_mem_cons.mp hparams
      rw [List.map_cons] at h
      by_cases hmore : params = []
      · subst hmore
        rw [List.map_nil, List.intercalate_singleton, Parameter.lexemes, List.append_assoc] at h
        obtain ⟨afterType, hafter, ht⟩ := type_complete htype h
        obtain ⟨mid, hmid, hn⟩ := name_complete hname (by rintro _ ⟨⟩) hafter
        obtain ⟨offset, rest, rfl, hrest⟩ := map_lexeme_eq_cons hmid
        exact ⟨rest, hrest, takes_params.mpr ⟨p, _, _, ht, hn, .inr ⟨offset, rfl, rfl⟩⟩⟩
      · rw [List.intercalate_cons_of_ne_nil (by simpa using hmore), Parameter.lexemes,
          List.append_assoc, List.append_assoc, List.append_assoc] at h
        obtain ⟨afterType, hafter, ht⟩ := type_complete htype h
        obtain ⟨mid, hmid, hn⟩ := name_complete hname (by rintro _ ⟨⟩) hafter
        obtain ⟨offset, ts, rfl, hts⟩ := map_lexeme_eq_cons hmid
        obtain ⟨rest, hrest, hp⟩ := ih hmore htail hts
        exact ⟨rest, hrest,
          takes_params.mpr ⟨p, _, _, ht, hn, .inl ⟨offset, ts, params, rfl, hp, rfl⟩⟩⟩

theorem takes_paramList {input rest : List Token} {params : List Parameter} :
    Takes readParamList input params rest ↔
      ∃ offset ts, input = ⟨.openParen, offset⟩ :: ts ∧
        ((∃ offset', ts = ⟨.closeParen, offset'⟩ :: rest ∧ params = []) ∨
          (closes ts = false ∧ Takes readParams ts params rest)) := by
  constructor
  · rintro ⟨hlength, h⟩
    rw [readParamList.eq_def] at h
    split at h
    · rename_i offset ts
      refine ⟨offset, ts, rfl, ?_⟩
      split at h
      · rename_i hcloses
        cases h
        unfold closes at hcloses
        split at hcloses
        · rename_i offset' us
          exact .inl ⟨offset', rfl, rfl⟩
        · cases hcloses
      · rename_i hcloses
        split at h
        · cases h
        · rename_i params' rest' hrest hparams
          cases h
          exact .inr ⟨Bool.eq_false_iff.mpr hcloses, ⟨_, hparams⟩⟩
    · cases h
  · rintro ⟨offset, ts, rfl, ⟨offset', rfl, rfl⟩ | ⟨hcloses, ⟨hrest, hparams⟩⟩⟩
    · exact ⟨by simp only [List.length_cons]; omega, rfl⟩
    · refine ⟨by simp only [List.length_cons]; omega, ?_⟩
      rw [readParamList.eq_def]
      simp only [hcloses, Bool.false_eq_true, if_false, hparams]

/-- The lexemes of a parameter list in its parentheses. -/
def listLexemes (params : List Parameter) : List Lexeme :=
  .openParen :: ([Lexeme.comma].intercalate (params.map (·.lexemes)) ++ [.closeParen])

theorem paramList_sound {input rest : List Token} {params : List Parameter}
    (hcut : WordsCut input) (h : Takes readParamList input params rest) :
    ParamsWellFormed params ∧ Spelled input (listLexemes params) rest := by
  obtain ⟨offset, ts, rfl, ⟨offset', rfl, rfl⟩ | ⟨-, hparams⟩⟩ := takes_paramList.mp h
  · exact ⟨nofun, (Spelled.refl rest).cons.cons⟩
  · obtain ⟨-, hall, hspelled⟩ := params_sound hcut.tail hparams
    exact ⟨hall, hspelled.cons⟩

theorem paramList_complete {params : List Parameter} (hparams : ParamsWellFormed params)
    {input : List Token} {ls : List Lexeme} (h : input.map (·.lexeme) = listLexemes params ++ ls) :
    ∃ rest, rest.map (·.lexeme) = ls ∧ Takes readParamList input params rest := by
  rw [listLexemes, List.cons_append, List.append_assoc] at h
  obtain ⟨offset, ts, rfl, hts⟩ := map_lexeme_eq_cons h
  by_cases hempty : params = []
  · subst hempty
    obtain ⟨offset', rest, rfl, hrest⟩ := map_lexeme_eq_cons hts
    exact ⟨rest, hrest, takes_paramList.mpr ⟨offset, _, rfl, .inl ⟨offset', rfl, rfl⟩⟩⟩
  · obtain ⟨rest, hrest, hp⟩ := params_complete hempty hparams hts
    refine ⟨rest, hrest, takes_paramList.mpr ⟨offset, ts, rfl, .inr ⟨?_, hp⟩⟩⟩
    obtain ⟨p, _, _, htype, -, -⟩ := takes_params.mp hp
    obtain ⟨name, offset', us, rfl⟩ := ident_of_takes_type htype
    rfl

/-! ## Whole texts -/

theorem wholeType_eq_ok {input : List Token} {t : TypeExpr} :
    wholeType input = .ok t ↔ Takes readType input t [] := by
  rw [wholeType]
  cases hread : readType input with
  | error e => simp [bind, Except.bind, Takes, hread]
  | ok r =>
      obtain ⟨value, rest, hrest⟩ := r
      cases rest with
      | nil =>
          simp only [bind, Except.bind, finish, pure, Except.pure, Except.ok.injEq, Takes, hread]
          simp only [List.length_nil] at hrest
          simp [hrest]
      | cons t' rest => simp [bind, Except.bind, finish, Takes, hread]

theorem wholeSignature_eq_ok {input : List Token} {s : Signature} :
    wholeSignature input = .ok s ↔
      ∃ type name offset ts params, Takes readType input type (⟨.ident name, offset⟩ :: ts) ∧
        TypeExpr.isKeyword name = false ∧ Takes readParamList ts params [] ∧
        s = ⟨name, params, type, 0, {}, ""⟩ := by
  constructor
  · intro h
    rw [wholeSignature] at h
    cases hread : readType input with
    | error e =>
        rw [hread] at h
        cases h
    | ok r =>
        obtain ⟨type, mid, hmid⟩ := r
        simp only [hread, bind, Except.bind] at h
        split at h
        · rename_i name offset ts
          split at h
          · cases h
          · rename_i hword
            cases hlist : readParamList ts with
            | error e =>
                simp only [hlist] at h
                cases h
            | ok r' =>
                obtain ⟨params, rest, hrest⟩ := r'
                simp only [hlist] at h
                cases rest with
                | nil =>
                    cases h
                    exact ⟨type, name, offset, ts, params, ⟨_, hread⟩, Bool.eq_false_iff.mpr hword,
                      ⟨_, hlist⟩, rfl⟩
                | cons t rest => cases h
        · cases h
  · rintro ⟨type, name, offset, ts, params, ⟨hmid, htype⟩, hword, ⟨hrest, hlist⟩, rfl⟩
    rw [wholeSignature, htype]
    simp only [bind, Except.bind, hword, Bool.false_eq_true, if_false, hlist]
    rfl

/-- A whole text is accepted when its tokens are. -/
theorem parseWith_eq_ok {α : Type} {read : List Token → Except Failure α} {text : String} {a : α} :
    parseWith read text = .ok a ↔ read (Token.scan text) = .ok a := by
  rw [parseWith]
  cases read (Token.scan text) with
  | error e =>
      constructor
      · intro h
        cases h
      · intro h
        cases h
  | ok b => exact ⟨fun h => congrArg _ (Except.ok.inj h), fun h => congrArg _ (Except.ok.inj h)⟩

end Grammar

open Grammar

namespace TypeExpr

theorem parse_eq_ok_iff {text : String} {t : TypeExpr} :
    TypeExpr.parse text = .ok t ↔ t.Valid ∧ Token.lexemes text = t.lexemes := by
  rw [TypeExpr.parse, parseWith_eq_ok, wholeType_eq_ok]
  constructor
  · intro h
    obtain ⟨hvalid, hspelled⟩ := type_sound (Token.wordsCut_scan text) h
    exact ⟨hvalid, hspelled.trans (List.append_nil _)⟩
  · rintro ⟨hvalid, hspelled⟩
    obtain ⟨rest, hrest, h⟩ :=
      type_complete hvalid (hspelled.trans (List.append_nil _).symm)
    rw [List.map_eq_nil_iff] at hrest
    exact hrest ▸ h

end TypeExpr

namespace Signature

theorem lexemes_eq (s : Signature) :
    s.lexemes = s.returnType.lexemes ++ .ident s.name :: listLexemes s.params := rfl

theorem wellFormed_iff {s : Signature} :
    s.WellFormed ↔ IsName s.name ∧ ParamsWellFormed s.params ∧ s.returnType.Valid :=
  ⟨fun h => ⟨h.name, fun p hp => ⟨h.paramTypes p hp, h.paramNames p hp⟩, h.result⟩,
    fun ⟨hname, hparams, hresult⟩ =>
      ⟨hname, fun p hp => (hparams p hp).2, fun p hp => (hparams p hp).1, hresult⟩⟩

theorem parse_eq_ok {text : String} {order : Int} {s : Signature} :
    Signature.parse text order = .ok s ↔
      ∃ s', wholeSignature (Token.scan text) = .ok s' ∧ { s' with order := order } = s := by
  rw [Signature.parse, parseWith]
  cases wholeSignature (Token.scan text) with
  | error e =>
      constructor
      · intro h
        cases h
      · rintro ⟨_, h, -⟩
        cases h
  | ok read =>
      refine ⟨fun h => ⟨read, rfl, Except.ok.inj h⟩, ?_⟩
      rintro ⟨_, h, rfl⟩
      rw [Except.ok.inj h]
      rfl

/-- A text declares a signature just when that is well formed, without place and anchor, and spelled by
the lexemes of the text. -/
theorem parse_eq_ok_iff {text : String} {order : Int} {s : Signature} :
    Signature.parse text order = .ok s ↔
      s.WellFormed ∧ s.order = order ∧ s.unplaced = s ∧ Token.lexemes text = s.lexemes := by
  have hcut := Token.wordsCut_scan text
  rw [parse_eq_ok, wellFormed_iff, lexemes_eq]
  constructor
  · rintro ⟨s', h, rfl⟩
    obtain ⟨type, name, offset, ts, params, htype, hword, hlist, rfl⟩ := wholeSignature_eq_ok.mp h
    obtain ⟨hvalid, hspelled⟩ := type_sound hcut htype
    have hrest := hcut.rest hspelled
    obtain ⟨hparams, hspelled'⟩ := paramList_sound hrest.tail hlist
    refine ⟨⟨⟨hrest name List.mem_cons_self, hword⟩, hparams, hvalid⟩, rfl, rfl, ?_⟩
    exact (hspelled.append hspelled'.cons).trans (List.append_nil _)
  · obtain ⟨name, params, type, order', source, anchor⟩ := s
    rintro ⟨⟨hname, hparams, hvalid⟩, rfl, hplace, hspelled⟩
    obtain ⟨mid, hmid, htype⟩ := type_complete hvalid hspelled
    obtain ⟨offset, ts, rfl, hts⟩ := map_lexeme_eq_cons hmid
    obtain ⟨rest, hrest, hlist⟩ :=
      paramList_complete hparams (hts.trans (List.append_nil _).symm)
    rw [List.map_eq_nil_iff] at hrest
    subst hrest
    refine ⟨_, wholeSignature_eq_ok.mpr ⟨type, name, offset, ts, params, htype, hname.2, hlist, rfl⟩,
      ?_⟩
    simpa [unplaced, eq_comm] using hplace

instance (s : Signature) : Decidable s.WellFormed :=
  decidable_of_iff
    (IsName s.name ∧ (∀ p ∈ s.params, p.type.Valid ∧ (p.name = "" ∨ IsName p.name)) ∧
      s.returnType.Valid) wellFormed_iff.symm

end Signature

/-- The grammar accepts exactly what it spells. What is read from a text is well formed, and a text is
read as a well-formed signature, or a valid type, exactly when its tokens are those of the rendered
one. -/
theorem parse_iff_lexemes_eq_render :
    (∀ text order s, Signature.parse text order = .ok s → s.WellFormed ∧ s.order = order) ∧
    (∀ text (s : Signature), s.WellFormed →
      (Signature.parse text s.order = .ok s.unplaced ↔
        Token.lexemes text = Token.lexemes s.render)) ∧
    (∀ text t, TypeExpr.parse text = .ok t → t.Valid) ∧
    (∀ text (t : TypeExpr), t.Valid →
      (TypeExpr.parse text = .ok t ↔ Token.lexemes text = Token.lexemes t.render)) := by
  refine ⟨fun text order s h => ?_, fun text s hs => ?_, fun text t h => ?_, fun text t ht => ?_⟩
  · obtain ⟨hs, horder, -, -⟩ := Signature.parse_eq_ok_iff.mp h
    exact ⟨hs, horder⟩
  · rw [Signature.lexemes_render hs, Signature.parse_eq_ok_iff]
    refine ⟨fun h => h.2.2.2, fun h => ⟨?_, rfl, rfl, h⟩⟩
    exact ⟨hs.name, hs.paramNames, hs.paramTypes, hs.result⟩
  · exact (TypeExpr.parse_eq_ok_iff.mp h).1
  · rw [TypeExpr.lexemes_render ht, TypeExpr.parse_eq_ok_iff]
    exact and_iff_right ht

/-- Blanks and line breaks between tokens do not count, and a parameter may be without a name. -/
theorem parse_spread_signature :
    let s : Signature :=
      { name := "mix"
        params := [{ name := "xs", type := .array 2 .vector },
          { type := .tuple [.primitive "int", .array 1 (.primitive "real")] }]
        returnType := .rowVector
        order := 4 }
    let text := "row_vector\nmix( array [ , ]vector xs,tuple(int,array[]real) )"
    s.WellFormed ∧ Token.lexemes text = Token.lexemes s.render ∧
      Signature.parse text 4 = .ok s := by
  intro s text
  have hs : s.WellFormed := by decide
  have hlexemes : Token.lexemes text = Token.lexemes s.render := by decide +kernel
  exact ⟨hs, hlexemes, (parse_iff_lexemes_eq_render.2.1 text s hs).mpr hlexemes⟩

end OverloadDocs
