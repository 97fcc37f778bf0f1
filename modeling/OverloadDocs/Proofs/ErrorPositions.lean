import Mathlib.Control.Monad.Basic
import OverloadDocs.Proofs.BreakingOff

/-!
Where errors stand. The parsers of types, signatures and queries give up at the first token that no accepted text
has there. What stands before it is the beginning of a text that is accepted, and no accepted text begins with it
and has that token behind it; where nothing is left, no accepted text ends there.
-/

namespace OverloadDocs

open Text

namespace Grammar

/-! ## Parameters -/

theorem suffix_of_takes_name {input rest : List Token} {name : String} (h : TakesName input name rest) :
    rest <:+ input := by
  rcases takes_name.mp h with ⟨offset, rfl, -⟩ | ⟨-, rfl, -⟩
  · exact List.suffix_cons _ rest
  · exact List.suffix_refl rest

theorem leaves_param {input afterType rest : List Token} {p : Parameter} (hcut : WordsCut input)
    (ht : Takes readType input p.type afterType) (hname : TakesName afterType p.name rest) :
    (p.type.Valid ∧ (p.name = "" ∨ Signature.IsName p.name)) ∧ Leaves input p.lexemes rest := by
  obtain ⟨hvalid, htype⟩ := leaves_type hcut ht
  obtain ⟨hnamed, hspelled⟩ := name_sound (hcut.rest htype.spelled) hname
  exact ⟨⟨hvalid, hnamed⟩, htype.append ⟨suffix_of_takes_name hname, hspelled⟩⟩

theorem suffix_of_takes_params {input rest : List Token} {params : List Parameter}
    (h : Takes readParams input params rest) : rest <:+ input := by
  induction params generalizing input with
  | nil =>
      obtain ⟨p, _, _, -, -, ⟨_, _, _, -, -, h⟩ | ⟨_, -, h⟩⟩ := takes_params.mp h <;> cases h
  | cons p params ih =>
      obtain ⟨p', afterType, mid, ht, hname, hend⟩ := takes_params.mp h
      have hmid := (suffix_of_takes_name hname).trans (suffix_of_takes_type ht)
      rcases hend with ⟨offset, ts, more, rfl, hmore, heq⟩ | ⟨offset, rfl, -⟩
      · cases heq
        exact (ih hmore).trans ((List.suffix_cons _ ts).trans hmid)
      · exact (List.suffix_cons _ rest).trans hmid

theorem leaves_paramList {input rest : List Token} {params : List Parameter} (hcut : WordsCut input)
    (h : Takes readParamList input params rest) :
    ParamsWellFormed params ∧ Leaves input (listLexemes params) rest := by
  obtain ⟨hall, hspelled⟩ := paramList_sound hcut h
  refine ⟨hall, ?_, hspelled⟩
  obtain ⟨offset, ts, rfl, ⟨offset', rfl, -⟩ | ⟨-, hparams⟩⟩ := takes_paramList.mp h
  · exact (List.suffix_cons _ rest).trans (List.suffix_cons _ _)
  · exact (suffix_of_takes_params hparams).trans (List.suffix_cons _ ts)

/-- The spellings of parameters, with the parenthesis behind them. -/
def SpellsParams (ls : List Lexeme) : Prop :=
  ∃ params, params ≠ [] ∧ ParamsWellFormed params ∧
    [Lexeme.comma].intercalate (params.map (·.lexemes)) ++ [.closeParen] = ls

def SpellsList (ls : List Lexeme) : Prop := ∃ params, ParamsWellFormed params ∧ listLexemes params = ls

theorem spellsList_nil : SpellsList [.openParen, .closeParen] := ⟨[], nofun, rfl⟩

theorem SpellsParams.list {ls : List Lexeme} (h : SpellsParams ls) : SpellsList (.openParen :: ls) := by
  obtain ⟨params, -, hall, rfl⟩ := h
  exact ⟨params, hall, rfl⟩

section

variable {p : Parameter} (hp : p.type.Valid ∧ (p.name = "" ∨ Signature.IsName p.name))

include hp

theorem spellsParams_last : SpellsParams (p.lexemes ++ [.closeParen]) := by
  refine ⟨[p], List.cons_ne_nil _ _, List.forall_mem_singleton.mpr hp, ?_⟩
  rw [List.map_singleton, List.intercalate_singleton]

theorem SpellsParams.cons {ls : List Lexeme} (h : SpellsParams ls) :
    SpellsParams (p.lexemes ++ [.comma] ++ ls) := by
  obtain ⟨params, hne, hall, rfl⟩ := h
  refine ⟨p :: params, List.cons_ne_nil _ _, List.forall_mem_cons.mpr ⟨hp, hall⟩, ?_⟩
  rw [List.map_cons, List.intercalate_cons_of_ne_nil (by simpa using hne)]
  simp

/-- A parameter is read off its spelling, unless a word follows that could be its name. -/
theorem param_complete {input : List Token} {ls : List Lexeme} (hinput : input.map (·.lexeme) = p.lexemes ++ ls)
    (hword : p.name = "" → ∀ word, ls.head? ≠ some (.ident word)) :
    ∃ afterType mid, Takes readType input p.type afterType ∧ TakesName afterType p.name mid ∧
      mid.map (·.lexeme) = ls := by
  rw [Parameter.lexemes, List.append_assoc] at hinput
  obtain ⟨afterType, hafter, htype⟩ := type_complete hp.1 hinput
  refine ⟨afterType, ?_⟩
  by_cases hempty : p.name = ""
  · rw [if_pos hempty, List.nil_append] at hafter
    refine ⟨afterType, htype, takes_name.mpr (.inr ⟨hempty, rfl, ?_⟩), hafter⟩
    rintro word offset ts rfl
    exact hword hempty word (hafter ▸ rfl)
  · rw [if_neg hempty, List.singleton_append] at hafter
    obtain ⟨offset, mid, rfl, hmid⟩ := map_lexeme_eq_cons hafter
    exact ⟨mid, htype, takes_name.mpr (.inl ⟨offset, rfl, (hp.2.resolve_left hempty).2⟩), hmid⟩

end

theorem TakesName.unique {input rest rest' : List Token} {name name' : String} (h : TakesName input name rest)
    (h' : TakesName input name' rest') : name = name' ∧ rest = rest' := by
  obtain ⟨_, h⟩ := h
  obtain ⟨_, h'⟩ := h'
  cases h.symm.trans h'
  exact ⟨rfl, rfl⟩

/-- Behind a parameter without a name no word follows. -/
theorem TakesName.wordless {input rest : List Token} {name : String} (hcut : WordsCut input)
    (h : TakesName input name rest) (hempty : name = "") (word : String) : next? rest ≠ some (.ident word) := by
  rcases takes_name.mp h with ⟨offset, rfl, -⟩ | ⟨-, rfl, hnot⟩
  · have hident := hcut name List.mem_cons_self
    rw [hempty] at hident
    exact absurd hident (by decide)
  · intro hnext
    obtain ⟨offset, ts, rfl⟩ := next?_eq_some hnext
    exact hnot word offset ts rfl

/-- Where the reading of parameters can break off. -/
inductive ParamsBreak : List Token → List Token → Prop
  | type {input rest : List Token} (h : Fails readType input rest) : ParamsBreak input rest
  | keyword {input rest : List Token} {t : TypeExpr} {name : String} (ht : Takes readType input t rest)
      (hnext : next? rest = some (.ident name)) (hword : TypeExpr.isKeyword name = true) : ParamsBreak input rest
  | more {input afterType rest : List Token} {p : Parameter} {offset : Nat} {ts : List Token}
      (ht : Takes readType input p.type afterType) (hname : TakesName afterType p.name (⟨.comma, offset⟩ :: ts))
      (h : Fails readParams ts rest) : ParamsBreak input rest
  | unclosed {input afterType rest : List Token} {p : Parameter} (ht : Takes readType input p.type afterType)
      (hname : TakesName afterType p.name rest) (hcomma : next? rest ≠ some .comma)
      (hclose : next? rest ≠ some .closeParen) : ParamsBreak input rest

theorem fails_name {input : List Token} {f : Failure} (h : readParamName input = .error f) :
    f.rest = input ∧ ∃ name, next? input = some (.ident name) ∧ TypeExpr.isKeyword name = true := by
  rw [readParamName.eq_def] at h
  split at h
  · rename_i name offset ts
    split at h
    · rename_i hword
      cases h
      exact ⟨rfl, name, rfl, hword⟩
    · cases h
  · cases h

theorem breaks_of_fails_params {input rest : List Token} (h : Fails readParams input rest) :
    ParamsBreak input rest := by
  obtain ⟨expected, h⟩ := h
  rw [readParams] at h
  split at h
  · rename_i htype
    cases h
    exact .type ⟨_, htype⟩
  · rename_i t afterType hafter htype
    split at h
    · rename_i hname
      cases h
      obtain ⟨hrest, name, hnext, hword⟩ := fails_name hname
      obtain rfl : rest = afterType := hrest
      exact .keyword ⟨_, htype⟩ hnext hword
    · rename_i name mid hmid hname
      have ht : Takes readType input (Parameter.type ⟨name, t⟩) afterType := ⟨_, htype⟩
      split at h
      · split at h
        · rename_i hmore
          cases h
          exact .more (p := ⟨name, t⟩) ht ⟨_, hname⟩ ⟨_, hmore⟩
        · cases h
      · cases h
      · rename_i hcomma hclose
        cases h
        refine .unclosed (p := ⟨name, t⟩) ht ⟨_, hname⟩ (fun hnext => ?_) (fun hnext => ?_)
        · obtain ⟨offset, ts, rfl⟩ := next?_eq_some hnext
          exact hcomma offset ts _ rfl HEq.rfl
        · obtain ⟨offset, ts, rfl⟩ := next?_eq_some hnext
          exact hclose offset ts _ rfl HEq.rfl

theorem params_breaksOff {input rest : List Token} (hcut : WordsCut input) (h : Fails readParams input rest) :
    BreaksOff SpellsParams (Refuses readParams) input rest := by
  induction hlength : input.length using Nat.strongRecOn generalizing input with
  | ind n ih =>
      cases breaks_of_fails_params h with
      | type htype =>
          have hlast : ∀ ls, SpellsType ls → ∃ more, SpellsParams ([] ++ ls ++ more) := by
            rintro _ ⟨t, ht, rfl⟩
            refine ⟨[.closeParen], ?_⟩
            simpa [Parameter.lexemes] using spellsParams_last (p := ⟨"", t⟩) ⟨ht, .inl rfl⟩
          refine (type_breaksOff hcut htype).after (Leaves.refl input) hlast fun input' ls hinput => ?_
          refine ⟨input', hinput, fun hrefuses params rest' htakes => ?_⟩
          obtain ⟨p, afterType, mid, ht, -⟩ := takes_params.mp htakes
          exact ht.not_refuses hrefuses
      | @keyword _ t name ht hnext hword =>
          obtain ⟨hvalid, hleaves⟩ := leaves_type hcut ht
          have hlast := spellsParams_last (p := ⟨"", t⟩) ⟨hvalid, .inl rfl⟩
          refine ⟨_, hleaves, ⟨[.closeParen], by simpa [Parameter.lexemes] using hlast⟩, ?_⟩
          rintro input' ⟨ls, hinput, hls⟩ params rest' htakes
          obtain ⟨afterType, rfl, ht'⟩ := type_complete hvalid hinput
          obtain ⟨p, afterType', mid, ht'', hname, -⟩ := takes_params.mp htakes
          obtain ⟨-, rfl⟩ := ht'.unique ht''
          rw [head?_map_lexeme, hnext] at hls
          obtain ⟨offset, ts, rfl⟩ := next?_eq_some hls
          rcases takes_name.mp hname with ⟨_, heq, hnot⟩ | ⟨-, -, hnot⟩
          · cases heq
            rw [hword] at hnot
            cases hnot
          · exact hnot _ _ _ rfl
      | @more afterType _ p offset ts ht hname hmore =>
          obtain ⟨hparam, hleaves⟩ := leaves_param hcut ht hname
          have hshorter := ht.shorter
          have hshorter' := hname.1
          simp only [List.length_cons] at hshorter'
          have hbreaks := ih ts.length (by omega) (hcut.rest hleaves.spelled).tail hmore rfl
          refine hbreaks.after (hleaves.append (Leaves.refl ts).cons)
            (fun ls hls => ⟨[], by simpa using hls.cons hparam⟩) fun input' ls hinput => ?_
          rw [List.append_assoc] at hinput
          obtain ⟨afterType', mid, ht', hname', hmid⟩ :=
            param_complete hparam hinput (by rintro _ _ ⟨⟩)
          obtain ⟨offset', ts', rfl, hts'⟩ := map_lexeme_eq_cons hmid
          refine ⟨ts', hts', fun hrefuses params rest' htakes => ?_⟩
          obtain ⟨p', _, mid', ht'', hname'', hend⟩ := takes_params.mp htakes
          obtain ⟨-, rfl⟩ := ht'.unique ht''
          obtain ⟨-, rfl⟩ := hname'.unique hname''
          rcases hend with ⟨_, _, more, heq, hparams, -⟩ | ⟨_, heq, -⟩
          · cases heq
            exact hparams.not_refuses hrefuses
          · cases heq
      | @unclosed afterType _ p ht hname hcomma hclose =>
          obtain ⟨hparam, hleaves⟩ := leaves_param hcut ht hname
          refine ⟨p.lexemes, hleaves, ⟨_, spellsParams_last hparam⟩, ?_⟩
          rintro input' ⟨ls, hinput, hnext⟩ params rest' htakes
          have hwordless : p.name = "" → ∀ word, ls.head? ≠ some (.ident word) := by
            rw [hnext]
            exact hname.wordless (hcut.rest (leaves_type hcut ht).2.spelled)
          obtain ⟨afterType', mid, ht', hname', rfl⟩ := param_complete hparam hinput hwordless
          obtain ⟨p', _, mid', ht'', hname'', hend⟩ := takes_params.mp htakes
          obtain ⟨-, rfl⟩ := ht'.unique ht''
          obtain ⟨-, rfl⟩ := hname'.unique hname''
          rcases hend with ⟨_, _, more, rfl, -, -⟩ | ⟨_, rfl, -⟩
          · exact hcomma hnext.symm
          · exact hclose hnext.symm

theorem fails_paramList {input rest : List Token} (h : Fails readParamList input rest) :
    (next? input ≠ some .openParen ∧ rest = input) ∨
      ∃ offset ts, input = ⟨.openParen, offset⟩ :: ts ∧ closes ts = false ∧ Fails readParams ts rest := by
  obtain ⟨expected, h⟩ := h
  rw [readParamList.eq_def] at h
  split at h
  · rename_i offset ts
    split at h
    · cases h
    · rename_i hcloses
      split at h
      · rename_i hparams
        cases h
        exact .inr ⟨offset, ts, rfl, Bool.eq_false_iff.mpr hcloses, _, hparams⟩
      · cases h
  · rename_i hopen
    cases h
    refine .inl ⟨fun hnext => ?_, rfl⟩
    obtain ⟨offset, ts, rfl⟩ := next?_eq_some hnext
    exact hopen offset ts rfl

theorem next?_of_takes_paramList {input rest : List Token} {params : List Parameter}
    (h : Takes readParamList input params rest) : next? input = some .openParen := by
  obtain ⟨offset, ts, rfl, -⟩ := takes_paramList.mp h
  rfl

theorem GoesOn.next?_eq {input input' : List Token} {taken : List Lexeme} {next : Option Lexeme}
    (h : GoesOn input taken next) (h' : GoesOn input' taken next) : next? input = next? input' := by
  obtain ⟨ls, hinput, hnext⟩ := h
  obtain ⟨ls', hinput', hnext'⟩ := h'
  rw [← head?_map_lexeme, ← head?_map_lexeme, hinput, hinput', List.head?_append, List.head?_append, hnext, hnext']

theorem paramList_breaksOff {input rest : List Token} (hcut : WordsCut input) (h : Fails readParamList input rest) :
    BreaksOff SpellsList (Refuses readParamList) input rest := by
  rcases fails_paramList h with ⟨hopen, rfl⟩ | ⟨offset, ts, rfl, hcloses, hparams⟩
  · refine .here spellsList_nil fun input' hnext params rest' htakes => hopen ?_
    rw [← hnext]
    exact next?_of_takes_paramList htakes
  · obtain ⟨taken, hleaves, ⟨more, hmore⟩, hdead⟩ := params_breaksOff hcut.tail hparams
    refine ⟨_, hleaves.cons, ⟨more, hmore.list⟩, ?_⟩
    rintro input' ⟨ls, hinput, hnext⟩ params rest' htakes
    rw [List.cons_append] at hinput
    obtain ⟨offset', ts', rfl, hts'⟩ := map_lexeme_eq_cons hinput
    obtain ⟨_, _, heq, hlist⟩ := takes_paramList.mp htakes
    cases heq
    rcases hlist with ⟨_, rfl, -⟩ | ⟨-, hparams'⟩
    · -- an empty list closes where this one goes on
      have hsame := GoesOn.next?_eq ⟨ls, hts', hnext⟩ ⟨_, hleaves.spelled, head?_map_lexeme rest⟩
      rw [closes_iff.mpr hsame.symm] at hcloses
      cases hcloses
    · exact hparams'.not_refuses (hdead _ ⟨ls, hts', hnext⟩)

/-! ## Whole texts -/

section

variable {complete : List Lexeme → Prop} {refused : List Token → Prop} {input rest : List Token}
  {taken : List Lexeme}

/-- Reading breaks off behind what is complete when nothing may follow. -/
theorem BreaksOff.leftover (hcomplete : complete taken) (hleaves : Leaves input taken rest) (hrest : rest ≠ [])
    (hrefused : ∀ input' ls, ls ≠ [] → input'.map (·.lexeme) = taken ++ ls → refused input') :
    BreaksOff complete refused input rest := by
  refine ⟨taken, hleaves, ⟨[], by rwa [List.append_nil]⟩, ?_⟩
  rintro input' ⟨ls, hinput, hnext⟩
  refine hrefused input' ls ?_ hinput
  rintro rfl
  cases rest with
  | nil => exact hrest rfl
  | cons t ts => cases hnext

end

/-- What is read and then not finished breaks off where tokens are left over. -/
theorem rest_of_unfinished {α : Type} (rest : List Token) (value : α) {f : Failure}
    (h : (finish rest >>= fun _ => pure value) = .error f) : rest ≠ [] ∧ f.rest = rest := by
  cases rest with
  | nil => cases h
  | cons t ts =>
      cases h
      exact ⟨List.cons_ne_nil t ts, rfl⟩

theorem wholeType_eq_error {input : List Token} {f : Failure} (h : wholeType input = .error f) :
    Fails readType input f.rest ∨ ∃ t, Takes readType input t f.rest ∧ f.rest ≠ [] := by
  rw [wholeType] at h
  cases hread : readType input with
  | error e =>
      rw [hread] at h
      cases h
      exact .inl ⟨_, hread⟩
  | ok r =>
      obtain ⟨t, rest, hrest⟩ := r
      rw [hread] at h
      obtain ⟨hne, heq⟩ := rest_of_unfinished rest t h
      exact .inr ⟨t, heq ▸ ⟨hrest, hread⟩, heq ▸ hne⟩

theorem wholeType_breaksOff {input : List Token} (hcut : WordsCut input) {f : Failure}
    (h : wholeType input = .error f) :
    BreaksOff SpellsType (fun input' => ∀ t, wholeType input' ≠ .ok t) input f.rest := by
  rcases wholeType_eq_error h with htype | ⟨t, htype, hrest⟩
  · refine (type_breaksOff hcut htype).after (Leaves.refl input) (fun ls hls => ⟨[], by simpa using hls⟩) ?_
    exact fun input' ls hinput =>
      ⟨input', hinput, fun hrefuses t hwhole => (wholeType_eq_ok.mp hwhole).not_refuses hrefuses⟩
  · obtain ⟨hvalid, hleaves⟩ := leaves_type hcut htype
    refine .leftover ⟨t, hvalid, rfl⟩ hleaves hrest fun input' ls hls hinput t' hwhole => ?_
    obtain ⟨rest, hmap, htype'⟩ := type_complete hvalid hinput
    obtain ⟨-, rfl⟩ := htype'.unique (wholeType_eq_ok.mp hwhole)
    exact hls hmap.symm

def SpellsSignature (ls : List Lexeme) : Prop := ∃ s : Signature, s.WellFormed ∧ s.lexemes = ls

theorem SpellsList.signature {t : TypeExpr} (ht : t.Valid) {name : String} (hname : Signature.IsName name)
    {ls : List Lexeme} (h : SpellsList ls) : SpellsSignature (t.lexemes ++ .ident name :: ls) := by
  obtain ⟨params, hall, rfl⟩ := h
  exact ⟨⟨name, params, t, 0, {}, ""⟩, Signature.wellFormed_iff.mpr ⟨hname, hall, ht⟩, rfl⟩

theorem spellsSignature_of_type {t : TypeExpr} (ht : t.Valid) :
    SpellsSignature (t.lexemes ++ [.ident "f", .openParen, .closeParen]) :=
  spellsList_nil.signature ht (by decide)

/-- Where the reading of a signature can break off. -/
inductive SignatureBreaks (input : List Token) : List Token → Prop
  | type {rest : List Token} (h : Fails readType input rest) : SignatureBreaks input rest
  | nameless {rest : List Token} {t : TypeExpr} (ht : Takes readType input t rest)
      (hnext : ∀ name, next? rest = some (.ident name) → TypeExpr.isKeyword name = true) : SignatureBreaks input rest
  | params {rest ts : List Token} {t : TypeExpr} {name : String} {offset : Nat}
      (ht : Takes readType input t (⟨.ident name, offset⟩ :: ts)) (hword : TypeExpr.isKeyword name = false)
      (h : Fails readParamList ts rest) : SignatureBreaks input rest
  | leftover {rest ts : List Token} {t : TypeExpr} {name : String} {offset : Nat} {params : List Parameter}
      (ht : Takes readType input t (⟨.ident name, offset⟩ :: ts)) (hword : TypeExpr.isKeyword name = false)
      (hparams : Takes readParamList ts params rest) (hrest : rest ≠ []) : SignatureBreaks input rest

theorem wholeSignature_eq_error {input : List Token} {f : Failure} (h : wholeSignature input = .error f) :
    SignatureBreaks input f.rest := by
  rw [wholeSignature] at h
  cases hread : readType input with
  | error e =>
      rw [hread] at h
      cases h
      exact .type ⟨_, hread⟩
  | ok r =>
      obtain ⟨t, mid, hmid⟩ := r
      simp only [hread, bind, Except.bind] at h
      split at h
      · rename_i name offset ts
        have ht : Takes readType input t (⟨.ident name, offset⟩ :: ts) := ⟨hmid, hread⟩
        split at h
        · rename_i hword
          cases h
          refine .nameless ht fun name' hnext => ?_
          cases hnext
          exact hword
        · rename_i hword
          rw [Bool.not_eq_true] at hword
          cases hlist : readParamList ts with
          | error e =>
              simp only [hlist] at h
              cases h
              exact .params ht hword ⟨_, hlist⟩
          | ok r' =>
              obtain ⟨params, rest, hrest⟩ := r'
              simp only [hlist] at h
              obtain ⟨hne, heq⟩ := rest_of_unfinished rest _ h
              rw [heq]
              exact .leftover ht hword ⟨hrest, hlist⟩ hne
      · rename_i hnot
        cases h
        refine .nameless ⟨hmid, hread⟩ fun name hnext => ?_
        obtain ⟨offset, ts, rfl⟩ := next?_eq_some hnext
        exact absurd rfl (hnot name offset ts)

theorem wholeSignature_breaksOff {input : List Token} (hcut : WordsCut input) {f : Failure}
    (h : wholeSignature input = .error f) :
    BreaksOff SpellsSignature (fun input' => ∀ s, wholeSignature input' ≠ .ok s) input f.rest := by
  cases wholeSignature_eq_error h with
  | type htype =>
      refine (type_breaksOff hcut htype).after (Leaves.refl input) ?_ fun input' ls hinput => ?_
      · rintro _ ⟨t, ht, rfl⟩
        exact ⟨_, spellsSignature_of_type ht⟩
      · refine ⟨input', hinput, fun hrefuses s hwhole => ?_⟩
        obtain ⟨t, _, _, _, _, ht, -⟩ := wholeSignature_eq_ok.mp hwhole
        exact ht.not_refuses hrefuses
  | @nameless t ht hnext =>
      obtain ⟨hvalid, hleaves⟩ := leaves_type hcut ht
      refine ⟨_, hleaves, ⟨_, spellsSignature_of_type hvalid⟩, ?_⟩
      rintro input' ⟨ls, hinput, hls⟩ s hwhole
      obtain ⟨mid, rfl, ht'⟩ := type_complete hvalid hinput
      obtain ⟨t', name, offset, ts, params, ht'', hword, -⟩ := wholeSignature_eq_ok.mp hwhole
      obtain ⟨-, rfl⟩ := ht'.unique ht''
      rw [hnext name hls.symm] at hword
      cases hword
  | @params ts t name offset ht hword hlist =>
      obtain ⟨hvalid, hleaves⟩ := leaves_type hcut ht
      have hmid := hcut.rest hleaves.spelled
      have hname : Signature.IsName name := ⟨hmid name List.mem_cons_self, hword⟩
      refine (paramList_breaksOff hmid.tail hlist).after (hleaves.append (Leaves.refl ts).cons)
        (fun ls hls => ⟨[], by simpa using hls.signature hvalid hname⟩) fun input' ls hinput => ?_
      rw [List.append_assoc] at hinput
      obtain ⟨mid, hmid', ht'⟩ := type_complete hvalid hinput
      obtain ⟨offset', ts', rfl, hts'⟩ := map_lexeme_eq_cons hmid'
      refine ⟨ts', hts', fun hrefuses s hwhole => ?_⟩
      obtain ⟨t', _, _, _, params, ht'', -, hparams, -⟩ := wholeSignature_eq_ok.mp hwhole
      obtain ⟨-, heq⟩ := ht'.unique ht''
      cases heq
      exact hparams.not_refuses hrefuses
  | @leftover ts t name offset params ht hword hlist hrest =>
      obtain ⟨hvalid, hleaves⟩ := leaves_type hcut ht
      have hmid := hcut.rest hleaves.spelled
      have hname : Signature.IsName name := ⟨hmid name List.mem_cons_self, hword⟩
      obtain ⟨hall, hleaves'⟩ := leaves_paramList hmid.tail hlist
      refine .leftover (SpellsList.signature hvalid hname ⟨params, hall, rfl⟩) (hleaves.append hleaves'.cons) hrest
        fun input' ls hls hinput s hwhole => ?_
      rw [List.append_assoc] at hinput
      obtain ⟨mid, hmid', ht'⟩ := type_complete hvalid hinput
      obtain ⟨offset', ts', rfl, hts'⟩ := map_lexeme_eq_cons hmid'
      obtain ⟨rest', hrest', hparams⟩ := paramList_complete hall hts'
      obtain ⟨t', _, _, _, params', ht'', -, hparams', -⟩ := wholeSignature_eq_ok.mp hwhole
      obtain ⟨-, heq⟩ := ht'.unique ht''
      cases heq
      obtain ⟨-, rfl⟩ := hparams.unique hparams'
      exact hls hrest'.symm

def SpellsQuery (ls : List Lexeme) : Prop :=
  ∃ name, isIdentifier name ∧ ∃ list, ls = .ident name :: list ∧ (list = [] ∨ SpellsList list)

theorem wholeQuery_wordless {input : List Token} (h : ∀ name, next? input ≠ some (.ident name)) :
    wholeQuery input = .error ⟨.identifier, input⟩ := by
  rw [wholeQuery.eq_def]
  split
  · rename_i name offset ts
    exact absurd rfl (h name)
  · rfl

theorem wholeQuery_list (name : String) (offset : Nat) {ts : List Token} (hopen : next? ts = some .openParen) :
    wholeQuery (⟨.ident name, offset⟩ :: ts) = do
      let params ← readParamList ts
      finish params.rest
      return ⟨name, some (params.value.map (·.type))⟩ := by
  obtain ⟨offset', us, rfl⟩ := next?_eq_some hopen
  rfl

theorem wholeQuery_name (name : String) (offset : Nat) {ts : List Token} (hopen : next? ts ≠ some .openParen) :
    wholeQuery (⟨.ident name, offset⟩ :: ts) = do
      finish ts
      return ⟨name, none⟩ := by
  rw [wholeQuery.eq_def]
  dsimp only
  split
  · exact absurd rfl hopen
  · rfl

/-- A query is a word, with or without a parameter list. -/
theorem wholeQuery_eq_ok {input : List Token} {q : Query} :
    wholeQuery input = .ok q ↔
      ∃ name offset ts, input = ⟨.ident name, offset⟩ :: ts ∧
        ((ts = [] ∧ q = ⟨name, none⟩) ∨
          ∃ params, Takes readParamList ts params [] ∧ q = ⟨name, some (params.map (·.type))⟩) := by
  constructor
  · intro h
    by_cases hword : ∃ name, next? input = some (.ident name)
    · obtain ⟨name, hname⟩ := hword
      obtain ⟨offset, ts, rfl⟩ := next?_eq_some hname
      refine ⟨name, offset, ts, rfl, ?_⟩
      by_cases hopen : next? ts = some .openParen
      · rw [wholeQuery_list name offset hopen] at h
        cases hlist : readParamList ts with
        | error e =>
            rw [hlist] at h
            cases h
        | ok r =>
            obtain ⟨params, rest, hrest⟩ := r
            rw [hlist] at h
            cases rest with
            | nil =>
                cases h
                exact .inr ⟨params, ⟨_, hlist⟩, rfl⟩
            | cons t rest => cases h
      · rw [wholeQuery_name name offset hopen] at h
        cases ts with
        | nil =>
            cases h
            exact .inl ⟨rfl, rfl⟩
        | cons t ts => cases h
    · rw [wholeQuery_wordless (not_exists.mp hword)] at h
      cases h
  · rintro ⟨name, offset, ts, rfl, ⟨rfl, rfl⟩ | ⟨params, hparams, rfl⟩⟩
    · rfl
    · rw [wholeQuery_list name offset (next?_of_takes_paramList hparams)]
      obtain ⟨hrest, hlist⟩ := hparams
      rw [hlist]
      rfl

/-- Where the reading of a query can break off. -/
inductive QueryBreaks : List Token → List Token → Prop
  | nameless {input : List Token} (h : ∀ name, next? input ≠ some (.ident name)) : QueryBreaks input input
  | list (name : String) (offset : Nat) {ts rest : List Token} (hopen : next? ts = some .openParen)
      (h : Fails readParamList ts rest) : QueryBreaks (⟨.ident name, offset⟩ :: ts) rest
  | behindName (name : String) (offset : Nat) {ts : List Token} (hopen : next? ts ≠ some .openParen)
      (hts : ts ≠ []) : QueryBreaks (⟨.ident name, offset⟩ :: ts) ts
  | behindList (name : String) (offset : Nat) {ts rest : List Token} {params : List Parameter}
      (hparams : Takes readParamList ts params rest) (hrest : rest ≠ []) :
      QueryBreaks (⟨.ident name, offset⟩ :: ts) rest

theorem wholeQuery_eq_error {input : List Token} {f : Failure} (h : wholeQuery input = .error f) :
    QueryBreaks input f.rest := by
  by_cases hword : ∃ name, next? input = some (.ident name)
  · obtain ⟨name, hname⟩ := hword
    obtain ⟨offset, ts, rfl⟩ := next?_eq_some hname
    by_cases hopen : next? ts = some .openParen
    · rw [wholeQuery_list name offset hopen] at h
      cases hlist : readParamList ts with
      | error e =>
          rw [hlist] at h
          cases h
          exact .list name offset hopen ⟨_, hlist⟩
      | ok r =>
          obtain ⟨params, rest, hrest⟩ := r
          rw [hlist] at h
          obtain ⟨hne, heq⟩ := rest_of_unfinished rest _ h
          rw [heq]
          exact .behindList name offset ⟨hrest, hlist⟩ hne
    · rw [wholeQuery_name name offset hopen] at h
      obtain ⟨hne, heq⟩ := rest_of_unfinished ts _ h
      rw [heq]
      exact .behindName name offset hopen hne
  · rw [wholeQuery_wordless (not_exists.mp hword)] at h
    cases h
    exact .nameless (not_exists.mp hword)

theorem wholeQuery_breaksOff {input : List Token} (hcut : WordsCut input) {f : Failure}
    (h : wholeQuery input = .error f) :
    BreaksOff SpellsQuery (fun input' => ∀ q, wholeQuery input' ≠ .ok q) input f.rest := by
  cases wholeQuery_eq_error h with
  | nameless hword =>
      refine .here ⟨"f", by decide, [], rfl, .inl rfl⟩ fun input' hnext q hwhole => ?_
      obtain ⟨name, offset, ts, rfl, -⟩ := wholeQuery_eq_ok.mp hwhole
      exact hword name hnext.symm
  | @list name offset ts _ hopen hlist =>
      have hname : isIdentifier name := hcut name List.mem_cons_self
      obtain ⟨taken, hleaves, ⟨more, hmore⟩, hdead⟩ := paramList_breaksOff hcut.tail hlist
      refine ⟨_, hleaves.cons, ⟨more, name, hname, _, rfl, .inr hmore⟩, ?_⟩
      rintro input' ⟨ls, hinput, hnext⟩ q hwhole
      rw [List.cons_append] at hinput
      obtain ⟨offset', ts', rfl, hts'⟩ := map_lexeme_eq_cons hinput
      obtain ⟨_, _, _, heq, ⟨rfl, -⟩ | ⟨params, hparams, -⟩⟩ := wholeQuery_eq_ok.mp hwhole
      · -- a name by itself ends where this query opens a list
        cases heq
        have hsame := GoesOn.next?_eq ⟨ls, hts', hnext⟩ ⟨_, hleaves.spelled, head?_map_lexeme f.rest⟩
        rw [hopen] at hsame
        cases hsame
      · cases heq
        exact hparams.not_refuses (hdead _ ⟨ls, hts', hnext⟩)
  | @behindName name offset ts hopen hts =>
      have hname : isIdentifier name := hcut name List.mem_cons_self
      refine ⟨[.ident name], (Leaves.refl _).cons, ⟨[], name, hname, [], rfl, .inl rfl⟩, ?_⟩
      rintro input' ⟨ls, hinput, hnext⟩ q hwhole
      rw [List.singleton_append] at hinput
      obtain ⟨offset', ts', rfl, rfl⟩ := map_lexeme_eq_cons hinput
      rw [head?_map_lexeme] at hnext
      obtain ⟨_, _, _, heq, ⟨rfl, -⟩ | ⟨params, hparams, -⟩⟩ := wholeQuery_eq_ok.mp hwhole
      · cases heq
        obtain ⟨t, us, heq⟩ := List.exists_cons_of_ne_nil hts
        rw [heq] at hnext
        cases hnext
      · cases heq
        exact hopen (hnext.symm.trans (next?_of_takes_paramList hparams))
  | @behindList name offset ts _ params hlist hrest =>
      have hname : isIdentifier name := hcut name List.mem_cons_self
      obtain ⟨hall, hleaves⟩ := leaves_paramList hcut.tail hlist
      refine .leftover ⟨name, hname, _, rfl, .inr ⟨params, hall, rfl⟩⟩ hleaves.cons hrest
        fun input' ls hls hinput q hwhole => ?_
      rw [List.cons_append] at hinput
      obtain ⟨offset', ts', rfl, hts'⟩ := map_lexeme_eq_cons hinput
      obtain ⟨rest', hrest', hparams⟩ := paramList_complete hall hts'
      obtain ⟨_, _, _, heq, ⟨rfl, -⟩ | ⟨params', hparams', -⟩⟩ := wholeQuery_eq_ok.mp hwhole
      · cases heq
        have hopen := next?_of_takes_paramList hparams
        cases hopen
      · cases heq
        obtain ⟨-, rfl⟩ := hparams.unique hparams'
        exact hls hrest'.symm

end Grammar

/-! ## Errors -/

namespace Token

/-- The lexemes of a text, and its end. -/
def stream (text : String) : List (Option Lexeme) := (lexemes text).map some ++ [none]

/-- Where a token of a text starts, in bytes. The end stands behind the text. -/
def offsetIn (text : String) (k : Nat) : Nat := ((scan text)[k]?.map (·.offset)).getD text.utf8ByteSize

end Token

/-- An error stands at the first token of a text, or at its end, that no accepted text has behind the tokens before
it. -/
structure SyntaxError.AtFirstImpossible (accepted : String → Prop) (source : String) (e : SyntaxError) : Prop where
  text : e.text = source
  place : ∃ k, e.offset = Token.offsetIn source k ∧ (Token.stream source)[k]? = some e.found ∧
    (∃ good, accepted good ∧ (Token.stream source).take k <+: Token.stream good) ∧
    ∀ good, accepted good → ¬ (Token.stream source).take (k + 1) <+: Token.stream good

namespace Grammar

/-- Lexemes that others begin with, the next one or the end included. -/
theorem exists_rest_of_begins {ls taken : List Lexeme} {next : Option Lexeme}
    (h : taken.map some ++ [next] <+: ls.map some ++ [none]) : ∃ rest, ls = taken ++ rest ∧ rest.head? = next := by
  induction taken generalizing ls with
  | nil =>
      refine ⟨ls, rfl, ?_⟩
      cases ls with
      | nil => exact (List.cons_prefix_cons.mp h).1.symm
      | cons l ls => exact (List.cons_prefix_cons.mp h).1.symm
  | cons l taken ih =>
      cases ls with
      | nil => cases (List.cons_prefix_cons.mp h).1
      | cons l' ls =>
          obtain ⟨hl, htail⟩ := List.cons_prefix_cons.mp h
          obtain rfl := Option.some.inj hl
          obtain ⟨rest, rfl, hnext⟩ := ih htail
          exact ⟨rest, rfl, hnext⟩

/-- The report of a failure stands where reading broke off. -/
theorem BreaksOff.atFirstImpossible {complete : List Lexeme → Prop} {refused : List Token → Prop}
    {accepted : String → Prop} {text : String} {f : Failure}
    (h : BreaksOff complete refused (Token.scan text) f.rest)
    (hgood : ∀ ls, complete ls → ∃ good, accepted good ∧ Token.lexemes good = ls)
    (hbad : ∀ good, refused (Token.scan good) → ¬ accepted good) :
    (f.report text).AtFirstImpossible accepted text := by
  obtain ⟨taken, ⟨⟨front, hfront⟩, hspelled⟩, ⟨more, hmore⟩, hdead⟩ := h
  rw [Spelled, ← hfront, List.map_append] at hspelled
  have htaken : front.map (·.lexeme) = taken := List.append_cancel_right hspelled
  have hlength : front.length = taken.length := by rw [← htaken, List.length_map]
  obtain ⟨tail, hstream⟩ : ∃ tail, Token.stream text = taken.map some ++ next? f.rest :: tail := by
    rw [Token.stream, Token.lexemes, ← hfront, List.map_append, htaken]
    cases f.rest with
    | nil => exact ⟨[], by simp [next?]⟩
    | cons t ts => exact ⟨ts.map (some ·.lexeme) ++ [none], by simp [next?, Function.comp_def]⟩
  have htake : (Token.stream text).take taken.length = taken.map some := by
    rw [hstream, List.take_left' (List.length_map _)]
  have htake' : (Token.stream text).take (taken.length + 1) = taken.map some ++ [next? f.rest] := by
    have hlast : taken.map some ++ next? f.rest :: tail = (taken.map some ++ [next? f.rest]) ++ tail := by simp
    rw [hstream, hlast, List.take_left' (by simp)]
  refine ⟨rfl, taken.length, ?_, ?_, ?_, ?_⟩
  · rw [Token.offsetIn, ← hfront, ← hlength, List.getElem?_append_right (Nat.le_refl _), Nat.sub_self]
    unfold Failure.report
    cases f.rest <;> rfl
  · rw [hstream, List.getElem?_append_right (by simp)]
    simp [Failure.report, next?]
  · obtain ⟨good, haccepted, hlexemes⟩ := hgood _ hmore
    refine ⟨good, haccepted, ?_⟩
    rw [htake, Token.stream, hlexemes, List.map_append, List.append_assoc]
    exact List.prefix_append _ _
  · intro good haccepted hprefix
    rw [htake', Token.stream] at hprefix
    exact hbad good (hdead _ (exists_rest_of_begins hprefix)) haccepted

/-- A text that is not accepted was broken off. -/
theorem parseWith_eq_error {α : Type} {read : List Token → Except Failure α} {text : String} {e : SyntaxError}
    (h : parseWith read text = .error e) : ∃ f, read (Token.scan text) = .error f ∧ f.report text = e := by
  rw [parseWith] at h
  cases hread : read (Token.scan text) with
  | error f =>
      rw [hread] at h
      exact ⟨f, rfl, Except.error.inj h⟩
  | ok a =>
      rw [hread] at h
      cases h

theorem not_accepted {α : Type} {read : List Token → Except Failure α} {text : String}
    (h : ∀ a, read (Token.scan text) ≠ .ok a) : ¬ ∃ a, parseWith read text = .ok a :=
  fun ⟨a, ha⟩ => h a (parseWith_eq_ok.mp ha)

/-- The text of a name and a parameter list. -/
def listText (name : String) (params : List Parameter) : String :=
  name ++ "(" ++ ", ".intercalate (params.map (·.render)) ++ ")"

theorem lexemes_listText {name : String} (hname : isIdentifier name) {params : List Parameter}
    (hparams : ParamsWellFormed params) : Token.lexemes (listText name params) = .ident name :: listLexemes params := by
  have htext : (listText name params).toList = name.toList ++ ('(' ::
      ([',', ' '].intercalate (params.map (·.render.toList)) ++ [')'])) := by
    simp [listText, Function.comp_def]
  rw [Token.lexemes_eq, htext, Token.lexemesOf_word hname (Token.Stops.cons (by decide) _),
    Token.lexemesOf_symbol (c := '(') (by decide) (by decide),
    Token.lexemesOf_intercalate _ Parameter.lexemes (fun p hmem _ hrest =>
      Parameter.lexemesOf_render (hparams p hmem).1 (hparams p hmem).2 hrest) (Token.Stops.cons (by decide) _),
    Token.lexemesOf_symbol (c := ')') (by decide) (by decide)]
  simp [listLexemes, Token.symbols, Token.lexemesOf, Token.scanFrom]

theorem SpellsQuery.exists_text {ls : List Lexeme} (h : SpellsQuery ls) :
    ∃ good, (∃ q, Query.parse good = .ok q) ∧ Token.lexemes good = ls := by
  obtain ⟨name, hname, _, rfl, rfl | ⟨params, hall, rfl⟩⟩ := h
  · have hlexemes : Token.lexemes name = [.ident name] := by
      have hword := Token.lexemesOf_word hname Token.Stops.nil
      rw [List.append_nil] at hword
      rw [Token.lexemes_eq, hword]
      simp [Token.lexemesOf, Token.scanFrom]
    obtain ⟨offset, ts, hscan, hts⟩ := map_lexeme_eq_cons hlexemes
    obtain rfl := List.map_eq_nil_iff.mp hts
    refine ⟨name, ⟨⟨name, none⟩, parseWith_eq_ok.mpr ?_⟩, hlexemes⟩
    rw [hscan]
    rfl
  · have hlexemes := lexemes_listText hname hall
    obtain ⟨offset, ts, hscan, hts⟩ := map_lexeme_eq_cons hlexemes
    obtain ⟨rest, hrest, hlist⟩ := paramList_complete hall (hts.trans (List.append_nil _).symm)
    obtain rfl := List.map_eq_nil_iff.mp hrest
    exact ⟨_, ⟨_, parseWith_eq_ok.mpr (wholeQuery_eq_ok.mpr ⟨name, offset, ts, hscan, .inr ⟨params, hlist, rfl⟩⟩)⟩,
      hlexemes⟩

end Grammar

open Grammar

theorem TypeExpr.error_atFirstImpossible {text : String} {e : SyntaxError} (h : TypeExpr.parse text = .error e) :
    e.AtFirstImpossible (fun good => ∃ t, TypeExpr.parse good = .ok t) text := by
  obtain ⟨f, hread, rfl⟩ := parseWith_eq_error h
  refine (wholeType_breaksOff (Token.wordsCut_scan text) hread).atFirstImpossible ?_ fun _ => not_accepted
  rintro _ ⟨t, ht, rfl⟩
  have hlexemes := TypeExpr.lexemes_render ht
  exact ⟨t.render, ⟨t, TypeExpr.parse_eq_ok_iff.mpr ⟨ht, hlexemes⟩⟩, hlexemes⟩

theorem Signature.error_atFirstImpossible {text : String} {order : Int} {e : SyntaxError}
    (h : Signature.parse text order = .error e) :
    e.AtFirstImpossible (fun good => ∃ s, Signature.parse good order = .ok s) text := by
  have hwhole : parseWith wholeSignature text = .error e := by
    rw [Signature.parse] at h
    cases hparse : parseWith wholeSignature text with
    | error e' =>
        rw [hparse] at h
        exact h
    | ok s =>
        rw [hparse] at h
        cases h
  obtain ⟨f, hread, rfl⟩ := parseWith_eq_error hwhole
  refine (wholeSignature_breaksOff (Token.wordsCut_scan text) hread).atFirstImpossible ?_ ?_
  · rintro _ ⟨s, hs, rfl⟩
    have hlexemes := Signature.lexemes_render hs
    obtain ⟨hname, hparams, hresult⟩ := Signature.wellFormed_iff.mp hs
    have hs' : Signature.WellFormed { s.unplaced with order := order } :=
      Signature.wellFormed_iff.mpr ⟨hname, hparams, hresult⟩
    exact ⟨s.render, ⟨_, Signature.parse_eq_ok_iff.mpr ⟨hs', rfl, rfl, hlexemes⟩⟩, hlexemes⟩
  · rintro good hrefused ⟨s, hs⟩
    obtain ⟨s', hread', -⟩ := Signature.parse_eq_ok.mp hs
    exact hrefused s' hread'

theorem Query.error_atFirstImpossible {text : String} {e : SyntaxError} (h : Query.parse text = .error e) :
    e.AtFirstImpossible (fun good => ∃ q, Query.parse good = .ok q) text := by
  obtain ⟨f, hread, rfl⟩ := parseWith_eq_error h
  exact (wholeQuery_breaksOff (Token.wordsCut_scan text) hread).atFirstImpossible
    (fun ls hls => hls.exists_text) fun _ => not_accepted

/-- Errors stand at the first impossible token. The error of a text that is no type, no signature or no query
carries the text and stands at one of its tokens, or at its end, which is what it says that it found. Some accepted
text begins with the tokens before that place, and none begins with these and has that token, or its end, behind
them. -/
theorem parse_error_atFirstImpossible :
    (∀ text e, TypeExpr.parse text = .error e →
      e.AtFirstImpossible (fun good => ∃ t, TypeExpr.parse good = .ok t) text) ∧
    (∀ text order e, Signature.parse text order = .error e →
      e.AtFirstImpossible (fun good => ∃ s, Signature.parse good order = .ok s) text) ∧
    (∀ text e, Query.parse text = .error e →
      e.AtFirstImpossible (fun good => ∃ q, Query.parse good = .ok q) text) :=
  ⟨fun _ _ => TypeExpr.error_atFirstImpossible, fun _ _ _ => Signature.error_atFirstImpossible,
    fun _ _ => Query.error_atFirstImpossible⟩

/-- A digit among dimensions, an empty tuple in a list of parameters, and a keyword as a name in a query. -/
theorem parse_error_of_misplaced_tokens :
    (∃ e, TypeExpr.parse "array[,3] int" = .error e ∧ e.offset = 7 ∧
      e.AtFirstImpossible (fun good => ∃ t, TypeExpr.parse good = .ok t) "array[,3] int") ∧
    (∃ e, Signature.parse "real f(array[] tuple() x)" 2 = .error e ∧ e.offset = 21 ∧
      e.AtFirstImpossible (fun good => ∃ s, Signature.parse good 2 = .ok s) "real f(array[] tuple() x)") ∧
    ∃ e, Query.parse "matrix(real vector" = .error e ∧ e.offset = 12 ∧
      e.AtFirstImpossible (fun good => ∃ q, Query.parse good = .ok q) "matrix(real vector" := by
  obtain ⟨htype, hsignature, hquery⟩ := parse_error_atFirstImpossible
  have hdigit : TypeExpr.parse "array[,3] int" =
      .error { text := "array[,3] int", offset := 7, expected := .dimensions, found := some (.illegal 51) } := by
    decide +kernel
  have hempty : Signature.parse "real f(array[] tuple() x)" 2 =
      .error { text := "real f(array[] tuple() x)", offset := 21, expected := .tupleElement,
               found := some .closeParen } := by
    decide +kernel
  have hkeyword : Query.parse "matrix(real vector" =
      .error { text := "matrix(real vector", offset := 12, expected := .parameterName,
               found := some (.ident "vector") } := by
    decide +kernel
  exact ⟨⟨_, hdigit, rfl, htype _ _ hdigit⟩, ⟨_, hempty, rfl, hsignature _ _ _ hempty⟩,
    ⟨_, hkeyword, rfl, hquery _ _ hkeyword⟩⟩

end OverloadDocs
