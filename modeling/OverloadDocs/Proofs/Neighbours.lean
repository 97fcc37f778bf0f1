import Mathlib.Data.List.Chain
import OverloadDocs.Proofs.SignatureReading
import OverloadDocs.Proofs.Words

/-!
Which lexemes stand side by side in the spelling of a declaration. A parenthesis follows the name of the
function or the word of tuples and nothing else, and that word has nothing else behind it. So a word before a
parenthesis is found in the return type or in the list only where a tuple is spelled.
-/

namespace OverloadDocs

open Text

/-- What may stand side by side in the spelling of a type or of a parameter list. Only the word of tuples
stands before an opening parenthesis, nothing else follows that word, and before it stands only what begins
a list, separates its members, or ends the brackets of an array. -/
def Lexeme.Adjacent (l m : Lexeme) : Prop :=
  (m = .openParen ↔ l = .ident "tuple") ∧
    (m = .ident "tuple" → l = .openParen ∨ l = .comma ∨ l = .closeBracket)

/-- Whether the language has the lexeme. -/
def Lexeme.legal : Lexeme → Bool
  | .semicolon | .illegal _ => false
  | _ => true

/-- Lexemes that can be a member of a list. -/
structure Lexeme.IsMember (ls : List Lexeme) : Prop where
  legal : ∀ l ∈ ls, l.legal
  chain : ls.IsChain Lexeme.Adjacent
  head : ∃ name, ls.head? = some (.ident name)
  last : ∃ l ∈ ls.getLast?, l = .closeParen ∨ ∃ name, l = .ident name ∧ name ≠ "tuple"

namespace Lexeme

theorem adjacent_of_ne {l m : Lexeme} (hl : l ≠ .ident "tuple") (hm : m ≠ .openParen)
    (hm' : m ≠ .ident "tuple") : Adjacent l m :=
  ⟨iff_of_false hm hl, fun h => absurd h hm'⟩

theorem adjacent_ident {l : Lexeme} (h : l = .openParen ∨ l = .comma ∨ l = .closeBracket)
    (name : String) : Adjacent l (.ident name) := by
  refine ⟨iff_of_false (by simp) ?_, fun _ => h⟩
  rintro rfl
  simp at h

theorem IsMember.last_ne {ls : List Lexeme} (h : IsMember ls) :
    ∀ l ∈ ls.getLast?, l ≠ .ident "tuple" := by
  obtain ⟨last, hlast, hend⟩ := h.last
  intro l hl
  rw [Option.mem_unique hl hlast]
  rcases hend with rfl | ⟨name, rfl, hname⟩
  · decide
  · simpa using hname

/-- A member between what begins or separates members and what follows it. -/
theorem IsMember.chain_append {ls : List Lexeme} (h : IsMember ls) {l : Lexeme}
    (hl : l = .openParen ∨ l = .comma ∨ l = .closeBracket) {m : Lexeme} (hm : m ≠ .openParen)
    (hm' : m ≠ .ident "tuple") {rest : List Lexeme} (hrest : (m :: rest).IsChain Adjacent) :
    (l :: (ls ++ m :: rest)).IsChain Adjacent := by
  obtain ⟨name, hhead⟩ := h.head
  refine List.isChain_cons.mpr ⟨?_, List.isChain_append.mpr ⟨h.chain, hrest, ?_⟩⟩
  · intro k hk
    rw [List.head?_append, hhead] at hk
    cases hk
    exact adjacent_ident hl name
  · rintro k hk _ ⟨⟩
    exact adjacent_of_ne (h.last_ne k hk) hm hm'

/-- A list with its closing parenthesis, after its opening one or after a comma. -/
theorem chain_members {members : List (List Lexeme)} (h : ∀ ls ∈ members, IsMember ls) {l : Lexeme}
    (hl : l = .openParen ∨ l = .comma) :
    (l :: ([Lexeme.comma].intercalate members ++ [.closeParen])).IsChain Adjacent := by
  induction members generalizing l with
  | nil =>
      rcases hl with rfl | rfl <;> simp [Adjacent]
  | cons ls members ih =>
      obtain ⟨hls, hrest⟩ := List.forall_mem_cons.mp h
      have hl' : l = .openParen ∨ l = .comma ∨ l = .closeBracket := hl.imp_right .inl
      cases members with
      | nil =>
          rw [List.intercalate_singleton]
          exact hls.chain_append hl' (m := .closeParen) (by decide) (by decide) (.singleton _)
      | cons next members =>
          rw [List.intercalate_cons_cons, List.append_assoc, List.append_assoc,
            List.singleton_append]
          exact hls.chain_append hl' (m := .comma) (by decide) (by decide) (ih hrest (.inr rfl))

theorem legal_members {members : List (List Lexeme)} (h : ∀ ls ∈ members, IsMember ls) :
    ∀ l ∈ [Lexeme.comma].intercalate members ++ [.closeParen], l.legal := by
  intro l hl
  rcases List.mem_append.mp hl with hl | hl
  · obtain rfl | ⟨ls, hls, hmem⟩ := mem_intercalate hl
    · rfl
    · exact (h ls hls).legal l hmem
  · rw [List.mem_singleton.mp hl]
    rfl

theorem chain_commas {ls : List Lexeme} (h : (Lexeme.closeBracket :: ls).IsChain Adjacent) (n : Nat)
    {l : Lexeme} (hl : l ≠ .ident "tuple") :
    (l :: (List.replicate n .comma ++ .closeBracket :: ls)).IsChain Adjacent := by
  induction n generalizing l with
  | zero => exact .cons_cons (adjacent_of_ne hl (by decide) (by decide)) h
  | succ n ih => exact .cons_cons (adjacent_of_ne hl (by decide) (by decide)) (ih (by decide))

end Lexeme

open Lexeme

theorem TypeExpr.isMember_lexemes {t : TypeExpr} (ht : t.Valid) : IsMember t.lexemes := by
  induction t with
  | missing => exact absurd ht not_valid_missing
  | primitive name =>
      obtain ⟨-, hword⟩ := valid_primitive.mp ht
      refine ⟨by simp [lexemes, legal], .singleton _, ⟨name, rfl⟩, _, rfl, .inr ⟨name, rfl, ?_⟩⟩
      rintro rfl
      cases hword
  | array dims elem ih =>
      obtain ⟨hlegal, hchain, ⟨name, hhead⟩, last, hlast, hend⟩ := ih (valid_array.mp ht).2
      refine ⟨?_, ?_, ⟨"array", rfl⟩, last, ?_, hend⟩
      · intro l hl
        simp only [lexemes, List.cons_append, List.mem_cons, List.mem_append, List.mem_replicate] at hl
        rcases hl with rfl | rfl | ⟨-, rfl⟩ | rfl | hl
        all_goals first | rfl | exact hlegal l hl
      · refine .cons_cons (adjacent_of_ne (by decide) (by decide) (by decide))
          (chain_commas ?_ _ (by decide))
        refine List.isChain_cons.mpr ⟨?_, hchain⟩
        intro k hk
        rw [hhead] at hk
        cases hk
        exact adjacent_ident (.inr (.inr rfl)) name
      · rw [Option.mem_def] at hlast ⊢
        simp [lexemes, List.getLast?_cons, hlast]
  | vector => exact ⟨by simp [lexemes, legal], .singleton _, ⟨_, rfl⟩, _, rfl, .inr ⟨_, rfl, by decide⟩⟩
  | rowVector => exact ⟨by simp [lexemes, legal], .singleton _, ⟨_, rfl⟩, _, rfl, .inr ⟨_, rfl, by decide⟩⟩
  | matrix => exact ⟨by simp [lexemes, legal], .singleton _, ⟨_, rfl⟩, _, rfl, .inr ⟨_, rfl, by decide⟩⟩
  | tuple elems ih =>
      obtain ⟨-, helems⟩ := valid_tuple.mp ht
      have hmembers : ∀ ls ∈ lexemesOfEach elems, IsMember ls := by
        rw [lexemesOfEach_eq_map]
        intro ls hls
        obtain ⟨t, hmem, rfl⟩ := List.mem_map.mp hls
        exact ih t hmem (helems t hmem)
      refine ⟨?_, ?_, ⟨"tuple", rfl⟩, .closeParen, by simp [lexemes, List.getLast?_cons], .inl rfl⟩
      · exact List.forall_mem_cons.mpr ⟨rfl, List.forall_mem_cons.mpr ⟨rfl, legal_members hmembers⟩⟩
      · exact .cons_cons ⟨iff_of_true rfl rfl, fun h => absurd h (by decide)⟩
          (chain_members hmembers (.inl rfl))

theorem Parameter.isMember_lexemes {p : Parameter} (htype : p.type.Valid)
    (hname : p.name = "" ∨ Signature.IsName p.name) : IsMember p.lexemes := by
  have hmember := TypeExpr.isMember_lexemes htype
  rw [Parameter.lexemes]
  by_cases hempty : p.name = ""
  · rwa [if_pos hempty, List.append_nil]
  · have hne : p.name ≠ "tuple" := by
      intro h
      have hword := (hname.resolve_left hempty).2
      rw [h] at hword
      cases hword
    have hident : Lexeme.ident p.name ≠ .ident "tuple" := by simpa using hne
    obtain ⟨first, hhead⟩ := hmember.head
    rw [if_neg hempty]
    refine ⟨?_, List.isChain_append.mpr ⟨hmember.chain, .singleton _, ?_⟩, ⟨first, ?_⟩,
      .ident p.name, by simp, .inr ⟨_, rfl, hne⟩⟩
    · intro l hl
      rcases List.mem_append.mp hl with hl | hl
      · exact hmember.legal l hl
      · rw [List.mem_singleton.mp hl]
        rfl
    · rintro k hk _ ⟨⟩
      exact adjacent_of_ne (hmember.last_ne k hk) (by simp) hident
    · simp [hhead]

namespace Signature

theorem WellFormed.isMember_params {s : Signature} (hs : s.WellFormed) :
    ∀ ls ∈ s.params.map Parameter.lexemes, IsMember ls := by
  intro ls hls
  obtain ⟨p, hp, rfl⟩ := List.mem_map.mp hls
  exact Parameter.isMember_lexemes (hs.paramTypes p hp) (hs.paramNames p hp)

theorem WellFormed.legal_lexemes {s : Signature} (hs : s.WellFormed) :
    ∀ l ∈ s.lexemes, l.legal := by
  rw [lexemes_eq]
  intro l hl
  rcases List.mem_append.mp hl with hl | hl
  · exact (TypeExpr.isMember_lexemes hs.result).legal l hl
  · rcases List.mem_cons.mp hl with rfl | hl
    · rfl
    · rcases List.mem_cons.mp hl with rfl | hl
      · rfl
      · exact legal_members hs.isMember_params l hl

/-- A declaration begins with a word, and a bracket, a parenthesis or another word follows it. -/
theorem WellFormed.lexemes_eq_cons {s : Signature} (hs : s.WellFormed) :
    ∃ word l ls, s.lexemes = .ident word :: l :: ls ∧
      (l = .openBracket ∨ l = .openParen ∨ ∃ name, l = .ident name) := by
  have hresult := hs.result
  rw [lexemes]
  cases htype : s.returnType with
  | missing => exact absurd (htype ▸ hresult) TypeExpr.not_valid_missing
  | array dims elem => exact ⟨_, _, _, rfl, .inl rfl⟩
  | tuple elems => exact ⟨_, _, _, rfl, .inr (.inl rfl)⟩
  | primitive name => exact ⟨_, _, _, rfl, .inr (.inr ⟨_, rfl⟩)⟩
  | vector => exact ⟨_, _, _, rfl, .inr (.inr ⟨_, rfl⟩)⟩
  | rowVector => exact ⟨_, _, _, rfl, .inr (.inr ⟨_, rfl⟩)⟩
  | matrix => exact ⟨_, _, _, rfl, .inr (.inr ⟨_, rfl⟩)⟩

theorem lexemes_getLast? (s : Signature) : s.lexemes.getLast? = some .closeParen := by
  simp [lexemes, List.getLast?_cons]

/-- Where a word and another lexeme stand side by side in the spelling of a declaration, they are the
name of the function and its parenthesis, or neighbours in the return type or the list. -/
theorem lexemes_neighbours {s : Signature} (hs : s.WellFormed) {front back : List Lexeme}
    {name : String} {l : Lexeme} (h : s.lexemes = front ++ .ident name :: l :: back) :
    (front = s.returnType.lexemes ∧ name = s.name ∧ l = .openParen) ∨
      Adjacent (.ident name) l ∧ ∀ k ∈ front.getLast?, Adjacent k (.ident name) := by
  have hresult := TypeExpr.isMember_lexemes hs.result
  have hname : Lexeme.ident s.name ≠ .ident "tuple" := by
    intro hname
    have hword := hs.name.2
    rw [Lexeme.ident.inj hname] at hword
    cases hword
  have hfirst : (s.returnType.lexemes ++ [Lexeme.ident s.name]).IsChain Adjacent := by
    refine List.isChain_append.mpr ⟨hresult.chain, .singleton _, ?_⟩
    rintro k hk _ ⟨⟩
    exact adjacent_of_ne (hresult.last_ne k hk) (by simp) hname
  have hlist : (Grammar.listLexemes s.params).IsChain Adjacent :=
    chain_members hs.isMember_params (.inl rfl)
  have hsplit : (s.returnType.lexemes ++ [.ident s.name]) ++ Grammar.listLexemes s.params =
      front ++ .ident name :: l :: back := by
    rw [← h, lexemes_eq, List.append_assoc, List.singleton_append]
  rcases List.append_eq_append_iff.mp hsplit with ⟨middle, rfl, hmiddle⟩ | ⟨middle, hfront, hmiddle⟩
  · -- both stand in the list
    cases middle with
    | nil => cases hmiddle
    | cons k middle =>
        rw [hmiddle] at hlist
        obtain ⟨-, hrest, hleft⟩ := List.isChain_append.mp hlist
        refine .inr ⟨(List.isChain_cons_cons.mp hrest).1, fun j hj => hleft j ?_ _ rfl⟩
        rwa [List.getLast?_append_of_ne_nil _ (List.cons_ne_nil _ _)] at hj
  · cases middle with
    | nil =>
        rw [List.nil_append] at hmiddle
        cases hmiddle
    | cons k middle =>
        cases middle with
        | nil =>
            cases hmiddle
            obtain ⟨hreturn, hident⟩ := List.append_inj' hfront rfl
            exact .inl ⟨hreturn.symm, by simpa using hident.symm, rfl⟩
        | cons m middle =>
            -- both stand in the return type
            cases hmiddle
            rw [hfront] at hfirst
            obtain ⟨-, hrest, hleft⟩ := List.isChain_append.mp hfirst
            exact .inr ⟨(List.isChain_cons_cons.mp hrest).1, fun j hj => hleft j hj _ rfl⟩

end Signature

end OverloadDocs
