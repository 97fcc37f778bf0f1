import OverloadDocs.Proofs.SignatureReading

/-!
Where the reading of a type breaks off. A reader gives up at the first token that nothing it takes has there: the
tokens before it can be completed, and nothing is taken from tokens that begin with them and go on with that
token, or end where the input ends. This is carried from one reader to the next, since what a reader takes is
spelled in one way and the next one begins where it ends.
-/

namespace OverloadDocs

open Text

namespace Grammar

/-! ## What is left -/

/-- Tokens that begin with some lexemes and end with a rest. -/
structure Leaves (input : List Token) (taken : List Lexeme) (rest : List Token) : Prop where
  suffix : rest <:+ input
  spelled : Spelled input taken rest

theorem Leaves.refl (input : List Token) : Leaves input [] input := ⟨List.suffix_refl input, Spelled.refl input⟩

theorem Leaves.cons {t : Token} {input rest : List Token} {taken : List Lexeme} (h : Leaves input taken rest) :
    Leaves (t :: input) (t.lexeme :: taken) rest :=
  ⟨h.suffix.trans (List.suffix_cons t input), h.spelled.cons⟩

theorem Leaves.append {input mid rest : List Token} {taken taken' : List Lexeme} (h : Leaves input taken mid)
    (h' : Leaves mid taken' rest) : Leaves input (taken ++ taken') rest :=
  ⟨h'.suffix.trans h.suffix, h.spelled.append h'.spelled⟩

theorem suffix_of_takes_dimensions {input rest : List Token} {dims : Int}
    (h : Takes readDimensions input dims rest) : rest <:+ input := by
  obtain ⟨hlength, h⟩ := h
  unfold readDimensions at h
  split at h
  · rename_i offset ts
    split at h
    · rename_i offset' rest' hrest
      cases h
      have hdrop := List.dropWhile_suffix isComma (l := ts)
      rw [hrest] at hdrop
      exact ((List.suffix_cons _ rest).trans hdrop).trans (List.suffix_cons _ ts)
    · cases h
  · cases h

theorem suffix_of_takes_elements {input rest : List Token} {elems : List TypeExpr}
    (htypes : ∀ {input' rest' : List Token} {t : TypeExpr}, input'.length ≤ input.length →
      Takes readType input' t rest' → rest' <:+ input')
    (h : Takes readElements input elems rest) : rest <:+ input := by
  induction elems generalizing input with
  | nil =>
      obtain ⟨t, mid, -, ⟨_, _, _, -, -, h⟩ | ⟨_, -, h⟩⟩ := takes_elements.mp h <;> cases h
  | cons t elems ih =>
      obtain ⟨t', mid, ht, hend⟩ := takes_elements.mp h
      have hmid := htypes (Nat.le_refl _) ht
      rcases hend with ⟨offset, ts, more, rfl, hmore, heq⟩ | ⟨offset, rfl, -⟩
      · cases heq
        have hts := (List.suffix_cons _ ts).trans hmid
        exact (ih (fun hle => htypes (Nat.le_trans hle hts.length_le)) hmore).trans hts
      · exact (List.suffix_cons _ rest).trans hmid

theorem suffix_of_takes_type {input rest : List Token} {t : TypeExpr} (h : Takes readType input t rest) :
    rest <:+ input := by
  induction hlength : input.length using Nat.strongRecOn generalizing input rest t with
  | ind n ih =>
      obtain ⟨name, offset, ts, rfl⟩ := ident_of_takes_type h
      simp only [List.length_cons] at hlength
      refine List.IsSuffix.trans ?_ (List.suffix_cons _ ts)
      by_cases harray : name = "array"
      · subst harray
        obtain ⟨dims, mid, elem, hdims, helem, -⟩ := takes_array.mp h
        have hmid := hdims.shorter
        exact (ih _ (by omega) helem rfl).trans (suffix_of_takes_dimensions hdims)
      by_cases htuple : name = "tuple"
      · subst htuple
        obtain ⟨offset', us, elems, rfl, -, helems, -⟩ := takes_tuple.mp h
        simp only [List.length_cons] at hlength
        refine List.IsSuffix.trans ?_ (List.suffix_cons _ us)
        exact suffix_of_takes_elements (fun hle ht => ih _ (by omega) ht rfl) helems
      obtain ⟨-, rfl⟩ := (takes_word harray htuple).mp h
      exact List.suffix_refl rest

theorem leaves_dimensions {input rest : List Token} {dims : Int} (h : Takes readDimensions input dims rest) :
    ∃ n : Nat, Leaves input (.openBracket :: List.replicate n .comma ++ [.closeBracket]) rest := by
  obtain ⟨n, -, hspelled⟩ := readDimensions_sound h
  exact ⟨n, suffix_of_takes_dimensions h, hspelled⟩

theorem leaves_type {input rest : List Token} {t : TypeExpr} (hcut : WordsCut input)
    (h : Takes readType input t rest) : t.Valid ∧ Leaves input t.lexemes rest := by
  obtain ⟨hvalid, hspelled⟩ := type_sound hcut h
  exact ⟨hvalid, suffix_of_takes_type h, hspelled⟩

/-! ## Breaking off -/

def next? (input : List Token) : Option Lexeme := input.head?.map (·.lexeme)

/-- Tokens that begin with some lexemes and go on with the next one, or end where there is none. -/
def GoesOn (input : List Token) (taken : List Lexeme) (next : Option Lexeme) : Prop :=
  ∃ ls, input.map (·.lexeme) = taken ++ ls ∧ ls.head? = next

/-- Reading breaks off at a rest. What was taken before it can be completed, and all tokens are refused that begin
with it and go on as the rest does. -/
def BreaksOff (complete : List Lexeme → Prop) (refused : List Token → Prop) (input rest : List Token) : Prop :=
  ∃ taken, Leaves input taken rest ∧ (∃ more, complete (taken ++ more)) ∧
    ∀ input', GoesOn input' taken (next? rest) → refused input'

theorem head?_map_lexeme (input : List Token) : (input.map (·.lexeme)).head? = next? input :=
  List.head?_map

section

variable {complete complete' : List Lexeme → Prop} {refused refused' : List Token → Prop}
  {input mid rest : List Token} {taken : List Lexeme}

/-- Behind what one reader takes, reading breaks off where the next reader does. -/
theorem BreaksOff.after (h : BreaksOff complete' refused' mid rest) (hleaves : Leaves input taken mid)
    (hcomplete : ∀ ls, complete' ls → ∃ more, complete (taken ++ ls ++ more))
    (hrefused : ∀ input' ls, input'.map (·.lexeme) = taken ++ ls →
      ∃ mid', mid'.map (·.lexeme) = ls ∧ (refused' mid' → refused input')) :
    BreaksOff complete refused input rest := by
  obtain ⟨taken', hleaves', ⟨more, hmore⟩, hdead⟩ := h
  obtain ⟨more', hmore'⟩ := hcomplete _ hmore
  refine ⟨taken ++ taken', hleaves.append hleaves', ⟨more ++ more', ?_⟩, ?_⟩
  · simpa only [List.append_assoc] using hmore'
  · rintro input' ⟨ls, hinput, hnext⟩
    rw [List.append_assoc] at hinput
    obtain ⟨mid', hmid, hrefuse⟩ := hrefused input' _ hinput
    exact hrefuse (hdead mid' ⟨ls, hmid, hnext⟩)

/-- Reading breaks off at once where nothing can begin as the input does. -/
theorem BreaksOff.here {ls : List Lexeme} (hcomplete : complete ls)
    (hrefused : ∀ input', next? input' = next? input → refused input') : BreaksOff complete refused input input := by
  refine ⟨[], Leaves.refl input, ⟨ls, hcomplete⟩, ?_⟩
  rintro input' ⟨ls', hinput, hnext⟩
  apply hrefused
  rw [← head?_map_lexeme, hinput]
  exact hnext

end

/-- A reader gives up, and leaves a rest. -/
def Fails {α : Type} (read : (input : List Token) → Except Failure (Reading α input)) (input rest : List Token) :
    Prop :=
  ∃ expected, read input = .error ⟨expected, rest⟩

/-- A reader takes nothing off the front of some tokens. -/
def Refuses {α : Type} (read : (input : List Token) → Except Failure (Reading α input)) (input : List Token) :
    Prop :=
  ∀ value rest, ¬ Takes read input value rest

/-! ## Dimensions -/

/-- The spellings of the brackets of an array. -/
def SpellsDimensions (ls : List Lexeme) : Prop :=
  ∃ n, ls = .openBracket :: List.replicate n .comma ++ [.closeBracket]

theorem next?_of_takes_dimensions {input rest : List Token} {dims : Int} (h : Takes readDimensions input dims rest) :
    next? input = some .openBracket := by
  obtain ⟨n, -, hspelled⟩ := readDimensions_sound h
  rw [← head?_map_lexeme, hspelled]
  rfl

theorem fails_dimensions {input rest : List Token} (h : Fails readDimensions input rest) :
    (next? input ≠ some .openBracket ∧ rest = input) ∨
      ∃ offset ts, input = ⟨.openBracket, offset⟩ :: ts ∧ rest = ts.dropWhile isComma ∧
        next? rest ≠ some .closeBracket := by
  obtain ⟨expected, h⟩ := h
  unfold readDimensions at h
  split at h
  · rename_i offset ts
    split at h
    · cases h
    · rename_i hnot
      cases h
      refine .inr ⟨offset, ts, rfl, rfl, fun hnext => ?_⟩
      cases hrest : ts.dropWhile isComma with
      | nil =>
          rw [hrest] at hnext
          cases hnext
      | cons t us =>
          rw [hrest] at hnext
          obtain ⟨lexeme, offset'⟩ := t
          obtain rfl : lexeme = .closeBracket := Option.some.inj hnext
          exact hnot offset' us hrest
  · rename_i hnot
    cases h
    refine .inl ⟨fun hnext => ?_, rfl⟩
    cases input with
    | nil => cases hnext
    | cons t ts =>
        obtain ⟨lexeme, offset⟩ := t
        obtain rfl : lexeme = .openBracket := Option.some.inj hnext
        exact hnot offset ts rfl

theorem next?_dropWhile_isComma (ts : List Token) : next? (ts.dropWhile isComma) ≠ some .comma := by
  intro h
  obtain ⟨t, ht, hcomma⟩ := Option.map_eq_some_iff.mp h
  have hnot := List.head?_dropWhile_not isComma ts
  rw [ht] at hnot
  exact absurd (decide_eq_true hcomma) (by simpa [isComma] using hnot)

/-- Behind commas nothing but a bracket ends the dimensions. -/
theorem refuses_dimensions {input : List Token} {n : Nat} {ls : List Lexeme}
    (hinput : input.map (·.lexeme) = .openBracket :: List.replicate n .comma ++ ls)
    (hcomma : ls.head? ≠ some .comma) (hclose : ls.head? ≠ some .closeBracket) : Refuses readDimensions input := by
  intro dims rest htakes
  obtain ⟨m, -, hspelled⟩ := readDimensions_sound htakes
  rw [List.cons_append] at hinput
  obtain ⟨offset, ts, rfl, hts⟩ := map_lexeme_eq_cons hinput
  rw [Spelled, hinput] at hspelled
  simp only [List.cons_append, List.append_assoc, List.cons.injEq, true_and, List.nil_append] at hspelled
  cases ls with
  | nil =>
      have hmem : Lexeme.closeBracket ∈ List.replicate n Lexeme.comma ++ [] := by
        rw [hspelled]
        exact List.mem_append_right _ List.mem_cons_self
      rw [List.append_nil] at hmem
      cases List.eq_of_mem_replicate hmem
  | cons l ls =>
      have hl : l ≠ .comma := fun h => hcomma (congrArg some h)
      obtain ⟨-, offset', us, hdrop, -⟩ := commas_complete hl hts
      obtain ⟨-, offset'', us', hdrop', -⟩ := commas_complete (by decide) (hts.trans hspelled)
      cases hdrop.symm.trans hdrop'
      exact hclose rfl

theorem dimensions_breaksOff {input rest : List Token} (h : Fails readDimensions input rest) :
    BreaksOff SpellsDimensions (Refuses readDimensions) input rest := by
  rcases fails_dimensions h with ⟨hopen, rfl⟩ | ⟨offset, ts, rfl, rfl, hclose⟩
  · refine .here ⟨0, rfl⟩ fun input' hnext dims rest' htakes => hopen ?_
    rw [← hnext]
    exact next?_of_takes_dimensions htakes
  · have hleaves : Leaves ts _ _ := ⟨List.dropWhile_suffix isComma, commas_spelled ts⟩
    refine ⟨_, hleaves.cons, ⟨[.closeBracket], _, rfl⟩, ?_⟩
    rintro input' ⟨ls, hinput, hnext⟩
    refine refuses_dimensions hinput ?_ ?_
    · rw [hnext]
      exact next?_dropWhile_isComma ts
    · rw [hnext]
      exact hclose

/-! ## Types -/

def SpellsType (ls : List Lexeme) : Prop := ∃ t : TypeExpr, t.Valid ∧ t.lexemes = ls

/-- The spellings of the elements of a tuple, with the parenthesis behind them. -/
def SpellsElements (ls : List Lexeme) : Prop :=
  ∃ elems, (TypeExpr.tuple elems).Valid ∧ [Lexeme.comma].intercalate (elems.map (·.lexemes)) ++ [.closeParen] = ls

theorem spellsType_int : SpellsType [.ident "int"] := ⟨.primitive "int", by decide, rfl⟩

theorem SpellsType.array {ls dims : List Lexeme} (hdims : SpellsDimensions dims) (h : SpellsType ls) :
    SpellsType (.ident "array" :: dims ++ ls) := by
  obtain ⟨n, rfl⟩ := hdims
  obtain ⟨t, ht, rfl⟩ := h
  refine ⟨.array (n + 1) t, TypeExpr.valid_array.mpr ⟨by omega, ht⟩, ?_⟩
  simp [TypeExpr.lexemes]

theorem SpellsElements.tuple {ls : List Lexeme} (h : SpellsElements ls) :
    SpellsType (.ident "tuple" :: .openParen :: ls) := by
  obtain ⟨elems, hvalid, rfl⟩ := h
  exact ⟨.tuple elems, hvalid, by simp [TypeExpr.lexemes, TypeExpr.lexemesOfEach_eq_map]⟩

theorem SpellsType.last {ls : List Lexeme} (h : SpellsType ls) : SpellsElements (ls ++ [.closeParen]) := by
  obtain ⟨t, ht, rfl⟩ := h
  refine ⟨[t], TypeExpr.valid_tuple.mpr ⟨List.cons_ne_nil _ _, List.forall_mem_singleton.mpr ht⟩, ?_⟩
  rw [List.map_singleton, List.intercalate_singleton]

theorem SpellsElements.cons {t : TypeExpr} (ht : t.Valid) {ls : List Lexeme} (h : SpellsElements ls) :
    SpellsElements (t.lexemes ++ [.comma] ++ ls) := by
  obtain ⟨elems, hvalid, rfl⟩ := h
  obtain ⟨hne, hall⟩ := TypeExpr.valid_tuple.mp hvalid
  refine ⟨t :: elems, TypeExpr.valid_tuple.mpr ⟨List.cons_ne_nil _ _, List.forall_mem_cons.mpr ⟨ht, hall⟩⟩, ?_⟩
  rw [List.map_cons, List.intercalate_cons_of_ne_nil (by simpa using hne)]
  simp

theorem next?_of_takes_type {input rest : List Token} {t : TypeExpr} (h : Takes readType input t rest) :
    ∃ name, next? input = some (.ident name) := by
  obtain ⟨name, offset, ts, rfl⟩ := ident_of_takes_type h
  exact ⟨name, rfl⟩

/-- Where the reading of a type can break off. -/
inductive TypeBreaks : List Token → List Token → Prop
  | wordless {input : List Token} (h : ∀ name, next? input ≠ some (.ident name)) : TypeBreaks input input
  | dimensions (offset : Nat) {ts rest : List Token} (h : Fails readDimensions ts rest) :
      TypeBreaks (⟨.ident "array", offset⟩ :: ts) rest
  | element (offset : Nat) {ts mid rest : List Token} {dims : Int} (hdims : Takes readDimensions ts dims mid)
      (h : Fails readType mid rest) : TypeBreaks (⟨.ident "array", offset⟩ :: ts) rest
  | unopened (offset : Nat) {ts : List Token} (h : next? ts ≠ some .openParen) :
      TypeBreaks (⟨.ident "tuple", offset⟩ :: ts) ts
  | empty (offset offset' : Nat) {us : List Token} (h : next? us = some .closeParen) :
      TypeBreaks (⟨.ident "tuple", offset⟩ :: ⟨.openParen, offset'⟩ :: us) us
  | elements (offset offset' : Nat) {us rest : List Token} (h : Fails readElements us rest) :
      TypeBreaks (⟨.ident "tuple", offset⟩ :: ⟨.openParen, offset'⟩ :: us) rest

theorem next?_eq_some {input : List Token} {l : Lexeme} (h : next? input = some l) :
    ∃ offset ts, input = ⟨l, offset⟩ :: ts := by
  cases input with
  | nil => cases h
  | cons t ts =>
      obtain ⟨lexeme, offset⟩ := t
      obtain rfl : lexeme = l := Option.some.inj h
      exact ⟨offset, ts, rfl⟩

theorem closes_iff {input : List Token} : closes input = true ↔ next? input = some .closeParen := by
  constructor
  · intro h
    unfold closes at h
    split at h
    · rfl
    · cases h
  · intro h
    obtain ⟨offset, ts, rfl⟩ := next?_eq_some h
    rfl

theorem breaks_of_fails_type {input rest : List Token} (h : Fails readType input rest) : TypeBreaks input rest := by
  obtain ⟨expected, h⟩ := h
  rw [readType.eq_def] at h
  split at h
  · rename_i name offset ts
    split at h
    · rename_i hname
      subst hname
      split at h
      · rename_i hdims
        cases h
        exact .dimensions offset ⟨_, hdims⟩
      · rename_i hdims
        split at h
        · rename_i helem
          cases h
          exact .element offset ⟨_, hdims⟩ ⟨_, helem⟩
        · cases h
    · split at h
      · rename_i hname
        subst hname
        split at h
        · rename_i offset' us
          split at h
          · rename_i hcloses
            cases h
            exact .empty offset offset' (closes_iff.mp hcloses)
          · split at h
            · rename_i helems
              cases h
              exact .elements offset offset' ⟨_, helems⟩
            · cases h
        · rename_i hopen
          cases h
          refine .unopened offset fun hnext => ?_
          obtain ⟨offset', us, rfl⟩ := next?_eq_some hnext
          exact hopen offset' us rfl
      · -- any other word is a type by itself
        repeat' split at h
        all_goals cases h
  · rename_i hword
    cases h
    refine .wordless fun name hnext => ?_
    obtain ⟨offset, ts, rfl⟩ := next?_eq_some hnext
    exact hword name offset ts rfl

theorem fails_elements {input rest : List Token} (h : Fails readElements input rest) :
    Fails readType input rest ∨ ∃ t mid, Takes readType input t mid ∧
      ((∃ offset ts, mid = ⟨.comma, offset⟩ :: ts ∧ Fails readElements ts rest) ∨
        (next? mid ≠ some .comma ∧ next? mid ≠ some .closeParen ∧ rest = mid)) := by
  obtain ⟨expected, h⟩ := h
  rw [readElements] at h
  split at h
  · rename_i htype
    cases h
    exact .inl ⟨_, htype⟩
  · rename_i t mid hmid htype
    refine .inr ⟨t, mid, ⟨_, htype⟩, ?_⟩
    split at h
    · rename_i offset ts _
      split at h
      · rename_i hmore
        cases h
        exact .inl ⟨offset, ts, rfl, _, hmore⟩
      · cases h
    · cases h
    · rename_i hcomma hclose
      cases h
      refine .inr ⟨fun hnext => ?_, fun hnext => ?_, rfl⟩
      · obtain ⟨offset, ts, rfl⟩ := next?_eq_some hnext
        exact hcomma offset ts _ rfl HEq.rfl
      · obtain ⟨offset, ts, rfl⟩ := next?_eq_some hnext
        exact hclose offset ts _ rfl HEq.rfl

theorem Takes.not_refuses {α : Type} {read : (input : List Token) → Except Failure (Reading α input)}
    {input rest : List Token} {value : α} (h : Takes read input value rest) : ¬ Refuses read input :=
  fun hrefuses => hrefuses value rest h

theorem refuses_elements {input : List Token} {t : TypeExpr} (ht : t.Valid) {ls : List Lexeme}
    (hinput : input.map (·.lexeme) = t.lexemes ++ ls) (hcomma : ls.head? ≠ some .comma)
    (hclose : ls.head? ≠ some .closeParen) : Refuses readElements input := by
  intro elems rest htakes
  obtain ⟨mid, hmid, htype⟩ := type_complete ht hinput
  obtain ⟨t', mid', htype', hend⟩ := takes_elements.mp htakes
  obtain ⟨-, rfl⟩ := htype.unique htype'
  rcases hend with ⟨offset, ts, more, rfl, -, -⟩ | ⟨offset, rfl, -⟩
  · exact hcomma (hmid ▸ rfl)
  · exact hclose (hmid ▸ rfl)

theorem elements_breaksOff {n : Nat}
    (htypes : ∀ {input rest : List Token}, input.length ≤ n → WordsCut input → Fails readType input rest →
      BreaksOff SpellsType (Refuses readType) input rest)
    {input rest : List Token} (hn : input.length ≤ n) (hcut : WordsCut input) (h : Fails readElements input rest) :
    BreaksOff SpellsElements (Refuses readElements) input rest := by
  induction hlength : input.length using Nat.strongRecOn generalizing input with
  | ind k ih =>
      rcases fails_elements h with htype | ⟨t, mid, htype, hmid⟩
      · refine (htypes hn hcut htype).after (Leaves.refl input) (fun ls hls => ⟨_, hls.last⟩) ?_
        refine fun input' ls hinput => ⟨input', hinput, fun hrefuses elems rest' htakes => ?_⟩
        obtain ⟨t, mid, ht, -⟩ := takes_elements.mp htakes
        exact ht.not_refuses hrefuses
      · obtain ⟨hvalid, hleaves⟩ := leaves_type hcut htype
        have hshorter := htype.shorter
        rcases hmid with ⟨offset, ts, rfl, hmore⟩ | ⟨hcomma, hclose, rfl⟩
        · simp only [List.length_cons] at hshorter
          have hbreaks := ih ts.length (by omega) (by omega) (hcut.rest hleaves.spelled).tail hmore rfl
          refine hbreaks.after (hleaves.append (Leaves.refl ts).cons)
            (fun ls hls => ⟨[], by simpa using hls.cons hvalid⟩) fun input' ls hinput => ?_
          rw [List.append_assoc] at hinput
          obtain ⟨mid', hmid', ht⟩ := type_complete hvalid hinput
          obtain ⟨offset', ts', rfl, hts'⟩ := map_lexeme_eq_cons hmid'
          refine ⟨ts', hts', fun hrefuses elems rest' htakes => ?_⟩
          obtain ⟨t', mid'', ht', hend⟩ := takes_elements.mp htakes
          obtain ⟨-, rfl⟩ := ht.unique ht'
          rcases hend with ⟨_, _, more, heq, helems, -⟩ | ⟨_, heq, -⟩
          · cases heq
            exact helems.not_refuses hrefuses
          · cases heq
        · refine ⟨_, hleaves, ⟨_, SpellsType.last ⟨t, hvalid, rfl⟩⟩, ?_⟩
          rintro input' ⟨ls, hinput, hnext⟩
          exact refuses_elements hvalid hinput (hnext ▸ hcomma) (hnext ▸ hclose)

theorem type_breaksOff {input rest : List Token} (hcut : WordsCut input) (h : Fails readType input rest) :
    BreaksOff SpellsType (Refuses readType) input rest := by
  -- On the length, as for what is read: elements are read behind one another.
  induction hlength : input.length using Nat.strongRecOn generalizing input rest with
  | ind n ih =>
      cases breaks_of_fails_type h with
      | wordless hword =>
          refine .here spellsType_int fun input' hnext t rest htakes => ?_
          obtain ⟨name, hname⟩ := next?_of_takes_type htakes
          exact hword name (hnext.symm.trans hname)
      | @dimensions offset ts _ hdims =>
          refine (dimensions_breaksOff hdims).after (Leaves.refl ts).cons
            (fun ls hls => ⟨[.ident "int"], spellsType_int.array hls⟩) fun input' ls hinput => ?_
          rw [List.singleton_append] at hinput
          obtain ⟨offset', ts', rfl, hts'⟩ := map_lexeme_eq_cons hinput
          refine ⟨ts', hts', fun hrefuses t rest' htakes => ?_⟩
          obtain ⟨dims, mid, elem, hd, -, -⟩ := takes_array.mp htakes
          exact hd.not_refuses hrefuses
      | @element offset ts mid _ dims hdims helem =>
          obtain ⟨k, hleaves⟩ := leaves_dimensions hdims
          have hmid := hdims.shorter
          simp only [List.length_cons] at hlength
          have hbreaks := ih mid.length (by omega) (hcut.tail.rest hleaves.spelled) helem rfl
          refine hbreaks.after (hleaves.cons (t := ⟨.ident "array", offset⟩))
            (fun ls hls => ⟨[], by simpa using hls.array ⟨k, rfl⟩⟩) fun input' ls hinput => ?_
          rw [List.cons_append] at hinput
          obtain ⟨offset', ts', rfl, hts'⟩ := map_lexeme_eq_cons hinput
          rw [List.append_assoc] at hts'
          obtain ⟨mid', hmid', hd⟩ := readDimensions_complete hts'
          refine ⟨mid', hmid', fun hrefuses t rest' htakes => ?_⟩
          obtain ⟨dims', mid'', elem, hd', he, -⟩ := takes_array.mp htakes
          obtain ⟨-, rfl⟩ := hd.unique hd'
          exact he.not_refuses hrefuses
      | @unopened offset ts hopen =>
          refine ⟨[.ident "tuple"], (Leaves.refl rest).cons, ⟨_, spellsType_int.last.tuple⟩, ?_⟩
          rintro input' ⟨ls, hinput, hnext⟩ t rest' htakes
          rw [List.singleton_append] at hinput
          obtain ⟨offset', ts', rfl, rfl⟩ := map_lexeme_eq_cons hinput
          obtain ⟨offset'', us, elems, rfl, -, -, -⟩ := takes_tuple.mp htakes
          exact hopen hnext.symm
      | @empty offset offset' us hclose =>
          refine ⟨[.ident "tuple", .openParen], (Leaves.refl rest).cons.cons, ⟨_, spellsType_int.last.tuple⟩, ?_⟩
          rintro input' ⟨ls, hinput, hnext⟩ t rest' htakes
          rw [List.cons_append, List.singleton_append] at hinput
          obtain ⟨_, ts', rfl, hts'⟩ := map_lexeme_eq_cons hinput
          obtain ⟨_, us', rfl, rfl⟩ := map_lexeme_eq_cons hts'
          obtain ⟨_, us'', elems, heq, hcloses, -, -⟩ := takes_tuple.mp htakes
          cases heq
          rw [head?_map_lexeme, hclose] at hnext
          exact absurd (closes_iff.mpr hnext) (Bool.eq_false_iff.mp hcloses)
      | @elements offset offset' us _ helems =>
          simp only [List.length_cons] at hlength
          have hbreaks := elements_breaksOff (n := us.length)
            (fun hle hcut' htype => ih _ (by omega) hcut' htype rfl) (Nat.le_refl _) hcut.tail.tail helems
          refine hbreaks.after (Leaves.refl us).cons.cons
            (fun ls hls => ⟨[], by simpa using hls.tuple⟩) fun input' ls hinput => ?_
          rw [List.cons_append, List.singleton_append] at hinput
          obtain ⟨_, ts', rfl, hts'⟩ := map_lexeme_eq_cons hinput
          obtain ⟨_, us', rfl, hus'⟩ := map_lexeme_eq_cons hts'
          refine ⟨us', hus', fun hrefuses t rest' htakes => ?_⟩
          obtain ⟨_, us'', elems, heq, -, he, -⟩ := takes_tuple.mp htakes
          cases heq
          exact he.not_refuses hrefuses

end Grammar

end OverloadDocs
