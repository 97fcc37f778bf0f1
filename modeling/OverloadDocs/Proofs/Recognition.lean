import OverloadDocs.Proofs.Neighbours
import OverloadDocs.Proofs.Scanning
import OverloadDocs.Proofs.Shapes

/-!
Which declarations of the grammar the scanner finds. The grammar cuts a text into tokens, blanks or not,
while the scanner looks for a type, a blank and a name before a parenthesis. A declaration is found when its
return type has at least two characters and a blank after it, and else only where the brackets of an array
and the word of a tuple happen to have a blank between them.
-/

namespace OverloadDocs

open Text Token Lexeme

/-- A character of the language. -/
def InLanguage (c : Char) : Prop :=
  isSpace c ∨ isIdentPart c ∨ c ∈ ['[', ']', '(', ')', ',']

instance (c : Char) : Decidable (InLanguage c) := inferInstanceAs (Decidable (_ ∨ _))

/-- One character that is read as legal lexemes is punctuation of the grammar. -/
theorem symbols_of_legal {c : Char} (h : ∀ l ∈ symbols c, l.legal) :
    ∃ l, symbols c = [l] ∧ (c, l) ∈ [('[', Lexeme.openBracket), (']', .closeBracket), ('(', .openParen),
      (')', .closeParen), (',', .comma)] := by
  obtain ⟨l, hl, hmem⟩ | ⟨byte, bytes, hl⟩ := symbols_cases c
  · have hlegal := h l (hl ▸ List.mem_cons_self)
    refine ⟨l, hl, ?_⟩
    simp only [List.mem_cons, Prod.mk.injEq, List.not_mem_nil, or_false] at hmem ⊢
    rcases hmem with h | h | h | h | h | ⟨-, rfl⟩
    case inr.inr.inr.inr.inr => cases hlegal
    all_goals simp [h]
  · cases h (.illegal byte) (hl ▸ List.mem_cons_self)

theorem inLanguage_of_legal {cs : List Char} (h : ∀ l ∈ lexemesOf cs, l.legal) :
    ∀ c ∈ cs, InLanguage c := by
  induction cs using tokenInduction with
  | nil => simp
  | space c cs hc ih =>
      rw [lexemesOf_space hc] at h
      exact List.forall_mem_cons.mpr ⟨.inl hc, ih h⟩
  | word name rest hname hrest ih =>
      rw [lexemesOf_word hname hrest] at h
      intro c hc
      rcases List.mem_append.mp hc with hc | hc
      · exact .inr (.inl (isIdentPart_of_isIdentifier hname c hc))
      · exact ih (fun l hl => h l (List.mem_cons_of_mem _ hl)) c hc
  | symbol c cs hspace hstart ih =>
      rw [lexemesOf_symbol hspace hstart] at h
      refine List.forall_mem_cons.mpr ⟨?_, ih fun l hl => h l (List.mem_append_right _ hl)⟩
      obtain ⟨l, -, hmem⟩ := symbols_of_legal fun l hl => h l (List.mem_append_left _ hl)
      simp only [List.mem_cons, Prod.mk.injEq, List.not_mem_nil, or_false] at hmem
      rcases hmem with ⟨rfl, rfl⟩ | ⟨rfl, rfl⟩ | ⟨rfl, rfl⟩ | ⟨rfl, rfl⟩ | ⟨rfl, rfl⟩
      all_goals exact .inr (.inr (by decide))

theorem InLanguage.isSpace_of_isBlank {c : Char} (h : InLanguage c) (hblank : isBlank c) :
    isSpace c := by
  rcases h with h | h | h
  · exact h
  · simp [isBlank_of_isIdentPart h] at hblank
  · simp only [List.mem_cons, List.not_mem_nil, or_false] at h
    rcases h with rfl | rfl | rfl | rfl | rfl <;> cases hblank

theorem InLanguage.isPlain {c : Char} (h : InLanguage c) : Source.IsPlain c := by
  intro hc
  simp only [List.mem_cons, List.not_mem_nil, or_false] at hc
  rcases hc with rfl | rfl | rfl | rfl | rfl | rfl <;> exact absurd h (by decide)

theorem isIdentStart_of_lexemesOf {c : Char} {cs : List Char} {name : String} {ls : List Lexeme}
    (hspace : ¬ isSpace c) (h : lexemesOf (c :: cs) = .ident name :: ls) : isIdentStart c := by
  by_contra hstart
  rw [lexemesOf_symbol hspace hstart] at h
  obtain ⟨l, hl, hmem⟩ | ⟨byte, bytes, hl⟩ := symbols_cases c <;> rw [hl] at h <;> cases h
  simp at hmem

namespace Source

/-- The words of a text divide it where the scanner can find a declaration: at least two characters come
first, and they are the return type, or they end with the brackets of an array of tuples. -/
def Recognizable (text : String) (s : Signature) : Prop :=
  ∃ front back, words text.toList = front ++ back ∧ 2 ≤ front.flatten.length ∧
    (front.flatMap lexemesOf = s.returnType.lexemes ∨
      (front.flatMap lexemesOf).getLast? = some .closeBracket ∧
        (back.flatMap lexemesOf).head? = some (.ident "tuple"))

/-- A text that does not end with a blank or with a symbol after which something must follow ends as a
type does. -/
theorem isTypeEnd_of_getLast?_lexemesOf (cs : List Char) {d : Char} (hblank : isBlank d = false)
    (hpart : isTypePart d) (hlast : ∀ l ∈ (lexemesOf (cs ++ [d])).getLast?,
      l ≠ .openBracket ∧ l ≠ .comma ∧ l ≠ .openParen) : isTypeEnd d := by
  simp only [isTypePart, Bool.or_eq_true, beq_iff_eq] at hpart
  rcases hpart with (((hend | hplain) | rfl) | rfl) | rfl
  · exact hend
  · simp [isPlainBlank_of_isBlank hblank] at hplain
  all_goals rw [lexemesOf_concat_symbol (by decide) (by decide)] at hlast
  · exact absurd rfl (hlast .openBracket (List.getLast?_concat ..)).1
  · exact absurd rfl (hlast .comma (List.getLast?_concat ..)).2.1
  · exact absurd rfl (hlast .openParen (List.getLast?_concat ..)).2.2

/-- Words with at least two characters that are spelled like a type are its text. -/
theorem isTypeText_joinWith {ws : List (List Char)} (hws : ∀ w ∈ ws, IsWord w)
    (hparts : ∀ c ∈ joinWith [' '] ws, isTypePart c) (hlength : 2 ≤ ws.flatten.length)
    {name : String} (hfirst : (ws.flatMap lexemesOf).head? = some (.ident name))
    (hlast : ∀ l ∈ (ws.flatMap lexemesOf).getLast?,
      l ≠ .openBracket ∧ l ≠ .comma ∧ l ≠ .openParen) : IsTypeText (joinWith [' '] ws) := by
  obtain ⟨hhead, hend⟩ := isBlank_ends_joinWith hws
  have hlong : 2 ≤ (joinWith [' '] ws).length := by
    have hflatten := flatten_words (joinWith [' '] ws)
    rw [words_joinWith hws] at hflatten
    rw [hflatten] at hlength
    exact Nat.le_trans hlength (List.length_filter_le ..)
  rw [← lexemesOf_joinWith hws] at hfirst hlast
  generalize joinWith [' '] ws = cs at *
  cases cs with
  | nil => simp at hlong
  | cons c cs =>
      rcases List.eq_nil_or_concat cs with rfl | ⟨mid, d, rfl⟩
      · simp at hlong
      · rw [List.concat_eq_append] at *
        have hc : isBlank c = false := hhead c rfl
        have hd : isBlank d = false := hend d (List.getLast?_concat (l := c :: mid))
        obtain ⟨ls, hls⟩ := List.head?_eq_some_iff.mp hfirst
        have hspace : ¬ isSpace c := fun h => by simp [isBlank_of_isSpace h] at hc
        refine ⟨c, mid, d, rfl, isIdentStart_of_lexemesOf hspace hls, fun x hx => ?_, ?_⟩
        · exact hparts x (by simp [hx])
        · exact isTypeEnd_of_getLast?_lexemesOf (c :: mid) hd (hparts d (by simp)) hlast

section

variable {s : Signature} {front back : List Lexeme} (hs : s.WellFormed)
  (hcase : front = s.returnType.lexemes ∨
    front.getLast? = some .closeBracket ∧ back.head? = some (.ident "tuple"))

include hs hcase

theorem getLast_ne_of_divided :
    ∀ l ∈ front.getLast?, l ≠ .openBracket ∧ l ≠ .comma ∧ l ≠ .openParen := by
  rcases hcase with rfl | ⟨hbracket, -⟩
  · obtain ⟨last, hlast, hend⟩ := (TypeExpr.isMember_lexemes hs.result).last
    intro l hl
    rw [Option.mem_unique hl hlast]
    rcases hend with rfl | ⟨_, rfl, -⟩ <;> simp
  · rw [hbracket]
    rintro _ ⟨⟩
    decide

variable (hlexemes : s.lexemes = front ++ back)

include hlexemes

/-- Both divisions have a word before a parenthesis behind them: the name, or the word of a tuple. -/
theorem exists_name_of_divided : ∃ name ls, back = .ident name :: .openParen :: ls := by
  rcases hcase with hreturn | ⟨-, htuple⟩
  · rw [Signature.lexemes_eq, hreturn] at hlexemes
    exact ⟨s.name, _, (List.append_cancel_left hlexemes).symm⟩
  · obtain ⟨ls, hls⟩ := List.head?_eq_some_iff.mp htuple
    rw [hls] at hlexemes
    cases ls with
    | nil =>
        have hlast := s.lexemes_getLast?
        rw [hlexemes] at hlast
        cases (List.getLast?_concat ..).symm.trans hlast
    | cons l ls =>
        rcases Signature.lexemes_neighbours hs hlexemes with ⟨-, hname, -⟩ | ⟨hparen, -⟩
        · have hword := hs.name.2
          rw [← hname] at hword
          cases hword
        · exact ⟨_, ls, by rw [hls, hparen.1.mpr rfl]⟩

theorem exists_head_of_divided : ∃ first, front.head? = some (.ident first) := by
  have hne : front ≠ [] := by
    rintro rfl
    rcases hcase with hreturn | ⟨hbracket, -⟩
    · obtain ⟨first, hfirst⟩ := (TypeExpr.isMember_lexemes hs.result).head
      rw [← hreturn] at hfirst
      cases hfirst
    · cases hbracket
  obtain ⟨first, l, ls, hfirst, -⟩ := hs.lexemes_eq_cons
  have hhead := congrArg List.head? hlexemes
  rw [hfirst, List.head?_append_of_ne_nil _ hne] at hhead
  exact ⟨first, hhead.symm⟩

end

section

variable {text : String} {s : Signature} (hs : s.WellFormed)
  (htext : Token.lexemes text = s.lexemes)

include hs htext

theorem inLanguage : ∀ c ∈ text.toList, InLanguage c := by
  apply inLanguage_of_legal
  rw [← lexemes_eq, htext]
  exact hs.legal_lexemes

theorem lexemesOf_folded : lexemesOf (foldBlanks text.toList) = s.lexemes := by
  rw [lexemesOf_foldBlanks fun c hc => (inLanguage hs htext c hc).isSpace_of_isBlank, ← lexemes_eq,
    htext]

/-- All that is left of the blanks in the folded text are spaces. -/
theorem folded_cases : ∀ c ∈ foldBlanks text.toList,
    c = ' ' ∨ isBlank c = false ∧ isTypePart c := by
  intro c hc
  rcases mem_foldBlanks hc with rfl | ⟨hmem, hblank⟩
  · exact .inl rfl
  · refine .inr ⟨hblank, ?_⟩
    rcases inLanguage hs htext c hmem with h | h | h
    · simp [isBlank_of_isSpace h] at hblank
    · simp [isTypePart, isTypeEnd, h]
    · simp only [List.mem_cons, List.not_mem_nil, or_false] at h
      rcases h with rfl | rfl | rfl | rfl | rfl <;> decide

theorem flatMap_words_of_folded {cs : List Char} (hcs : ∀ c ∈ cs, c ∈ foldBlanks text.toList) :
    (words cs).flatMap lexemesOf = lexemesOf cs := by
  rw [lexemesOf_eq_flatMap_words]
  intro c hc hblank
  rcases folded_cases hs htext c (hcs c hc) with rfl | ⟨hsolid, -⟩
  · decide
  · simp [hsolid] at hblank

/-- Where the scanner finds a declaration, the words of the text are divided accordingly. -/
theorem recognizable_of_opensList (h : opensList [] (foldBlanks text.toList)) :
    Recognizable text s := by
  obtain ⟨_, list, hfolded, ⟨type, gap, name, gap', rfl, htype, hgap, hblank, hname, hblank'⟩, -⟩ :=
    opensList_nil_iff.mp h
  obtain ⟨b, gap, rfl⟩ := List.exists_cons_of_ne_nil hgap
  obtain ⟨hb, hgap⟩ := List.forall_mem_cons.mp hblank
  have hspace : ∀ {c}, isPlainBlank c → isSpace c := isSpace_of_isPlainBlank
  -- the text from the name on
  generalize hrest : name.toList ++ (gap' ++ '(' :: list) = rest
  have hcut : foldBlanks text.toList = type ++ b :: (gap ++ rest) := by
    rw [hfolded, ← hrest]
    simp
  have hwords : words text.toList = words type ++ words rest := by
    rw [← words_foldBlanks, hcut, words_append_blank (isBlank_of_isSpace (hspace hb)),
      words_blanks_append fun c hc => isBlank_of_isSpace (hspace (hgap c hc))]
  have hlexemes : s.lexemes = lexemesOf type ++ lexemesOf rest := by
    rw [← lexemesOf_folded hs htext, hcut, lexemesOf_append type (Stops.of_isSpace (hspace hb) _),
      lexemesOf_space (hspace hb), lexemesOf_blanks_append fun c hc => hspace (hgap c hc)]
  have hstops : Stops (gap' ++ '(' :: list) := by
    cases gap' with
    | nil => exact Stops.cons (by decide) _
    | cons c gap' => exact Stops.of_isSpace (hspace (hblank' c List.mem_cons_self)) _
  have hname' : lexemesOf rest = .ident name :: .openParen :: lexemesOf list := by
    rw [← hrest, lexemesOf_word hname hstops,
      lexemesOf_blanks_append fun c hc => hspace (hblank' c hc),
      lexemesOf_symbol (c := '(') (by decide) (by decide)]
    rfl
  have hfront := flatMap_words_of_folded hs htext
    (by simp +contextual [hcut] : ∀ c ∈ type, c ∈ foldBlanks text.toList)
  have hback := flatMap_words_of_folded hs htext
    (by simp +contextual [hcut] : ∀ c ∈ rest, c ∈ foldBlanks text.toList)
  obtain ⟨c, mid, d, rfl, hc, -, hd⟩ := htype
  refine ⟨words (c :: mid ++ [d]), words rest, hwords, ?_, ?_⟩
  · have hc' : isBlank c = false := isBlank_of_isIdentPart (Bool.or_eq_true_iff.mpr (.inl hc))
    simp [flatten_words, hc', isBlank_of_isTypeEnd hd]
  rw [hfront, hback, hname']
  rw [hname'] at hlexemes
  rcases Signature.lexemes_neighbours hs hlexemes with ⟨hreturn, -⟩ | ⟨hparen, hleft⟩
  · exact .inl hreturn
  · obtain rfl : name = "tuple" := by simpa using hparen.1.mp rfl
    have hlast : ∀ l ∈ (lexemesOf (c :: mid ++ [d])).getLast?,
        l = .openParen ∨ l = .comma ∨ l = .closeBracket := fun l hl => (hleft l hl).2 rfl
    refine .inr ⟨?_, rfl⟩
    simp only [isTypeEnd, Bool.or_eq_true, beq_iff_eq] at hd
    rcases hd with (hd | rfl) | rfl
    · obtain ⟨l, hl, hsymbol⟩ := getLast?_lexemesOf_of_isIdentPart (List.getLast?_concat ..) hd
      rcases hlast l hl with rfl | rfl | rfl <;> cases hsymbol
    · rw [lexemesOf_concat_symbol (by decide) (by decide)]
      exact List.getLast?_concat ..
    · rw [lexemesOf_concat_symbol (by decide) (by decide)] at hlast
      have := hlast .closeParen (List.getLast?_concat ..)
      simp at this

theorem getLast?_folded : (foldBlanks text.toList).getLast? = some ')' := by
  have hlexemes := lexemesOf_folded hs htext
  have hends := (isBlank_ends_joinWith fun w (hw : w ∈ words text.toList) =>
    (isWord_of_mem_words hw).1).2
  have hlast := s.lexemes_getLast?
  have hcases := folded_cases hs htext
  change ∀ c ∈ (foldBlanks text.toList).getLast?, _ at hends
  rw [← hlexemes] at hlast
  rcases List.eq_nil_or_concat (foldBlanks text.toList) with hnil | ⟨init, d, hconcat⟩
  · rw [hnil, lexemesOf_nil] at hlast
    cases hlast
  · rw [hconcat, List.concat_eq_append] at hlast hends hcases ⊢
    have hsolid : isBlank d = false := hends d (List.getLast?_concat ..)
    have hend : isTypeEnd d := by
      apply isTypeEnd_of_getLast?_lexemesOf init hsolid
      · rcases hcases d (by simp) with rfl | ⟨-, hpart⟩
        · decide
        · exact hpart
      · rw [hlast]
        rintro _ ⟨⟩
        decide
    simp only [isTypeEnd, Bool.or_eq_true, beq_iff_eq] at hend
    rcases hend with (hend | rfl) | rfl
    · obtain ⟨l, hl, hsymbol⟩ := getLast?_lexemesOf_of_isIdentPart (List.getLast?_concat ..) hend
      rw [hlast] at hl
      cases hl
      cases hsymbol
    · rw [lexemesOf_concat_symbol (by decide) (by decide)] at hlast
      cases (List.getLast?_concat ..).symm.trans hlast
    · exact List.getLast?_concat ..

/-- A text that is divided so has a parenthesis with a head before it. -/
theorem opensList_of_recognizable (h : Recognizable text s) :
    opensList [] (foldBlanks text.toList) := by
  obtain ⟨front, back, hwords, hlength, hcase⟩ := h
  have hisWord : ∀ w ∈ front ++ back, IsWord w := by
    rw [← hwords]
    exact fun w hw => (isWord_of_mem_words hw).1
  obtain ⟨hfrontWords, hbackWords⟩ := List.forall_mem_append.mp hisWord
  have hlexemes : s.lexemes = front.flatMap lexemesOf ++ back.flatMap lexemesOf := by
    rw [← lexemesOf_folded hs htext, foldBlanks, hwords, lexemesOf_joinWith hisWord,
      List.flatMap_append]
  obtain ⟨name, ls, hname⟩ := exists_name_of_divided hs hcase hlexemes
  have hfront : front ≠ [] := by
    rintro rfl
    simp at hlength
  have hback : back ≠ [] := by
    rintro rfl
    cases hname
  have hcut : foldBlanks text.toList = joinWith [' '] front ++ ' ' :: joinWith [' '] back := by
    rw [foldBlanks, hwords, joinWith_append hfront hback]
  rw [← lexemesOf_joinWith hbackWords] at hname
  obtain ⟨gap, rest, hjoin, hgap, hident, -, hrest⟩ := exists_of_lexemesOf_eq_ident_cons hname
  obtain ⟨gap', list, rfl, hgap', hlist⟩ := exists_of_lexemesOf_eq_openParen_cons hrest
  have hplain : ∀ c ∈ foldBlanks text.toList, isSpace c → isPlainBlank c := by
    intro c hc hspace
    rcases folded_cases hs htext c hc with rfl | ⟨hsolid, -⟩
    · decide
    · simp [isBlank_of_isSpace hspace] at hsolid
  have hmem : ∀ c, c ∈ joinWith [' '] front ∨ c ∈ ' ' :: gap ∨ c ∈ gap' →
      c ∈ foldBlanks text.toList := by
    intro c hc
    rw [hcut, hjoin]
    simp only [List.mem_append, List.mem_cons] at hc ⊢
    rcases hc with h | (h | h) | h <;> simp [h]
  obtain ⟨first, hfirst⟩ := exists_head_of_divided hs hcase hlexemes
  have hlast := getLast_ne_of_divided hs hcase
  refine opensList_nil_iff.mpr ⟨joinWith [' '] front ++ (' ' :: gap ++ (name.toList ++ gap')), list,
    by rw [hcut, hjoin]; simp, ⟨_, _, name, gap', rfl, ?_, List.cons_ne_nil _ _, ?_, hident, ?_⟩, ?_⟩
  · refine isTypeText_joinWith hfrontWords ?_ hlength hfirst hlast
    intro c hc
    rcases folded_cases hs htext c (hmem c (.inl hc)) with rfl | ⟨-, hpart⟩
    · decide
    · exact hpart
  · intro c hc
    refine hplain c (hmem c (.inr (.inl hc))) ?_
    rcases List.mem_cons.mp hc with rfl | hc
    · decide
    · exact hgap c hc
  · intro c hc
    exact hplain c (hmem c (.inr (.inr hc))) (hgap' c hc)
  · have hlist : list ≠ [] := by
      rintro rfl
      rw [lexemesOf_nil] at hlist
      have hlast := s.lexemes_getLast?
      rw [hlexemes, ← lexemesOf_joinWith hbackWords, hname, ← hlist] at hlast
      simp [List.getLast?_cons] at hlast
    have hlast := getLast?_folded hs htext
    have htail : foldBlanks text.toList =
        (joinWith [' '] front ++ ' ' :: gap ++ name.toList ++ gap' ++ ['(']) ++ list := by
      rw [hcut, hjoin]
      simp
    rwa [htail, List.getLast?_append_of_ne_nil _ hlist] at hlast

/-- The scanner takes for the first word of a declaration what the grammar takes for it. -/
theorem firstWord_folded {word : String} (hword : s.lexemes.head? = some (.ident word)) :
    firstWord (foldBlanks text.toList) = word.toList := by
  have hlexemes := lexemesOf_folded hs htext
  have hends := (isBlank_ends_joinWith fun w (hw : w ∈ words text.toList) =>
    (isWord_of_mem_words hw).1).1
  have hcases := folded_cases hs htext
  change ∀ c ∈ (foldBlanks text.toList).head?, _ at hends
  obtain ⟨first, l, ls, hfirst, hl⟩ := hs.lexemes_eq_cons
  rw [hfirst] at hlexemes hword
  cases hword
  obtain ⟨gap, rest, hfolded, hgap, hident, hstops, hrest⟩ :=
    exists_of_lexemesOf_eq_ident_cons hlexemes
  rw [hfolded] at hends hcases ⊢
  cases gap with
  | cons c gap =>
      have hblank := isBlank_of_isSpace (hgap c List.mem_cons_self)
      rw [hends c rfl] at hblank
      cases hblank
  | nil =>
      have hpart : ∀ c ∈ word.toList, (decide (c ≠ ' ' ∧ c ≠ '(' ∧ c ≠ '[')) = true := by
        intro c hc
        have := isIdentPart_of_isIdentifier hident c hc
        rw [decide_eq_true_iff]
        refine ⟨?_, ?_, ?_⟩ <;> rintro rfl <;> cases this
      rw [List.nil_append, firstWord, List.takeWhile_append_of_pos hpart]
      cases rest with
      | nil =>
          rw [lexemesOf_nil] at hrest
          cases hrest
      | cons c rest =>
          have hstop : c = ' ' ∨ c = '(' ∨ c = '[' := by
            rcases hcases c (by simp) with rfl | ⟨hblank, hpart⟩
            · exact .inl rfl
            by_contra hne
            have hnot : isIdentPart c = false := hstops c rfl
            simp only [not_or] at hne
            -- what closes or separates does not follow the first word
            have hclose : c = ']' ∨ c = ')' ∨ c = ',' := by
              simpa [isTypePart, isTypeEnd, hnot, isPlainBlank_of_isBlank hblank, hne, or_assoc]
                using hpart
            rcases hclose with rfl | rfl | rfl <;>
              rw [lexemesOf_symbol (by decide) (by decide)] at hrest <;> cases hrest <;> simp at hl
          rw [List.takeWhile_cons_of_neg, List.append_nil]
          rcases hstop with rfl | rfl | rfl <;> decide

theorem opensList_iff_recognizable :
    opensList [] (foldBlanks text.toList) ↔ Recognizable text s :=
  ⟨recognizable_of_opensList hs htext, opensList_of_recognizable hs htext⟩

theorem looksLikeDeclaration_iff (hcontrol : ∀ word, s.lexemes.head? = some (.ident word) →
      word ∉ controlWords) :
    looksLikeDeclaration (foldBlanks text.toList) ↔ Recognizable text s := by
  obtain ⟨word, l, ls, hfirst, -⟩ := hs.lexemes_eq_cons
  have hword : s.lexemes.head? = some (.ident word) := by rw [hfirst]; rfl
  rw [looksLikeDeclaration, firstWord_folded hs htext hword, String.ofList_toList,
    Bool.and_eq_true, opensList_iff_recognizable hs htext]
  simp [hcontrol word hword]

theorem exists_code : ∃ c ∈ text.toList, ¬ isSpace c := by
  by_contra hblank
  have hspace : ∀ c ∈ text.toList, isSpace c := by simpa using hblank
  have hnil := lexemesOf_blanks_append hspace []
  obtain ⟨word, l, ls, hfirst, -⟩ := hs.lexemes_eq_cons
  rw [List.append_nil, lexemesOf_nil, ← lexemes_eq, htext, hfirst] at hnil
  cases hnil

end

/-- A text that declares a signature still does when its blanks are folded. -/
theorem parse_folded {text : String} {order : Int} {s : Signature}
    (hs : Signature.parse text order = .ok s) :
    Signature.parse (String.ofList (foldBlanks text.toList)) order = .ok s := by
  obtain ⟨hwell, horder, hplace, htext⟩ := Signature.parse_eq_ok_iff.mp hs
  refine Signature.parse_eq_ok_iff.mpr ⟨hwell, horder, hplace, ?_⟩
  rw [lexemes_eq, String.toList_ofList, lexemesOf_folded hwell htext]

/-- A source that declares one function without a body, or with an empty one, gives exactly this
declaration where the text is recognizable, and nothing where it is not. What is given is read as the text
itself. -/
theorem declarations_of_parse {text : String} {order : Int} {s : Signature}
    (hs : Signature.parse text order = .ok s)
    (hcontrol : ∀ word, (Token.lexemes text).head? = some (.ident word) → word ∉ controlWords) :
    (Recognizable text s →
      (∃ d, declarations (text ++ ";") = [d] ∧ d.forward = true ∧
        Signature.parse d.text order = .ok s) ∧
      ∃ d, declarations (text ++ " \x7b\x7d") = [d] ∧ d.forward = false ∧
        Signature.parse d.text order = .ok s) ∧
    (¬ Recognizable text s →
      declarations (text ++ ";") = [] ∧ declarations (text ++ " \x7b\x7d") = []) := by
  obtain ⟨hwell, -, -, htext⟩ := Signature.parse_eq_ok_iff.mp hs
  rw [htext] at hcontrol
  have hplain : ∀ c ∈ text.toList, IsPlain c := fun c hc => (inLanguage hwell htext c hc).isPlain
  have hcode := exists_code hwell htext
  have hlooks := looksLikeDeclaration_iff hwell htext hcontrol
  have hfolded : foldBlanks (text.toList ++ [' ']) = foldBlanks text.toList := by
    rw [foldBlanks, words_append_blank (by decide), words_nil, List.append_nil, foldBlanks]
  have hparse := parse_folded hs
  rw [declarations_forward hplain hcode, declarations_body hplain hcode, Scanner.declared,
    Scanner.declared, hfolded]
  constructor
  · intro h
    rw [hlooks.mpr h]
    exact ⟨⟨_, rfl, rfl, hparse⟩, _, rfl, rfl, hparse⟩
  · intro h
    rw [Bool.eq_false_iff.mpr (mt hlooks.mp h)]
    exact ⟨rfl, rfl⟩

/-- A blank after the return type makes its declaration recognizable, and the blanks within do not
count. -/
theorem declarations_of_tuple_result :
    ∃ d, declarations "tuple( real,\tint )\nf (T x);" = [d] ∧ d.forward = true ∧
      Signature.parse d.text 2 =
        .ok ⟨"f", [⟨"x", .primitive "T"⟩], .tuple [.primitive "real", .primitive "int"], 2, {}, ""⟩ := by
  have hparse : Signature.parse "tuple( real,\tint )\nf (T x)" 2 =
      .ok ⟨"f", [⟨"x", .primitive "T"⟩], .tuple [.primitive "real", .primitive "int"], 2, {}, ""⟩ := by
    decide +kernel
  have hcontrol : ∀ word, (Token.lexemes "tuple( real,\tint )\nf (T x)").head? = some (.ident word) →
      word ∉ controlWords := by
    have hhead : (Token.lexemes "tuple( real,\tint )\nf (T x)").head? = some (.ident "tuple") := by
      decide +kernel
    rw [hhead]
    rintro _ ⟨⟩
    decide
  have hrecognizable : Recognizable "tuple( real,\tint )\nf (T x)"
      ⟨"f", [⟨"x", .primitive "T"⟩], .tuple [.primitive "real", .primitive "int"], 2, {}, ""⟩ :=
    ⟨["tuple(".toList, "real,".toList, "int".toList, ")".toList], ["f".toList, "(T".toList, "x)".toList],
      by decide +kernel, by decide, .inl (by decide +kernel)⟩
  exact ((declarations_of_parse hparse hcontrol).1 hrecognizable).1

/-- Declarations of the grammar that are not found: the return type has one letter, or no blank stands
after it. -/
theorem declarations_of_unrecognizable :
    ((Signature.parse "T f(real x)" 0).isOk ∧
      (Token.lexemes "T f(real x)").head? = some (.ident "T") ∧ "T" ∉ controlWords ∧
      declarations ("T f(real x)" ++ ";") = [] ∧ declarations ("T f(real x)" ++ " \x7b\x7d") = []) ∧
    (Signature.parse "tuple(real, int)f()" 0).isOk ∧
      (Token.lexemes "tuple(real, int)f()").head? = some (.ident "tuple") ∧ "tuple" ∉ controlWords ∧
      declarations ("tuple(real, int)f()" ++ ";") = [] ∧
      declarations ("tuple(real, int)f()" ++ " \x7b\x7d") = [] := by
  refine ⟨⟨?_, ?_, by decide, ?_, ?_⟩, ?_, ?_, by decide, ?_, ?_⟩
  all_goals decide +kernel

end Source

end OverloadDocs
