import OverloadDocs.Proofs.Spelling
import OverloadDocs.Source.Declaration

/-!
The words of a text, which are what folding its blanks keeps. Two texts with the same words have the same
folded text, and a text whose blanks all separate tokens has the lexemes of its words, one word after the
other. So a folded declaration is read as the declaration itself, and where its words are divided its
lexemes are divided too.
-/

namespace OverloadDocs

namespace Text

/-- A text without blanks. -/
def Solid (cs : List Char) : Prop := ∀ c ∈ cs, isBlank c = false

/-- Induction over a text from one blank to the next. -/
@[elab_as_elim]
theorem blankInduction {motive : List Char → Prop} (solid : ∀ cs, Solid cs → motive cs)
    (blank : ∀ word c rest, Solid word → isBlank c → motive rest → motive (word ++ c :: rest))
    (cs : List Char) : motive cs := by
  have hword : Solid (cs.takeWhile (!isBlank ·)) := by
    intro c hc
    simpa using List.all_eq_true.mp List.all_takeWhile c hc
  have htext := List.takeWhile_append_dropWhile (p := (!isBlank ·)) (l := cs)
  cases hrest : cs.dropWhile (!isBlank ·) with
  | nil =>
      rw [hrest, List.append_nil] at htext
      exact solid cs (htext ▸ hword)
  | cons c rest =>
      have hlength : rest.length < cs.length := by
        have := (List.dropWhile_suffix (!isBlank ·) (l := cs)).length_le
        rw [hrest, List.length_cons] at this
        omega
      have hc := List.head?_dropWhile_not (!isBlank ·) cs
      rw [hrest] at hc htext
      rw [← htext]
      exact blank _ c rest hword (by simpa using hc) (blankInduction solid blank rest)
termination_by cs.length

theorem words_append_blank {c : Char} (hc : isBlank c) (cs ds : List Char) :
    words (cs ++ c :: ds) = words cs ++ words ds := by
  simp only [words, runsOutside]
  rw [List.splitOnP_append_cons _ _ hc, List.filter_append]

theorem words_nil : words [] = [] := by
  simp [words, runsOutside]

theorem words_of_solid {cs : List Char} (h : Solid cs) (hne : cs ≠ []) : words cs = [cs] := by
  simp [words, runsOutside, List.splitOnP_eq_singleton h, hne]

theorem words_cons_blank {c : Char} (hc : isBlank c) (cs : List Char) :
    words (c :: cs) = words cs := by
  rw [← List.nil_append (c :: cs), words_append_blank hc, words_nil, List.nil_append]

theorem words_blanks_append {gap : List Char} (h : ∀ c ∈ gap, isBlank c) (cs : List Char) :
    words (gap ++ cs) = words cs := by
  induction gap with
  | nil => rfl
  | cons c gap ih =>
      obtain ⟨hc, hgap⟩ := List.forall_mem_cons.mp h
      rw [List.cons_append, words_cons_blank hc, ih hgap]

/-- What a word is: characters, and no blank among them. -/
def IsWord (w : List Char) : Prop := w ≠ [] ∧ Solid w

theorem mem_words_of_solid {cs w : List Char} (h : Solid cs) (hw : w ∈ words cs) :
    IsWord w ∧ w = cs := by
  by_cases hne : cs = []
  · rw [hne, words_nil] at hw
    cases hw
  · rw [words_of_solid h hne, List.mem_singleton] at hw
    exact ⟨hw ▸ ⟨hne, h⟩, hw⟩

theorem isWord_of_mem_words {cs w : List Char} (h : w ∈ words cs) :
    IsWord w ∧ ∀ c ∈ w, c ∈ cs := by
  induction cs using blankInduction with
  | solid cs hsolid =>
      obtain ⟨hw, rfl⟩ := mem_words_of_solid hsolid h
      exact ⟨hw, fun _ hc => hc⟩
  | blank word d rest hsolid hd ih =>
      rw [words_append_blank hd, List.mem_append] at h
      rcases h with h | h
      · obtain ⟨hw, rfl⟩ := mem_words_of_solid hsolid h
        exact ⟨hw, fun _ hc => List.mem_append_left _ hc⟩
      · obtain ⟨hw, hmem⟩ := ih h
        exact ⟨hw, fun c hc => List.mem_append_right _ (List.mem_cons_of_mem _ (hmem c hc))⟩

/-- Words joined by spaces are the words of the joined text. -/
theorem words_joinWith {ws : List (List Char)} (h : ∀ w ∈ ws, IsWord w) :
    words (joinWith [' '] ws) = ws := by
  induction ws with
  | nil => exact words_nil
  | cons w ws ih =>
      obtain ⟨⟨hne, hsolid⟩, hrest⟩ := List.forall_mem_cons.mp h
      cases ws with
      | nil =>
          rw [joinWith, List.intercalate_singleton]
          exact words_of_solid hsolid hne
      | cons v ws =>
          rw [joinWith, List.intercalate_cons_cons, List.append_assoc, List.singleton_append,
            words_append_blank (by decide), words_of_solid hsolid hne]
          exact congrArg (w :: ·) (ih hrest)

theorem joinWith_append {front back : List (List Char)} (hfront : front ≠ []) (hback : back ≠ []) :
    joinWith [' '] (front ++ back) = joinWith [' '] front ++ ' ' :: joinWith [' '] back := by
  induction front with
  | nil => exact absurd rfl hfront
  | cons w front ih =>
      cases front with
      | nil => simp [joinWith, List.intercalate_cons_of_ne_nil hback]
      | cons v front =>
          have := ih (List.cons_ne_nil _ _)
          simp only [joinWith, List.cons_append, List.intercalate_cons_cons] at this ⊢
          simp [this]

theorem mem_intercalate {α : Type} {x sep : α} {parts : List (List α)}
    (h : x ∈ [sep].intercalate parts) : x = sep ∨ ∃ part ∈ parts, x ∈ part := by
  induction parts with
  | nil => simp at h
  | cons part parts ih =>
      cases parts with
      | nil => simpa using Or.inr h
      | cons next parts =>
          rw [List.intercalate_cons_cons, List.append_assoc, List.singleton_append, List.mem_append,
            List.mem_cons] at h
          rcases h with h | rfl | h
          · exact .inr ⟨part, List.mem_cons_self, h⟩
          · exact .inl rfl
          · obtain rfl | ⟨part', hpart, hx⟩ := ih h
            · exact .inl rfl
            · exact .inr ⟨part', List.mem_cons_of_mem _ hpart, hx⟩

theorem joinWith_ne_nil {ws : List (List Char)} (h : ∀ w ∈ ws, IsWord w) (hne : ws ≠ []) :
    joinWith [' '] ws ≠ [] := by
  obtain ⟨w, ws, rfl⟩ := List.exists_cons_of_ne_nil hne
  have hw := (List.forall_mem_cons.mp h).1.1
  cases ws with
  | nil => simpa [joinWith] using hw
  | cons v ws => simp [joinWith, hw]

theorem head?_joinWith {ws : List (List Char)} (h : ∀ w ∈ ws, IsWord w) :
    (joinWith [' '] ws).head? = ws.flatten.head? := by
  cases ws with
  | nil => rfl
  | cons w ws =>
      have hne := (List.forall_mem_cons.mp h).1.1
      cases ws with
      | nil => simp [joinWith]
      | cons v ws =>
          obtain ⟨c, cs, rfl⟩ := List.exists_cons_of_ne_nil hne
          simp [joinWith]

theorem getLast?_joinWith {ws : List (List Char)} (h : ∀ w ∈ ws, IsWord w) :
    (joinWith [' '] ws).getLast? = ws.flatten.getLast? := by
  induction ws with
  | nil => rfl
  | cons w ws ih =>
      obtain ⟨-, hrest⟩ := List.forall_mem_cons.mp h
      cases ws with
      | nil => simp [joinWith]
      | cons v ws =>
          have hjoin := joinWith_ne_nil hrest (List.cons_ne_nil v ws)
          have hlast := ih hrest
          rw [joinWith, List.intercalate_cons_cons, List.append_assoc, List.singleton_append,
            List.flatten_cons, List.getLast?_append, List.getLast?_append, ← hlast]
          exact congrArg (·.or w.getLast?) (List.getLast?_cons_of_ne_nil hjoin)

/-- Words joined by spaces have no blanks at their ends. -/
theorem isBlank_ends_joinWith {ws : List (List Char)} (h : ∀ w ∈ ws, IsWord w) :
    (∀ c ∈ (joinWith [' '] ws).head?, isBlank c = false) ∧
      ∀ c ∈ (joinWith [' '] ws).getLast?, isBlank c = false := by
  have hsolid : ∀ c ∈ ws.flatten, isBlank c = false := by
    intro c hc
    obtain ⟨w, hw, hmem⟩ := List.mem_flatten.mp hc
    exact (h w hw).2 c hmem
  rw [head?_joinWith h, getLast?_joinWith h]
  exact ⟨fun c hc => hsolid c (List.mem_of_mem_head? hc),
    fun c hc => hsolid c (List.mem_of_mem_getLast? hc)⟩

/-- The characters of the words of a text are those of the text that are no blanks. -/
theorem flatten_words (cs : List Char) : (words cs).flatten = cs.filter (!isBlank ·) := by
  have hfilter : ∀ word, Solid word → word.filter (!isBlank ·) = word := fun word hword =>
    List.filter_eq_self.mpr fun c hc => by simp [hword c hc]
  have hsolid : ∀ word, Solid word → (words word).flatten = word.filter (!isBlank ·) := by
    intro word hword
    rw [hfilter word hword]
    by_cases hne : word = []
    · rw [hne, words_nil, List.flatten_nil]
    · rw [words_of_solid hword hne, List.flatten_singleton]
  induction cs using blankInduction with
  | solid cs hcs => exact hsolid cs hcs
  | blank word c rest hword hc ih =>
      rw [words_append_blank hc, List.flatten_append, hsolid word hword, ih, List.filter_append,
        List.filter_cons_of_neg (by simp [hc])]

theorem isBlank_of_isIdentPart {c : Char} (h : isIdentPart c) : isBlank c = false := by
  simp only [isIdentPart, isIdentStart, isBlank, Char.le_def, UInt32.le_iff_toNat_le,
    Bool.or_eq_true, Bool.and_eq_true, beq_iff_eq, decide_eq_true_eq, Bool.or_eq_false_iff,
    Bool.and_eq_false_iff, beq_eq_false_iff_ne, decide_eq_false_iff_not, ne_eq, Char.ext_iff,
    ← UInt32.toNat_inj] at *
  simp at *
  omega

end Text

open Text

/-- Whether a lexeme is punctuation of the language. -/
def Lexeme.isSymbol : Lexeme → Bool
  | .ident _ | .illegal _ => false
  | _ => true

namespace Token

theorem isBlank_of_isSpace {c : Char} (h : isSpace c) : isBlank c := by
  simp only [isSpace, isBlank, Bool.or_eq_true] at *
  rcases h with h | h <;> simp only [h, true_or, or_true]

/-- Induction over a text along the tokens it is cut into. -/
@[elab_as_elim]
theorem tokenInduction {motive : List Char → Prop} (nil : motive [])
    (space : ∀ c cs, isSpace c → motive cs → motive (c :: cs))
    (word : ∀ name rest, isIdentifier name → Stops rest → motive rest →
      motive (name.toList ++ rest))
    (symbol : ∀ c cs, ¬ isSpace c → ¬ isIdentStart c → motive cs → motive (c :: cs))
    (cs : List Char) : motive cs := by
  cases cs with
  | nil => exact nil
  | cons c cs =>
      by_cases hspace : isSpace c
      · exact space c cs hspace (tokenInduction nil space word symbol cs)
      by_cases hstart : isIdentStart c
      · have hname : isIdentifier (String.ofList (c :: cs.takeWhile isIdentPart)) := by
          simp [isIdentifier, hstart]
        have hstops : Stops (cs.dropWhile isIdentPart) := by
          intro d hd
          have := List.head?_dropWhile_not isIdentPart cs
          rw [Option.mem_def.mp hd] at this
          simpa using this
        have hlength := (List.dropWhile_suffix isIdentPart (l := cs)).length_le
        have hrest := tokenInduction nil space word symbol (cs.dropWhile isIdentPart)
        simpa using word _ _ hname hstops hrest
      · exact symbol c cs hspace hstart (tokenInduction nil space word symbol cs)
termination_by cs.length
decreasing_by all_goals simp only [List.length_cons]; omega

theorem lexemesOf_nil : lexemesOf [] = [] := by
  simp [lexemesOf, scanFrom]

/-- Where one text does not prolong the last word of another, the lexemes of both stand side by side. -/
theorem lexemesOf_append (cs : List Char) {rest : List Char} (hrest : Stops rest) :
    lexemesOf (cs ++ rest) = lexemesOf cs ++ lexemesOf rest := by
  induction cs using tokenInduction with
  | nil => rw [lexemesOf_nil, List.nil_append, List.nil_append]
  | space c cs hc ih => rw [List.cons_append, lexemesOf_space hc, lexemesOf_space hc, ih]
  | word name cs hname hcs ih =>
      have hstops : Stops (cs ++ rest) := by
        cases cs with
        | nil => exact hrest
        | cons c cs => exact Stops.cons (hcs c rfl) _
      rw [List.append_assoc, lexemesOf_word hname hstops, lexemesOf_word hname hcs, ih,
        List.cons_append]
  | symbol c cs hspace hstart ih =>
      rw [List.cons_append, lexemesOf_symbol hspace hstart, lexemesOf_symbol hspace hstart, ih,
        List.append_assoc]

theorem lexemesOf_blanks_append {gap : List Char} (h : ∀ c ∈ gap, isSpace c) (cs : List Char) :
    lexemesOf (gap ++ cs) = lexemesOf cs := by
  induction gap with
  | nil => rfl
  | cons c gap ih =>
      obtain ⟨hc, hgap⟩ := List.forall_mem_cons.mp h
      rw [List.cons_append, lexemesOf_space hc, ih hgap]

theorem Stops.of_isSpace {c : Char} (hc : isSpace c) (cs : List Char) : Stops (c :: cs) := by
  apply Stops.cons
  cases hpart : isIdentPart c with
  | false => rfl
  | true => exact absurd (isBlank_of_isSpace hc) (by simp [isBlank_of_isIdentPart hpart])

/-- A text whose blanks all separate tokens has the lexemes of its words. -/
theorem lexemesOf_eq_flatMap_words {cs : List Char} (h : ∀ c ∈ cs, isBlank c → isSpace c) :
    lexemesOf cs = (words cs).flatMap lexemesOf := by
  have hword : ∀ word, Solid word → lexemesOf word = (words word).flatMap lexemesOf := by
    intro word hsolid
    by_cases hne : word = []
    · rw [hne, words_nil, lexemesOf_nil, List.flatMap_nil]
    · rw [words_of_solid hsolid hne, List.flatMap_singleton]
  induction cs using blankInduction with
  | solid cs hsolid => exact hword cs hsolid
  | blank word c rest hsolid hc ih =>
      have hspace : isSpace c := h c (by simp) hc
      have hrest := ih fun d hd => h d (by simp [hd])
      rw [lexemesOf_append word (Stops.of_isSpace hspace rest), lexemesOf_space hspace,
        words_append_blank hc, List.flatMap_append, hword word hsolid, hrest]

/-- Words joined by spaces have the lexemes of each of them. -/
theorem lexemesOf_joinWith {ws : List (List Char)} (h : ∀ w ∈ ws, IsWord w) :
    lexemesOf (joinWith [' '] ws) = ws.flatMap lexemesOf := by
  have hblank : ∀ c ∈ joinWith [' '] ws, isBlank c → isSpace c := by
    intro c hc hblank
    rcases mem_intercalate hc with rfl | ⟨w, hw, hmem⟩
    · decide
    · exact absurd hblank (by simp [(h w hw).2 c hmem])
  rw [lexemesOf_eq_flatMap_words hblank, words_joinWith h]

/-! ## Cutting a text at a lexeme -/

/-- What one character that belongs to no word is read as. -/
theorem symbols_cases (c : Char) :
    (∃ l, symbols c = [l] ∧ (c, l) ∈ [('[', Lexeme.openBracket), (']', .closeBracket),
      ('(', .openParen), (')', .closeParen), (',', .comma), (';', .semicolon)]) ∨
      ∃ byte bytes, symbols c = .illegal byte :: List.map .illegal bytes := by
  rw [symbols.eq_def]
  split
  case h_7 =>
    have hne : String.utf8EncodeChar c ≠ [] := by
      intro h
      have := String.length_utf8EncodeChar c
      rw [h] at this
      exact absurd this.symm (Nat.ne_of_gt c.utf8Size_pos)
    obtain ⟨byte, bytes, h⟩ := List.exists_cons_of_ne_nil hne
    exact .inr ⟨byte, bytes, by rw [h, List.map_cons]⟩
  all_goals exact .inl ⟨_, rfl, by decide⟩

/-- A text whose first lexeme is a word begins with that word, but for blanks. -/
theorem exists_of_lexemesOf_eq_ident_cons {cs : List Char} {name : String} {ls : List Lexeme}
    (h : lexemesOf cs = .ident name :: ls) :
    ∃ gap rest, cs = gap ++ (name.toList ++ rest) ∧ (∀ c ∈ gap, isSpace c) ∧ isIdentifier name ∧
      Stops rest ∧ lexemesOf rest = ls := by
  induction cs using tokenInduction with
  | nil =>
      rw [lexemesOf_nil] at h
      cases h
  | space c cs hc ih =>
      rw [lexemesOf_space hc] at h
      obtain ⟨gap, rest, rfl, hgap, hrest⟩ := ih h
      exact ⟨c :: gap, rest, rfl, List.forall_mem_cons.mpr ⟨hc, hgap⟩, hrest⟩
  | word word rest hword hrest =>
      rw [lexemesOf_word hword hrest] at h
      cases h
      exact ⟨[], rest, rfl, by simp, hword, hrest, rfl⟩
  | symbol c cs hspace hstart =>
      rw [lexemesOf_symbol hspace hstart] at h
      obtain ⟨l, hl, hmem⟩ | ⟨byte, bytes, hl⟩ := symbols_cases c <;> rw [hl] at h <;> cases h
      simp at hmem

/-- A text whose first lexeme is an opening parenthesis begins with it, but for blanks. -/
theorem exists_of_lexemesOf_eq_openParen_cons {cs : List Char} {ls : List Lexeme}
    (h : lexemesOf cs = .openParen :: ls) :
    ∃ gap rest, cs = gap ++ '(' :: rest ∧ (∀ c ∈ gap, isSpace c) ∧ lexemesOf rest = ls := by
  induction cs using tokenInduction with
  | nil =>
      rw [lexemesOf_nil] at h
      cases h
  | space c cs hc ih =>
      rw [lexemesOf_space hc] at h
      obtain ⟨gap, rest, rfl, hgap, hrest⟩ := ih h
      exact ⟨c :: gap, rest, rfl, List.forall_mem_cons.mpr ⟨hc, hgap⟩, hrest⟩
  | word word rest hword hrest =>
      rw [lexemesOf_word hword hrest] at h
      cases h
  | symbol c cs hspace hstart =>
      rw [lexemesOf_symbol hspace hstart] at h
      obtain ⟨l, hl, hmem⟩ | ⟨byte, bytes, hl⟩ := symbols_cases c <;> rw [hl] at h <;> cases h
      have hc : c = '(' := by simpa using hmem
      exact ⟨[], cs, by rw [hc]; rfl, by simp, rfl⟩

/-- The last lexeme of a text that ends with a letter or a digit is no symbol. -/
theorem getLast?_lexemesOf_of_isIdentPart {cs : List Char} {c : Char} (hlast : cs.getLast? = some c)
    (hc : isIdentPart c) : ∃ l ∈ (lexemesOf cs).getLast?, l.isSymbol = false := by
  induction cs using tokenInduction with
  | nil => cases hlast
  | space d cs hd ih =>
      rw [lexemesOf_space hd]
      apply ih
      cases cs with
      | nil =>
          cases hlast
          exact absurd (isBlank_of_isSpace hd) (by simpa using isBlank_of_isIdentPart hc)
      | cons e cs => rwa [List.getLast?_cons_cons] at hlast
  | word word rest hword hrest ih =>
      rw [lexemesOf_word hword hrest]
      by_cases hne : rest = []
      · subst hne
        exact ⟨.ident word, by rw [lexemesOf_nil]; rfl, rfl⟩
      · have hrestLast := List.getLast?_eq_some_getLast hne
        rw [List.getLast?_append, hrestLast] at hlast
        obtain ⟨l, hl, hsymbol⟩ := ih (hrestLast.trans hlast)
        exact ⟨l, by simp [List.getLast?_cons, Option.mem_def.mp hl], hsymbol⟩
  | symbol d cs hspace hstart ih =>
      rw [lexemesOf_symbol hspace hstart]
      cases cs with
      | nil =>
          cases hlast
          obtain ⟨l, -, hmem⟩ | ⟨byte, bytes, hl⟩ := symbols_cases d
          · simp at hmem
            rcases hmem with ⟨rfl, -⟩ | ⟨rfl, -⟩ | ⟨rfl, -⟩ | ⟨rfl, -⟩ | ⟨rfl, -⟩ | ⟨rfl, -⟩ <;> cases hc
          · have hne := List.cons_ne_nil (Lexeme.illegal byte) (bytes.map .illegal)
            rw [hl, lexemesOf_nil, List.append_nil]
            refine ⟨_, List.getLast?_eq_some_getLast hne, ?_⟩
            rcases List.mem_cons.mp (List.getLast_mem hne) with h | h
            · rw [h]
              rfl
            · obtain ⟨_, -, h⟩ := List.mem_map.mp h
              rw [← h]
              rfl
      | cons e cs =>
          rw [List.getLast?_cons_cons] at hlast
          obtain ⟨l, hl, hsymbol⟩ := ih hlast
          exact ⟨l, by simp [Option.mem_def.mp hl], hsymbol⟩

theorem lexemesOf_concat_symbol {c : Char} (hspace : ¬ isSpace c) (hpart : isIdentPart c = false)
    (cs : List Char) : lexemesOf (cs ++ [c]) = lexemesOf cs ++ symbols c := by
  have hstart : ¬ isIdentStart c := by
    intro hstart
    simp [isIdentPart, hstart] at hpart
  rw [lexemesOf_append cs (Stops.cons hpart []), lexemesOf_symbol hspace hstart, lexemesOf_nil,
    List.append_nil]

end Token

namespace Source

theorem words_foldBlanks (cs : List Char) : words (foldBlanks cs) = words cs :=
  words_joinWith fun _ h => (isWord_of_mem_words h).1

theorem mem_foldBlanks {c : Char} {cs : List Char} (h : c ∈ foldBlanks cs) :
    c = ' ' ∨ c ∈ cs ∧ isBlank c = false := by
  rcases mem_intercalate h with rfl | ⟨w, hw, hc⟩
  · exact .inl rfl
  · obtain ⟨⟨-, hsolid⟩, hmem⟩ := isWord_of_mem_words hw
    exact .inr ⟨hmem c hc, hsolid c hc⟩

/-- Folding the blanks of a text keeps its lexemes, if all its blanks separate tokens. -/
theorem lexemesOf_foldBlanks {cs : List Char} (h : ∀ c ∈ cs, isBlank c → Token.isSpace c) :
    Token.lexemesOf (foldBlanks cs) = Token.lexemesOf cs := by
  have hfolded : ∀ c ∈ foldBlanks cs, isBlank c → Token.isSpace c := by
    intro c hc hblank
    rcases mem_foldBlanks hc with rfl | ⟨hmem, -⟩
    · decide
    · exact h c hmem hblank
  rw [Token.lexemesOf_eq_flatMap_words hfolded, Token.lexemesOf_eq_flatMap_words h,
    words_foldBlanks]

end Source

end OverloadDocs
