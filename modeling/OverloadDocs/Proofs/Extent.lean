import OverloadDocs.Proofs.Spelling
import OverloadDocs.Source.Scan

/-!
How large what is read can be. The text of a declaration is no longer than the source it comes from, and a
declaration has no more parameters than its text has room for.
-/

namespace OverloadDocs

namespace Text

/-- The room that parts take with something after each of them. -/
def room : List (List Char) → Nat
  | [] => 0
  | part :: parts => part.length + 1 + room parts

theorem room_splitOnP (p : Char → Bool) (cs : List Char) : room (cs.splitOnP p) = cs.length + 1 := by
  induction cs with
  | nil => rfl
  | cons c cs ih =>
      rw [List.splitOnP_cons_eq_if_modifyHead]
      split
      · rw [room, ih, List.length_nil, List.length_cons]
        omega
      · cases hparts : cs.splitOnP p with
        | nil =>
            rw [hparts, room] at ih
            omega
        | cons part parts =>
            rw [hparts, room] at ih
            rw [List.modifyHead_cons, room, List.length_cons, List.length_cons]
            omega

theorem room_filter_le (keep : List Char → Bool) (parts : List (List Char)) :
    room (parts.filter keep) ≤ room parts := by
  induction parts with
  | nil => exact Nat.le_refl _
  | cons part parts ih =>
      rw [List.filter_cons, room]
      split
      · rw [room]
        omega
      · omega

theorem length_joinWith_le (c : Char) (parts : List (List Char)) :
    (joinWith [c] parts).length ≤ room parts - 1 := by
  induction parts with
  | nil => simp [joinWith]
  | cons part parts ih =>
      cases parts with
      | nil => simp [joinWith, room]
      | cons next parts =>
          simp only [joinWith, List.intercalate_cons_cons, List.length_append, List.length_singleton,
            room] at ih ⊢
          omega

end Text

namespace Source

open Text

theorem length_foldBlanks_le (cs : List Char) : (foldBlanks cs).length ≤ cs.length := by
  have hjoin := length_joinWith_le ' ' (words cs)
  have hroom := room_filter_le (· ≠ []) (cs.splitOnP isBlank)
  rw [room_splitOnP] at hroom
  rw [words, runsOutside] at hjoin
  rw [foldBlanks, words, runsOutside]
  omega

theorem Literal.length_read (cs : List Char) :
    (Literal.read cs).text.length + (Literal.read cs).rest.length = cs.length := by
  fun_induction Literal.read cs with
  | case1 => rfl
  | case2 c cs l ih =>
      change l.text.length + l.rest.length = cs.length at ih
      simp only [List.length_cons]
      omega
  | case3 cs =>
      simp only [List.length_cons, List.length_nil]
      omega
  | case4 c cs _ _ l ih =>
      change l.text.length + l.rest.length = cs.length at ih
      simp only [List.length_cons]
      omega

namespace Scanner

/-- How long the statement is that is being read. -/
def extent (s : Scanner) : Nat := (s.statement.map (·.reversed.length)).getD 0

/-- What is found fits, and so does the statement together with the text to come. -/
structure Fits (total : Nat) (s : Scanner) (rest : List Char) : Prop where
  found : ∀ d ∈ s.found, d.text.length ≤ total
  statement : s.extent + rest.length ≤ total

theorem Fits.of_le {total : Nat} {s s' : Scanner} {rest rest' : List Char} (h : Fits total s rest)
    (hfound : s'.found = s.found) (hextent : s'.extent + rest'.length ≤ s.extent + rest.length) :
    Fits total s' rest' :=
  ⟨hfound ▸ h.found, Nat.le_trans hextent h.statement⟩

theorem addCode_extent (s : Scanner) (cs : List Char) :
    (s.addCode cs).found = s.found ∧ (s.addCode cs).extent = s.extent + cs.length := by
  rw [addCode]
  split
  · rename_i t h
    refine ⟨rfl, ?_⟩
    simp [extent, h]
    omega
  · rename_i h
    refine ⟨rfl, ?_⟩
    simp [extent, h]

theorem addSpace_extent (s : Scanner) :
    s.addSpace.found = s.found ∧ s.addSpace.extent ≤ s.extent + 1 := by
  rw [addSpace]
  split
  · rename_i t h
    refine ⟨rfl, ?_⟩
    simp [extent, h]
  · exact ⟨rfl, Nat.le_succ _⟩

theorem addComment_extent (s : Scanner) (body : List Char) (lineComment : Bool) (start : Nat) :
    (s.addComment body lineComment start).found = s.found ∧
      (s.addComment body lineComment start).extent = s.extent := by
  rw [addComment]
  split
  · exact ⟨rfl, rfl⟩
  · dsimp only
    split
    · split <;> exact ⟨rfl, rfl⟩
    · exact ⟨rfl, rfl⟩

theorem takeBlockComment_extent (s : Scanner) (body : List Char) :
    (s.takeBlockComment body).found = s.found ∧ (s.takeBlockComment body).extent ≤ s.extent + 1 := by
  rw [takeBlockComment]
  split
  · exact addSpace_extent { s with line := s.line + newlines body }
  · have h := addComment_extent { s with line := s.line + newlines body } (blockContent body) false s.line
    exact ⟨h.1, Nat.le_succ_of_le (Nat.le_of_eq h.2)⟩

theorem takeLineComment_extent (s : Scanner) (body : List Char) :
    (s.takeLineComment body).found = s.found ∧ (s.takeLineComment body).extent = s.extent := by
  rw [takeLineComment]
  split
  · exact ⟨rfl, rfl⟩
  · exact addComment_extent ..

/-- A statement that ends leaves room, and as a declaration its text is no longer. -/
theorem Fits.endStatement {total : Nat} {s : Scanner} {rest : List Char} (h : Fits total s rest)
    (forward : Bool) : Fits total (s.endStatement forward).1 rest := by
  have hrest : rest.length ≤ total := Nat.le_trans (Nat.le_add_left _ _) h.statement
  rw [Scanner.endStatement]
  split
  · exact h
  · rename_i t hstatement
    split
    · refine ⟨fun d hd => ?_, by simpa [extent] using hrest⟩
      rcases List.mem_cons.mp hd with rfl | hd
      · have hfold := length_foldBlanks_le t.reversed.reverse
        have hextent := h.statement
        rw [extent, hstatement] at hextent
        rw [List.length_reverse] at hfold
        simp only [statementText, hstatement, String.length_ofList, Option.map_some, Option.getD_some] at hextent ⊢
        omega
      · exact h.found d hd
    · exact ⟨h.found, by simpa [extent] using hrest⟩

/-- Taking characters off the text adds no more than them to the statement. -/
theorem Fits.advance {total : Nat} {s : Scanner} {c : Char} {cs : List Char}
    (h : Fits total s (c :: cs)) : Fits total (s.advance c cs).1 (s.advance c cs).2 := by
  have htail : cs.tail.length ≤ cs.length := by simp
  have hspace := addSpace_extent s
  rw [Scanner.advance]
  split
  · have hnext := addSpace_extent { s with line := s.line + 1 }
    exact h.of_le hnext.1 (by have := hnext.2; simp only [List.length_cons, extent] at this ⊢; omega)
  split
  · exact h.of_le hspace.1 (by simp only [List.length_cons]; omega)
  split
  · have hblock := takeBlockComment_extent s (blockBody cs.tail).1
    have hrest := blockBody_rest_length cs.tail
    exact h.of_le hblock.1 (by simp only [List.length_cons]; omega)
  split
  · have hline := takeLineComment_extent s (lineBody cs.tail).1
    have hrest := lineBody_rest_length cs.tail
    exact h.of_le hline.1 (by simp only [List.length_cons]; omega)
  split
  · have hrest := lineBody_rest_length cs
    split
    · exact h.of_le rfl (by simp only [List.length_cons, extent, dropPending, markCode]; omega)
    · have hline := takeLineComment_extent s (lineBody cs).1
      exact h.of_le hline.1 (by simp only [List.length_cons]; omega)
  split
  · have hcode := addCode_extent s ('"' :: (Literal.read cs).text)
    have hliteral := Literal.length_read cs
    refine h.of_le hcode.1 ?_
    change (s.addCode ('"' :: (Literal.read cs).text)).extent + _ ≤ _
    rw [hcode.2]
    simp only [List.length_cons]
    omega
  split
  · have hafter : Fits total s cs := h.of_le rfl (by simp)
    have hopen := hafter.endStatement false
    rw [openBrace]
    split
    · rename_i ended heq
      rw [heq] at hopen
      have hbody := skipBody_rest_length 0 s.line cs
      exact hopen.of_le rfl (by simp only [extent, markCode]; omega)
    · rename_i ended heq
      rw [heq] at hopen
      exact hopen.of_le rfl (Nat.le_refl _)
  split
  · exact h.of_le rfl (by simp [extent, closeBrace, markCode]; omega)
  split
  · have hafter : Fits total s cs := h.of_le rfl (by simp)
    exact (hafter.endStatement true).of_le rfl (Nat.le_refl _)
  · have hcode := addCode_extent s [c]
    refine h.of_le hcode.1 ?_
    change (s.addCode [c]).extent + _ ≤ _
    rw [hcode.2]
    simp only [List.length_cons, List.length_nil]
    omega

theorem Fits.run {total : Nat} {s : Scanner} {cs : List Char} (h : Fits total s cs) :
    Fits total (s.run cs) [] := by
  fun_induction Scanner.run s cs with
  | case1 s => exact h
  | case2 s c cs next ih => exact ih h.advance

end Scanner

/-- A declaration is no longer than the source. -/
theorem length_declaration_le {source : String} {d : Declaration} (hd : d ∈ declarations source) :
    d.text.length ≤ source.length := by
  have hstart : Scanner.Fits source.length {} source.toList :=
    ⟨fun _ => nofun, by simp [Scanner.extent, String.length_toList]⟩
  exact hstart.run.found d (List.mem_reverse.mp hd)

end Source

/-! ## Parameters -/

namespace Token

/-- Every comma among the tokens is a character of the text. -/
theorem count_comma_le (offset : Nat) (cs : List Char) :
    ((scanFrom offset cs).map (·.lexeme)).count .comma ≤ cs.length := by
  fun_induction scanFrom offset cs with
  | case1 => exact Nat.le_refl _
  | case2 offset c cs _ ih => exact Nat.le_succ_of_le ih
  | case3 offset c cs _ _ name ih =>
      have hdrop : (cs.dropWhile Text.isIdentPart).length ≤ cs.length :=
        (List.dropWhile_suffix _).length_le
      rw [List.map_cons, List.count_cons]
      simp only [List.length_cons]
      split
      · rename_i h
        simp at h
      · omega
  | case4 offset c cs _ _ ih =>
      have hsymbols : (symbols c).count .comma ≤ 1 := by
        rw [symbols.eq_def]
        split
        case h_7 =>
          rw [List.count_eq_zero.mpr (by simp)]
          exact Nat.zero_le 1
        all_goals decide
      rw [List.map_append, map_lexeme_mapIdx, List.count_append, List.length_cons]
      omega

end Token

theorem count_comma_intercalate (parts : List (List Lexeme)) :
    parts.length ≤ (([Lexeme.comma].intercalate parts).count .comma) + 1 := by
  induction parts with
  | nil => exact Nat.zero_le _
  | cons part parts ih =>
      cases parts with
      | nil => simp
      | cons next parts =>
          simp only [List.intercalate_cons_cons, List.count_append, List.length_cons] at ih ⊢
          simp
          omega

/-- A text that declares a signature has more characters than parameters, but for one. -/
theorem Signature.length_params_le {text : String} {s : Signature} (h : Token.lexemes text = s.lexemes) :
    s.params.length ≤ text.length + 1 := by
  have htext : (Token.lexemes text).count .comma ≤ text.length := by
    rw [Token.lexemes, Token.scan, ← String.length_toList]
    exact Token.count_comma_le 0 text.toList
  have hparts := count_comma_intercalate (s.params.map Parameter.lexemes)
  rw [h, Signature.lexemes] at htext
  simp only [List.count_append, List.count_cons, List.length_map] at htext hparts
  omega

end OverloadDocs
