import OverloadDocs.Proofs.Bodies

/-!
Line endings. A text may be spelled with a carriage return before any of its line feeds. The pieces that a
scan takes off the front of a source end at the same character in both spellings, a comment is read alike from
both, and a statement has the same words.
-/

namespace OverloadDocs

open Text

namespace Source

open Comment Scanner

/-- A character that is spelled in one way only: no carriage return, and no backslash, which in a string
literal takes the next character with it. -/
def OneSpelling (c : Char) : Prop := c ≠ '\r' ∧ c ≠ '\\'

/-- The second text is the first with a carriage return before some of its line feeds. -/
inductive WithReturns : List Char → List Char → Prop
  | nil : WithReturns [] []
  | char {c : Char} {cs cs' : List Char} (hc : OneSpelling c) (h : WithReturns cs cs') :
      WithReturns (c :: cs) (c :: cs')
  | feed {cs cs' : List Char} (h : WithReturns cs cs') : WithReturns ('\n' :: cs) ('\r' :: '\n' :: cs')

def withReturns (cs : List Char) : List Char :=
  cs.flatMap fun c => if c = '\n' then ['\r', '\n'] else [c]

/-- What may stand before a line feed in the other spelling of a text. -/
def IsReturn (cs : List Char) : Prop := cs = [] ∨ cs = ['\r']

theorem oneSpelling_newline : OneSpelling '\n' := ⟨by decide, by decide⟩

namespace WithReturns

variable {cs cs' : List Char}

theorem refl {cs : List Char} (h : ∀ c ∈ cs, OneSpelling c) : WithReturns cs cs := by
  induction cs with
  | nil => exact .nil
  | cons c cs ih =>
    obtain ⟨hc, hcs⟩ := List.forall_mem_cons.mp h
    exact .char hc (ih hcs)

theorem withReturns {cs : List Char} (h : ∀ c ∈ cs, OneSpelling c) :
    WithReturns cs (withReturns cs) := by
  induction cs with
  | nil => exact .nil
  | cons c cs ih =>
    obtain ⟨hc, hcs⟩ := List.forall_mem_cons.mp h
    rw [Source.withReturns, List.flatMap_cons]
    split
    · rename_i hfeed
      rw [hfeed]
      exact .feed (ih hcs)
    · exact .char hc (ih hcs)

theorem oneSpelling (h : WithReturns cs cs') : ∀ c ∈ cs, OneSpelling c := by
  induction h with
  | nil => exact List.forall_mem_nil _
  | char hc _ ih => exact List.forall_mem_cons.mpr ⟨hc, ih⟩
  | feed _ ih => exact List.forall_mem_cons.mpr ⟨oneSpelling_newline, ih⟩

theorem append (h : WithReturns cs cs') {ds ds' : List Char} (h' : WithReturns ds ds') :
    WithReturns (cs ++ ds) (cs' ++ ds') := by
  induction h with
  | nil => exact h'
  | char hc _ ih => exact .char hc ih
  | feed _ ih => exact .feed ih

/-- A line feed, with or without a carriage return before it. -/
theorem newline (h : WithReturns cs cs') {ending : List Char} (hending : IsReturn ending) :
    WithReturns ('\n' :: cs) (ending ++ '\n' :: cs') := by
  rcases hending with rfl | rfl
  · exact .char oneSpelling_newline h
  · exact .feed h

theorem eq_nil_iff (h : WithReturns cs cs') : cs' = [] ↔ cs = [] := by
  cases h <;> simp

theorem newlines_eq (h : WithReturns cs cs') : newlines cs' = newlines cs := by
  induction h with
  | nil => rfl
  | char _ _ ih =>
    rw [newlines, newlines] at ih ⊢
    rw [List.count_cons, List.count_cons, ih]
  | feed _ ih =>
    rw [newlines, newlines] at ih ⊢
    rw [List.count_cons_of_ne (by decide), List.count_cons_self, List.count_cons_self, ih]

/-- Apart from the ends of lines both texts begin with the same character. -/
theorem head?_eq_some_iff (h : WithReturns cs cs') {d : Char} (hreturn : d ≠ '\r') (hfeed : d ≠ '\n') :
    cs'.head? = some d ↔ cs.head? = some d := by
  cases h with
  | nil => exact Iff.rfl
  | char => exact Iff.rfl
  | feed => simp [hreturn.symm, hfeed.symm]

theorem tail (h : WithReturns cs cs') {d : Char} (hd : cs.head? = some d) (hfeed : d ≠ '\n') :
    WithReturns cs.tail cs'.tail := by
  cases h with
  | nil => exact .nil
  | char _ h => exact h
  | feed => exact absurd (Option.some.inj hd).symm hfeed

theorem of_cons_ne {c : Char} {ds : List Char} (h : WithReturns (c :: cs) ds) (hfeed : c ≠ '\n') :
    ∃ cs', ds = c :: cs' ∧ WithReturns cs cs' := by
  cases h with
  | char _ h => exact ⟨_, rfl, h⟩
  | feed => exact absurd rfl hfeed

theorem isPrefixOf_eq {lead : List Char} (hreturn : '\r' ∉ lead) (hfeed : '\n' ∉ lead)
    (h : WithReturns cs cs') : lead.isPrefixOf cs' = lead.isPrefixOf cs := by
  induction lead generalizing cs cs' with
  | nil => rw [List.isPrefixOf_nil_left, List.isPrefixOf_nil_left]
  | cons d lead ih =>
    obtain ⟨hreturn, hreturns⟩ := not_or.mp (mt List.mem_cons.mpr hreturn)
    obtain ⟨hfeed, hfeeds⟩ := not_or.mp (mt List.mem_cons.mpr hfeed)
    cases h with
    | nil => rfl
    | char _ h => rw [List.isPrefixOf_cons_cons, List.isPrefixOf_cons_cons, ih hreturns hfeeds h]
    | feed =>
      rw [List.isPrefixOf_cons_cons, List.isPrefixOf_cons_cons, beq_false_of_ne (Ne.symm hreturn),
        beq_false_of_ne (Ne.symm hfeed), Bool.false_and, Bool.false_and]

/-! ## Lines -/

/-- Induction along the lines of two texts, each line with the ending it has in the second. -/
@[elab_as_elim]
theorem lineInduction {motive : List Char → List Char → Prop}
    (last : ∀ line, '\n' ∉ line → (∀ c ∈ line, OneSpelling c) → motive line line)
    (next : ∀ line ending rest rest', '\n' ∉ line → (∀ c ∈ line, OneSpelling c) → IsReturn ending →
      WithReturns rest rest' → motive rest rest' →
      motive (line ++ '\n' :: rest) (line ++ (ending ++ '\n' :: rest')))
    (h : WithReturns cs cs') : motive cs cs' := by
  -- the line read so far stands before what is left of both texts
  suffices ∀ line, '\n' ∉ line → (∀ c ∈ line, OneSpelling c) → motive (line ++ cs) (line ++ cs') from
    this [] List.not_mem_nil (List.forall_mem_nil _)
  induction h with
  | nil =>
    intro line hline hspelling
    rw [List.append_nil]
    exact last line hline hspelling
  | @char c cs cs' hc h ih =>
    intro line hline hspelling
    by_cases hfeed : c = '\n'
    · rw [hfeed]
      exact next line [] cs cs' hline hspelling (.inl rfl) h
        (ih [] List.not_mem_nil (List.forall_mem_nil _))
    · have hnext := ih (line ++ [c]) (by simp [hline, Ne.symm hfeed]) fun d hd => by
        rcases List.mem_append.mp hd with hd | hd
        · exact hspelling d hd
        · rw [List.mem_singleton.mp hd]
          exact hc
      rwa [List.append_assoc, List.append_assoc] at hnext
  | @feed cs cs' h ih =>
    intro line hline hspelling
    exact next line ['\r'] cs cs' hline hspelling (.inr rfl) h
      (ih [] List.not_mem_nil (List.forall_mem_nil _))

end WithReturns

/-! ## Pieces of a source -/

variable {cs cs' : List Char}

theorem blockBody_cons (c : Char) (cs : List Char) : blockBody (c :: cs) =
    if c = '*' ∧ cs.head? = some '/' then ([], cs.tail) else (c :: (blockBody cs).1, (blockBody cs).2) := by
  split
  · rename_i h
    obtain ⟨rfl, hhead⟩ := h
    obtain ⟨cs, rfl⟩ := List.head?_eq_some_iff.mp hhead
    rfl
  · rename_i h
    rw [blockBody]
    rintro cs rfl rfl
    exact h ⟨rfl, rfl⟩

theorem blockBody_withReturns (h : WithReturns cs cs') :
    WithReturns (blockBody cs).1 (blockBody cs').1 ∧ WithReturns (blockBody cs).2 (blockBody cs').2 := by
  induction h with
  | nil => exact ⟨.nil, .nil⟩
  | @char c cs cs' hc h ih =>
    have hhead : cs'.head? = some '/' ↔ cs.head? = some '/' := h.head?_eq_some_iff (by decide) (by decide)
    rw [blockBody_cons, blockBody_cons]
    by_cases hclose : c = '*' ∧ cs.head? = some '/'
    · rw [if_pos hclose, if_pos ⟨hclose.1, hhead.mpr hclose.2⟩]
      exact ⟨.nil, h.tail hclose.2 (by decide)⟩
    · rw [if_neg hclose, if_neg fun hclose' => hclose ⟨hclose'.1, hhead.mp hclose'.2⟩]
      exact ⟨.char hc ih.1, ih.2⟩
  | @feed cs cs' h ih =>
    rw [blockBody_cons, blockBody_cons, blockBody_cons, if_neg (by simp), if_neg (by simp),
      if_neg (by simp)]
    exact ⟨.feed ih.1, ih.2⟩

/-- A line without its line feed may have a carriage return at its end. -/
theorem lineBody_withReturns (h : WithReturns cs cs') :
    (∃ ending, IsReturn ending ∧ (lineBody cs').1 = (lineBody cs).1 ++ ending) ∧
      WithReturns (lineBody cs).2 (lineBody cs').2 := by
  induction h with
  | nil => exact ⟨⟨[], .inl rfl, rfl⟩, .nil⟩
  | @char c cs cs' hc h ih =>
    obtain ⟨⟨ending, hending, hbody⟩, hrest⟩ := ih
    by_cases hfeed : c = '\n'
    · rw [hfeed]
      exact ⟨⟨[], .inl rfl, rfl⟩, .char oneSpelling_newline h⟩
    · rw [lineBody_cons_of_ne hfeed, lineBody_cons_of_ne hfeed]
      exact ⟨⟨ending, hending, by rw [hbody, List.cons_append]⟩, hrest⟩
  | feed h => exact ⟨⟨['\r'], .inr rfl, rfl⟩, .char oneSpelling_newline h⟩

theorem readLiteral_withReturns (h : WithReturns cs cs') :
    WithReturns (readLiteral cs).1.1 (readLiteral cs').1.1 ∧
      (readLiteral cs').1.2 = (readLiteral cs).1.2 ∧
      WithReturns (readLiteral cs).2 (readLiteral cs').2 := by
  induction h with
  | nil => exact ⟨.nil, rfl, .nil⟩
  | @char c cs cs' hc h ih =>
    obtain ⟨htext, hlines, hrest⟩ := ih
    by_cases hquote : c = '"'
    · rw [hquote]
      exact ⟨.char ⟨by decide, by decide⟩ .nil, rfl, h⟩
    · rw [readLiteral_cons (fun heq => absurd heq hc.2) hquote,
        readLiteral_cons (fun heq => absurd heq hc.2) hquote]
      exact ⟨.char hc htext, by rw [hlines], hrest⟩
  | @feed cs cs' h ih =>
    obtain ⟨htext, hlines, hrest⟩ := ih
    rw [readLiteral_cons (fun heq => absurd heq (by decide)) (by decide),
      readLiteral_cons (fun heq => absurd heq (by decide)) (by decide),
      readLiteral_cons (fun heq => absurd heq (by decide)) (by decide)]
    exact ⟨.feed htext, by simp [hlines], hrest⟩

/-- A function body ends at the same character and on the same line. -/
theorem skipBody_withReturns (h : WithReturns cs cs') (depth line : Nat) :
    WithReturns (skipBody depth line cs).1 (skipBody depth line cs').1 ∧
      (skipBody depth line cs').2 = (skipBody depth line cs).2 := by
  fun_induction skipBody depth line cs generalizing cs' with
  | case1 depth line =>
    cases h
    rw [skipBody]
    exact ⟨.nil, rfl⟩
  | case2 depth line cs ih =>
    cases h with
    | char _ hrest =>
      rw [skipBody]
      exact ih hrest
    | feed hrest =>
      rw [skipBody_cons (by decide) (fun heq => absurd heq (by decide)), skipBody]
      exact ih hrest
  | case3 depth line cs ih =>
    obtain ⟨_, rfl, hstar⟩ := h.of_cons_ne (by decide)
    obtain ⟨cs', rfl, hrest⟩ := hstar.of_cons_ne (by decide)
    rw [skipBody, (blockBody_withReturns hrest).1.newlines_eq]
    exact ih (blockBody_withReturns hrest).2
  | case4 depth line cs ih =>
    obtain ⟨_, rfl, hstar⟩ := h.of_cons_ne (by decide)
    obtain ⟨cs', rfl, hrest⟩ := hstar.of_cons_ne (by decide)
    rw [skipBody]
    exact ih (lineBody_withReturns hrest).2
  | case5 depth line cs ih =>
    obtain ⟨cs', rfl, hrest⟩ := h.of_cons_ne (by decide)
    rw [skipBody]
    exact ih (lineBody_withReturns hrest).2
  | case6 depth line cs ih =>
    obtain ⟨cs', rfl, hrest⟩ := h.of_cons_ne (by decide)
    obtain ⟨-, hlines, hafter⟩ := readLiteral_withReturns hrest
    rw [skipBody]
    change (Literal.read cs').lines = (Literal.read cs).lines at hlines
    rw [hlines]
    exact ih hafter
  | case7 depth line cs ih =>
    obtain ⟨cs', rfl, hrest⟩ := h.of_cons_ne (by decide)
    rw [skipBody]
    exact ih hrest
  | case8 line cs =>
    obtain ⟨cs', rfl, hrest⟩ := h.of_cons_ne (by decide)
    rw [skipBody]
    exact ⟨hrest, rfl⟩
  | case9 line cs depth ih =>
    obtain ⟨cs', rfl, hrest⟩ := h.of_cons_ne (by decide)
    rw [skipBody]
    exact ih hrest
  | case10 depth line c cs hfeed hblock hline hhash hquote hopen hclose ih =>
    obtain ⟨cs', rfl, hrest⟩ := h.of_cons_ne hfeed
    have hslash : c = '/' → cs'.head? ≠ some '*' ∧ cs'.head? ≠ some '/' := by
      intro hc
      rw [ne_eq, ne_eq, hrest.head?_eq_some_iff (by decide) (by decide),
        hrest.head?_eq_some_iff (by decide) (by decide)]
      refine ⟨fun hhead => ?_, fun hhead => ?_⟩
      · obtain ⟨rest, rfl⟩ := List.head?_eq_some_iff.mp hhead
        exact hblock rest hc rfl
      · obtain ⟨rest, rfl⟩ := List.head?_eq_some_iff.mp hhead
        exact hline rest hc rfl
    have hplain : c ∉ ['\n', '"', '#', '\x7b', '\x7d'] := by
      simp only [List.mem_cons, List.not_mem_nil, or_false, not_or]
      exact ⟨hfeed, hquote, hhash, hopen, hclose⟩
    rw [skipBody_cons hplain hslash]
    exact ih hrest

/-! ## Comments -/

theorem unixNewlines_withReturns (h : WithReturns cs cs') : unixNewlines cs' = cs := by
  induction h with
  | nil => rfl
  | char hc _ ih =>
    rw [unixNewlines, ih]
    rintro ds hreturn
    exact absurd hreturn hc.1
  | feed _ ih => rw [unixNewlines, ih]

/-- A comment has the same lines in both spellings. -/
theorem contentLines_withReturns (h : WithReturns cs cs') : contentLines cs' = contentLines cs := by
  have hself := unixNewlines_withReturns (.refl h.oneSpelling)
  rw [contentLines, contentLines, unixNewlines_withReturns h, hself]

theorem dropWhile_withReturns {p : Char → Bool} (hreturn : p '\r') (hfeed : p '\n')
    (h : WithReturns cs cs') : WithReturns (cs.dropWhile p) (cs'.dropWhile p) := by
  induction h with
  | nil => exact .nil
  | @char c cs cs' hc h ih =>
    by_cases hp : p c
    · rwa [List.dropWhile_cons_of_pos hp, List.dropWhile_cons_of_pos hp]
    · rw [List.dropWhile_cons_of_neg hp, List.dropWhile_cons_of_neg hp]
      exact .char hc h
  | feed _ ih =>
    rwa [List.dropWhile_cons_of_pos hfeed, List.dropWhile_cons_of_pos hreturn,
      List.dropWhile_cons_of_pos hfeed]

theorem rdropWhile_withReturns {p : Char → Bool} (hreturn : p '\r') (hfeed : p '\n')
    (h : WithReturns cs cs') : WithReturns (cs.rdropWhile p) (cs'.rdropWhile p) := by
  induction h with
  | nil => exact .nil
  | @char c cs cs' hc _ ih =>
    rw [rdropWhile_cons, rdropWhile_cons]
    by_cases hdrop : cs.rdropWhile p = [] ∧ p c
    · rw [if_pos hdrop, if_pos ⟨ih.eq_nil_iff.mpr hdrop.1, hdrop.2⟩]
      exact .nil
    · rw [if_neg hdrop, if_neg fun hdrop' => hdrop ⟨ih.eq_nil_iff.mp hdrop'.1, hdrop'.2⟩]
      exact .char hc ih
  | @feed cs cs' _ ih =>
    rw [rdropWhile_cons, rdropWhile_cons, rdropWhile_cons]
    by_cases hrest : cs.rdropWhile p = []
    · simp only [hrest, ih.eq_nil_iff.mpr hrest, hfeed, hreturn, and_self, if_true]
      exact .nil
    · have hrest' : cs'.rdropWhile p ≠ [] := mt ih.eq_nil_iff.mp hrest
      simp only [hrest, hrest', false_and, if_false, List.cons_ne_nil]
      exact .feed ih

theorem trim_withReturns (h : WithReturns cs cs') : WithReturns (trim cs) (trim cs') := by
  rw [trim_eq_strip, trim_eq_strip]
  exact rdropWhile_withReturns (by decide) (by decide) (dropWhile_withReturns (by decide) (by decide) h)

theorem withoutLead_space_append (cs : List Char) :
    withoutLead [' '] (cs ++ ['\r']) = withoutLead [' '] cs ++ ['\r'] := by
  cases cs with
  | nil => rfl
  | cons c cs =>
    by_cases hc : ' ' = c
    · subst hc
      rfl
    · rw [List.cons_append, withoutLead_eq_self, withoutLead_eq_self, List.cons_append] <;>
        simp [List.isPrefixOf_cons_cons, hc]

/-- A carriage return at the end of a line stays there or goes with the margin. -/
theorem withoutMargin_append (line : List Char) {ending : List Char} (hending : IsReturn ending) :
    ∃ ending', IsReturn ending' ∧ withoutMargin (line ++ ending) = withoutMargin line ++ ending' := by
  rcases hending with rfl | rfl
  · exact ⟨[], .inl rfl, by rw [List.append_nil, List.append_nil]⟩
  · have hdrop := @List.dropWhile_append _ isMarginBlank line ['\r']
    cases hline : line.dropWhile isMarginBlank with
    | nil =>
      refine ⟨[], .inl rfl, ?_⟩
      rw [hline] at hdrop
      have hplain : ∀ text : List Char, text.dropWhile isMarginBlank = [] → withoutMargin text = [] := by
        intro text htext
        rw [withoutMargin_of_not_starred (by rw [htext]; decide), htext]
      rw [hplain _ hdrop, hplain _ hline, List.append_nil]
    | cons c cs =>
      refine ⟨['\r'], .inr rfl, ?_⟩
      rw [hline] at hdrop
      by_cases hc : c = '*'
      · subst hc
        rw [withoutMargin_of_starred hdrop, withoutMargin_of_starred hline]
        exact withoutLead_space_append cs
      · have hstarred : ∀ ds, ¬ starred (c :: ds) := by
          intro ds h
          obtain ⟨_, heq⟩ := starred_iff.mp h
          exact hc (List.cons.inj heq).1
        rw [withoutMargin_of_not_starred (by rw [hdrop]; exact hstarred _), hdrop,
          withoutMargin_of_not_starred (by rw [hline]; exact hstarred _), hline]
        rfl

theorem withoutOpening_withReturns (h : WithReturns cs cs') :
    WithReturns (withoutOpening cs) (withoutOpening cs') := by
  cases h with
  | nil => exact .nil
  | @char c cs cs' hc h =>
    by_cases hstar : c = '*'
    · subst hstar
      exact h
    · rw [withoutOpening_of_ne fun _ heq => hstar (List.cons.inj heq).1,
        withoutOpening_of_ne fun _ heq => hstar (List.cons.inj heq).1]
      exact .char hc h
  | feed h => exact .feed h

def withoutMargins (cs : List Char) : List Char :=
  joinWith ['\n'] ((cs.splitOn '\n').map withoutMargin)

theorem withoutMargins_line {line : List Char} (h : '\n' ∉ line) (rest : List Char) :
    withoutMargins (line ++ '\n' :: rest) = withoutMargin line ++ '\n' :: withoutMargins rest := by
  rw [withoutMargins, List.splitOn_append_cons_self_of_not_mem h, List.map_cons, joinWith,
    List.intercalate_cons_of_ne_nil (by simp), List.append_assoc]
  rfl

theorem withoutMargins_withReturns (h : WithReturns cs cs') :
    WithReturns (withoutMargins cs) (withoutMargins cs') := by
  have hmargin : ∀ line : List Char, (∀ c ∈ line, OneSpelling c) →
      ∀ c ∈ withoutMargin line, OneSpelling c :=
    fun line hspelling c hc => hspelling c ((withoutMargin_isInfix line).subset hc)
  refine h.lineInduction ?_ ?_
  · intro line hline hspelling
    rw [withoutMargins, List.splitOn_eq_singleton hline, List.map_singleton, joinWith,
      List.intercalate_singleton]
    exact .refl (hmargin line hspelling)
  · intro line ending rest rest' hline hspelling hending hrest ih
    obtain ⟨ending', hending', hkept⟩ := withoutMargin_append line hending
    have hline' : '\n' ∉ line ++ ending := by
      rcases hending with rfl | rfl <;> simp [hline]
    rw [← List.append_assoc, withoutMargins_line hline, withoutMargins_line hline', hkept, List.append_assoc]
    exact (WithReturns.refl (hmargin line hspelling)).append (ih.newline hending')

theorem blockContent_withReturns (h : WithReturns cs cs') :
    WithReturns (blockContent cs) (blockContent cs') :=
  trim_withReturns (withoutMargins_withReturns (withoutOpening_withReturns h))

theorem lineContent_append (body : List Char) {ending : List Char} (hending : IsReturn ending) :
    lineContent (body ++ ending) = lineContent body := by
  have hdrop : ∀ p : Char → Bool, p '\r' → dropEndWhile p (body ++ ending) = dropEndWhile p body := by
    intro p hp
    rcases hending with rfl | rfl <;> simp [dropEndWhile, hp]
  rw [lineContent, hdrop _ (by decide), lineContent]

theorem lineContent_subset (body : List Char) : lineContent body ⊆ body := by
  have hdrop : ∀ p : Char → Bool, dropEndWhile p body ⊆ body := fun p =>
    (List.rdropWhile_prefix p body).subset
  rw [lineContent]
  split
  · rename_i hspace
    exact fun c hc => hdrop _ (hspace ▸ List.mem_cons_of_mem _ hc)
  · exact hdrop _

/-! ## Words -/

/-- Two texts that have the same words whatever follows them. -/
def SameWords (cs cs' : List Char) : Prop := ∀ ds, words (cs ++ ds) = words (cs' ++ ds)

theorem SameWords.refl (cs : List Char) : SameWords cs cs := fun _ => rfl

theorem SameWords.words_eq (h : SameWords cs cs') : words cs = words cs' := by
  have hnil := h []
  rwa [List.append_nil, List.append_nil] at hnil

theorem words_append_gap {gap : List Char} (hne : gap ≠ []) (hgap : gap.all isBlank) (cs ds : List Char) :
    words (cs ++ gap ++ ds) = words cs ++ words ds := by
  obtain ⟨c, gap, rfl⟩ := List.exists_cons_of_ne_nil hne
  rw [List.all_cons, Bool.and_eq_true] at hgap
  rw [List.append_assoc, List.cons_append, words_append_blank hgap.1,
    words_blanks_append (List.all_eq_true.mp hgap.2)]

/-- How many blanks stand between two words does not count. -/
theorem SameWords.gap (h : SameWords cs cs') {gap gap' : List Char} (hne : gap ≠ []) (hne' : gap' ≠ [])
    (hgap : gap.all isBlank) (hgap' : gap'.all isBlank) : SameWords (cs ++ gap) (cs' ++ gap') := by
  intro ds
  rw [words_append_gap hne hgap, words_append_gap hne' hgap', h.words_eq]

theorem SameWords.append (h : SameWords cs cs') {ds ds' : List Char} (h' : WithReturns ds ds') :
    SameWords (cs ++ ds) (cs' ++ ds') := by
  induction h' generalizing cs cs' with
  | nil => rwa [List.append_nil, List.append_nil]
  | @char c ds ds' hc _ ih =>
    have hchar : SameWords (cs ++ [c]) (cs' ++ [c]) := by
      intro es
      rw [List.append_assoc, List.append_assoc]
      exact h ([c] ++ es)
    have hnext := ih hchar
    rwa [List.append_assoc, List.append_assoc] at hnext
  | @feed ds ds' _ ih =>
    have hfeed : SameWords (cs ++ ['\n']) (cs' ++ ['\r', '\n']) :=
      h.gap (List.cons_ne_nil _ _) (List.cons_ne_nil _ _) (by decide) (by decide)
    have hnext := ih hfeed
    rwa [List.append_assoc, List.append_assoc] at hnext

end Source

end OverloadDocs
