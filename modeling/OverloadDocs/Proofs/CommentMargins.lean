import OverloadDocs.Comment.Normalize
import OverloadDocs.Proofs.Trimming
import OverloadDocs.Source.Scan

/-!
The margins of block comments. The scanner takes a margin of stars off the lines of a block comment before
the comment is read, and the reader of comments takes one off when it is given the comment as it stands. Both
leave the same lines as long as what is left after one margin is not taken for decoration again.
-/

namespace OverloadDocs.Comment

open Text Source.Scanner

theorem Dialect.ofLines_eq (lines : List (List Char)) :
    Dialect.ofLines lines =
      if (lines.map trim).any (·.head? == some '@') then .braceTag else .fieldList := by
  rw [Dialect.ofLines, List.any_map]
  rfl

theorem normalize_congr {raw raw' : String}
    (h : (contentLines raw.toList).map trim = (contentLines raw'.toList).map trim)
    (signature : Option Signature) : normalize raw signature = normalize raw' signature := by
  simp only [normalize, Dialect.ofLines_eq, h]

/-- The body of a block comment without the second star of its opening. -/
def withoutOpening : List Char → List Char
  | '*' :: cs => cs
  | cs => cs

theorem blockContent_eq (body : List Char) :
    blockContent body =
      trim (joinWith ['\n'] (((withoutOpening body).splitOn '\n').map withoutMargin)) :=
  rfl

/-- Whether a text starts as a comment does. -/
def opensComment (cs : List Char) : Bool :=
  ['/', '/'].isPrefixOf cs || ['/', '*'].isPrefixOf cs

/-- A blank that may stand before the star of a margin. -/
def isMarginBlank (c : Char) : Bool := c == ' ' || c == '\t' || c == '\r'

/-- Lines of a block comment that have no more than their margin: a star at the front has only blanks of
margins before it, no line starts another comment behind its margin, and without the margins the lines are
not decorated. -/
structure SingleMargin (lines : List (List Char)) : Prop where
  margins : ∀ line ∈ lines, starred (trim line) → starred (line.dropWhile isMarginBlank)
  plain : ∀ line ∈ lines, opensComment (trim (withoutMargin line)) = false
  undecorated : decorated (lines.map withoutMargin) = false

/-! ## One line -/

theorem trim_opening (cs : List Char) :
    trim ('/' :: '*' :: cs) = '/' :: '*' :: cs.rdropWhile isBlank := by
  rw [trim_cons_solid (by decide), rdropWhile_cons_of_neg (by decide)]

theorem rdropWhile_ending (cs : List Char) :
    (cs ++ ['*', '/']).rdropWhile isBlank = cs ++ ['*', '/'] := by
  rw [List.append_cons, List.rdropWhile_concat_neg _ _ _ (by decide)]

theorem withoutDelimiters_trim (line : List Char) :
    withoutDelimiters (trim line) = withoutDelimiters line := by
  rw [withoutDelimiters, trim_trim, withoutDelimiters]

theorem withoutStar_trim (line : List Char) : withoutStar (trim line) = withoutStar line := by
  rw [withoutStar, trim_trim, withoutStar]

theorem withoutLead_suffix (lead cs : List Char) : withoutLead lead cs <:+ cs := by
  rw [withoutLead]
  split
  · exact List.drop_suffix _ _
  · exact List.suffix_refl _

theorem withoutLead_eq_self {lead cs : List Char} (h : lead.isPrefixOf cs = false) :
    withoutLead lead cs = cs := by
  rw [withoutLead, h]
  rfl

/-- A text that does not begin with the opening of a comment does not begin with two stars after it. -/
theorem isPrefixOf_doc {cs : List Char} (h : ['/', '*'].isPrefixOf cs = false) :
    ['/', '*', '*'].isPrefixOf cs = false := by
  cases hlead : ['/', '*', '*'].isPrefixOf cs with
  | false => rfl
  | true =>
      have hshort : ['/', '*'] <+: cs :=
        (List.prefix_append ['/', '*'] ['*']).trans (List.isPrefixOf_iff_prefix.mp hlead)
      simp [List.isPrefixOf_iff_prefix.mpr hshort] at h

theorem opensComment_eq_false {cs : List Char} (h : opensComment cs = false) :
    ['/', '/'].isPrefixOf cs = false ∧ ['/', '*'].isPrefixOf cs = false :=
  Bool.or_eq_false_iff.mp h

theorem trim_withoutLead_space (cs : List Char) : trim (withoutLead [' '] cs) = trim cs := by
  rw [withoutLead]
  split
  · rename_i h
    obtain ⟨rest, rfl⟩ := List.isPrefixOf_iff_prefix.mp h
    exact (trim_cons_blank (by decide) rest).symm
  · rfl

theorem isBlank_of_isMarginBlank {c : Char} (h : isMarginBlank c) : isBlank c := by
  simp only [isMarginBlank, Bool.or_eq_true, beq_iff_eq] at h
  rcases h with (rfl | rfl) | rfl <;> decide

theorem trim_dropWhile_isMarginBlank (line : List Char) :
    trim (line.dropWhile isMarginBlank) = trim line :=
  strip_dropWhile (fun _ => isBlank_of_isMarginBlank) line

/-- The star of a margin takes one space with it, and no space needs to be there. -/
theorem withoutMargin_of_starred {line cs : List Char} (h : line.dropWhile isMarginBlank = '*' :: cs) :
    withoutMargin line = withoutLead [' '] cs := by
  have hdrop : line.dropWhile (fun c => c == ' ' || c == '\t' || c == '\r') = '*' :: cs := h
  rw [withoutMargin, hdrop]
  cases cs with
  | nil => rfl
  | cons c cs =>
      by_cases hc : ' ' = c
      · subst hc
        rfl
      · rw [withoutLead_eq_self (by simpa [List.isPrefixOf] using hc)]
        simp [Ne.symm hc]

theorem withoutMargin_of_not_starred {line : List Char}
    (h : ¬ starred (line.dropWhile isMarginBlank)) :
    withoutMargin line = line.dropWhile isMarginBlank := by
  have hdrop : line.dropWhile isMarginBlank =
      line.dropWhile (fun c => c == ' ' || c == '\t' || c == '\r') := rfl
  rw [hdrop] at h ⊢
  rw [withoutMargin]
  split
  · rename_i heq
    simp [heq, starred] at h
  · rename_i heq
    simp [heq, starred] at h
  · rfl

theorem starred_iff {cs : List Char} : starred cs ↔ ∃ rest, cs = '*' :: rest := by
  rw [starred.eq_def]
  split
  · simp
  · rename_i hne
    simpa using hne

/-- A line with at most a margin has the same text after either way of taking it off. -/
theorem trim_withoutStar_eq {line : List Char}
    (h : starred (trim line) → starred (line.dropWhile isMarginBlank)) :
    trim (withoutStar line) = trim (withoutMargin line) := by
  have hdrop := trim_dropWhile_isMarginBlank line
  by_cases hstar : starred (line.dropWhile isMarginBlank)
  · obtain ⟨cs, hcs⟩ := starred_iff.mp hstar
    rw [hcs, trim_cons_solid (by decide)] at hdrop
    rw [withoutMargin_of_starred hcs, withoutStar, ← hdrop]
    rw [trim_withoutLead_space]
    change trim (withoutLead [' '] (cs.rdropWhile isBlank)) = trim cs
    rw [trim_withoutLead_space]
    exact strip_rdropWhile (fun _ h => h) cs
  · have hnot : ¬ starred (trim line) := mt h hstar
    rw [withoutMargin_of_not_starred hstar, hdrop, withoutStar]
    split
    · rename_i heq
      simp [heq, starred] at hnot
    · exact trim_trim line

/-- What is left of a line once the opening of a comment is taken off. -/
def afterOpening (cs : List Char) : List Char :=
  dropEndWhile (fun c => c == ' ' || c == '\t') (withoutLead ['/', '/'] (withoutTail ['*', '/'] cs))

theorem withoutDelimiters_eq (line : List Char) :
    withoutDelimiters line =
      afterOpening (withoutLead ['/', '*'] (withoutLead ['/', '*', '*'] (trim line))) := rfl

theorem trim_dropEndWhile_blank (cs : List Char) :
    trim (dropEndWhile (fun c => c == ' ' || c == '\t') cs) = trim cs := by
  apply strip_rdropWhile
  intro c hc
  simp only [Bool.or_eq_true, beq_iff_eq] at hc
  rcases hc with rfl | rfl <;> decide

theorem withoutTail_eq_self {tail cs : List Char} (h : ¬ tail <:+ cs) : withoutTail tail cs = cs := by
  rw [withoutTail, if_neg]
  exact mt List.isSuffixOf_iff_suffix.mp h

theorem trim_afterOpening {cs : List Char} (hend : ¬ ['*', '/'] <:+ cs)
    (hopen : opensComment cs = false) : trim (afterOpening cs) = trim cs := by
  rw [afterOpening, withoutTail_eq_self hend, withoutLead_eq_self (opensComment_eq_false hopen).1,
    trim_dropEndWhile_blank]

theorem trim_afterOpening_end {cs : List Char} (hopen : opensComment cs = false) :
    trim (afterOpening (cs ++ ['*', '/'])) = trim cs := by
  have htail : withoutTail ['*', '/'] (cs ++ ['*', '/']) = cs := by
    rw [withoutTail, if_pos (List.isSuffixOf_iff_suffix.mpr (List.suffix_append ..))]
    simp
  rw [afterOpening, htail, withoutLead_eq_self (opensComment_eq_false hopen).1,
    trim_dropEndWhile_blank]

theorem opensComment_iff {cs : List Char} :
    opensComment cs ↔ ∃ c rest, cs = '/' :: c :: rest ∧ (c = '/' ∨ c = '*') := by
  match cs with
  | [] => simp [opensComment]
  | [c] => simp [opensComment, List.isPrefixOf]
  | c :: d :: rest =>
      simp only [opensComment, List.isPrefixOf, Bool.or_eq_true, Bool.and_eq_true, beq_iff_eq,
        and_true, List.cons.injEq]
      constructor
      · rintro (⟨rfl, rfl⟩ | ⟨rfl, rfl⟩)
        · exact ⟨_, _, ⟨rfl, rfl, rfl⟩, .inl rfl⟩
        · exact ⟨_, _, ⟨rfl, rfl, rfl⟩, .inr rfl⟩
      · rintro ⟨_, _, ⟨rfl, rfl, rfl⟩, rfl | rfl⟩
        · exact .inl ⟨rfl, rfl⟩
        · exact .inr ⟨rfl, rfl⟩

/-- Trimming keeps what a text opens. -/
theorem opensComment_of_trim {cs : List Char} (h : opensComment (trim cs) = false) :
    opensComment cs = false := by
  by_contra hopen
  obtain ⟨c, rest, rfl, hc⟩ := opensComment_iff.mp (Bool.not_eq_false _ ▸ hopen)
  have hsolid : isBlank c = false := by rcases hc with rfl | rfl <;> decide
  rw [trim_cons_solid (by decide), rdropWhile_cons_of_neg hsolid] at h
  simp [opensComment_iff.mpr ⟨c, _, rfl, hc⟩] at h

theorem trim_withoutDelimiters {line : List Char} (hend : ¬ ['*', '/'] <:+ trim line)
    (hopen : opensComment (trim line) = false) :
    trim (withoutDelimiters line) = trim line := by
  obtain ⟨-, hblock⟩ := opensComment_eq_false hopen
  rw [withoutDelimiters_eq, withoutLead_eq_self (isPrefixOf_doc hblock),
    withoutLead_eq_self hblock, trim_afterOpening hend hopen, trim_trim]

theorem withoutOpening_suffix (cs : List Char) : withoutOpening cs <:+ cs := by
  rw [withoutOpening.eq_def]
  split
  · exact List.suffix_cons _ _
  · exact List.suffix_refl _

theorem withoutOpening_of_ne {cs : List Char} (h : ∀ rest, cs ≠ '*' :: rest) :
    withoutOpening cs = cs := by
  rw [withoutOpening.eq_def]
  split
  · exact absurd rfl (h _)
  · rfl

theorem withoutOpening_append {cs ds : List Char} (h : cs = [] → ∀ rest, ds ≠ '*' :: rest) :
    withoutOpening (cs ++ ds) = withoutOpening cs ++ ds := by
  cases cs with
  | nil => exact withoutOpening_of_ne (h rfl)
  | cons c cs =>
      by_cases hc : c = '*'
      · subst hc
        rfl
      · rw [withoutOpening_of_ne, withoutOpening_of_ne] <;>
          exact fun rest h => hc (List.cons.inj h).1

/-- The opening of a comment is taken off once, with a star behind it. -/
theorem withoutLead_opening {cs : List Char} (h : ∀ rest, cs = '*' :: rest → rest.head? ≠ some '/') :
    withoutLead ['/', '*'] (withoutLead ['/', '*', '*'] ('/' :: '*' :: cs)) = withoutOpening cs := by
  by_cases hstar : ∃ rest, cs = '*' :: rest
  · obtain ⟨rest, rfl⟩ := hstar
    have hrest := h rest rfl
    change withoutLead ['/', '*'] rest = rest
    cases rest with
    | nil => rfl
    | cons c rest =>
        have hc : '/' ≠ c := by
          rintro rfl
          exact hrest rfl
        rw [withoutLead_eq_self]
        simp [List.isPrefixOf, hc]
  · have hne : ∀ rest, cs ≠ '*' :: rest := fun rest hcs => hstar ⟨rest, hcs⟩
    have hdoc : ['/', '*', '*'].isPrefixOf ('/' :: '*' :: cs) = false := by
      cases cs with
      | nil => rfl
      | cons c cs =>
          have hc : c ≠ '*' := fun hc => hne cs (by rw [hc])
          simpa [List.isPrefixOf] using Ne.symm hc
    rw [withoutLead_eq_self hdoc, withoutOpening_of_ne hne]
    rfl

/-- The first line of a block comment with more lines. -/
theorem trim_withoutDelimiters_first {line : List Char} (hend : ¬ ['*', '/'] <:+: line)
    (hopen : opensComment (trim (withoutOpening line)) = false) :
    trim (withoutDelimiters ('/' :: '*' :: line)) = trim (withoutOpening line) := by
  have hprefix : line.rdropWhile isBlank <+: line := List.rdropWhile_prefix _ _
  have hopening : withoutOpening (line.rdropWhile isBlank) =
      (withoutOpening line).rdropWhile isBlank := by
    by_cases hstar : ∃ rest, line = '*' :: rest
    · obtain ⟨rest, rfl⟩ := hstar
      rw [rdropWhile_cons_of_neg (by decide)]
      rfl
    · have hne : ∀ rest, line ≠ '*' :: rest := fun rest h => hstar ⟨rest, h⟩
      rw [withoutOpening_of_ne hne, withoutOpening_of_ne]
      intro rest hrest
      obtain ⟨back, hback⟩ := hrest ▸ hprefix
      exact hne _ hback.symm
  have htrim : trim ((withoutOpening line).rdropWhile isBlank) = trim (withoutOpening line) :=
    strip_rdropWhile (fun _ h => h) _
  rw [withoutDelimiters_eq, trim_opening,
    withoutLead_opening, hopening, trim_afterOpening, htrim]
  · intro hpart
    rw [← hopening] at hpart
    exact hend ((hpart.trans (withoutOpening_suffix _)).isInfix.trans hprefix.isInfix)
  · exact opensComment_of_trim (by rw [htrim]; exact hopen)
  · intro rest hrest hhead
    obtain ⟨tail, rfl⟩ := List.head?_eq_some_iff.mp hhead
    have hpart : ['*', '/'] <:+: line.rdropWhile isBlank := by
      rw [hrest]
      exact (List.prefix_append ['*', '/'] tail).isInfix
    exact hend (hpart.trans hprefix.isInfix)

/-- The last line of a block comment with more lines. -/
theorem trim_withoutDelimiters_last {line : List Char} (hopen : opensComment (trim line) = false) :
    trim (withoutDelimiters (line ++ ['*', '/'])) = trim line := by
  have htrim : trim (line ++ ['*', '/']) = line.dropWhile isBlank ++ ['*', '/'] := by
    have hdrop : (line ++ ['*', '/']).dropWhile isBlank = line.dropWhile isBlank ++ ['*', '/'] := by
      rw [List.dropWhile_append]
      split
      · rename_i hnil
        rw [List.isEmpty_iff.mp hnil]
        rfl
      · rfl
    rw [trim_eq_strip, strip, hdrop, rdropWhile_ending]
  have hrest : trim (line.dropWhile isBlank) = trim line := strip_dropWhile (fun _ h => h) line
  have hopen' : opensComment (line.dropWhile isBlank) = false :=
    opensComment_of_trim (by rw [hrest]; exact hopen)
  rw [withoutDelimiters_eq, htrim, ← hrest]
  generalize line.dropWhile isBlank = cs at hopen'
  -- a slash alone is joined with the end of the comment, and the end is taken off all the same
  by_cases hslash : cs = ['/']
  · subst hslash
    rfl
  · have hlead : ['/', '*'].isPrefixOf (cs ++ ['*', '/']) = false := by
      cases cs with
      | nil => rfl
      | cons c cs =>
          cases cs with
          | nil =>
              have hc : '/' ≠ c := fun hc => hslash (by rw [hc])
              simp [List.isPrefixOf, hc]
          | cons d cs => simpa [List.isPrefixOf] using (opensComment_eq_false hopen').2
    rw [withoutLead_eq_self (isPrefixOf_doc hlead), withoutLead_eq_self hlead,
      trim_afterOpening_end hopen']

/-- The only line of a block comment. -/
theorem trim_withoutDelimiters_only {body : List Char} (hne : body ≠ [])
    (hend : ¬ ['*', '/'] <:+: body) (hopen : opensComment (trim (withoutOpening body)) = false) :
    trim (withoutDelimiters ('/' :: '*' :: (body ++ ['*', '/']))) = trim (withoutOpening body) := by
  have htrim : trim ('/' :: '*' :: (body ++ ['*', '/'])) = '/' :: '*' :: (body ++ ['*', '/']) := by
    rw [trim_opening, rdropWhile_ending]
  have hopening : withoutOpening (body ++ ['*', '/']) = withoutOpening body ++ ['*', '/'] :=
    withoutOpening_append fun h => absurd h hne
  rw [withoutDelimiters_eq, htrim, withoutLead_opening, hopening,
    trim_afterOpening_end (opensComment_of_trim hopen)]
  intro rest hrest hhead
  obtain ⟨c, body, rfl⟩ := List.exists_cons_of_ne_nil hne
  cases hrest
  cases body with
  | nil => cases hhead
  | cons d body =>
      cases hhead
      exact hend (List.prefix_append ['*', '/'] body).isInfix

/-! ## All lines -/

theorem decorated_congr {lines lines' : List (List Char)}
    (h : (lines.map trim).filter (· ≠ []) = (lines'.map trim).filter (· ≠ [])) :
    decorated lines = decorated lines' := by
  rw [decorated, h, decorated]

theorem map_eq_self {α : Type} {f : α → α} {l : List α} (h : ∀ x ∈ l, f x = x) : l.map f = l :=
  (List.map_congr_left h).trans (List.map_id l)

theorem map_withoutDelimiters_lineTexts {α : Type} (f : List Char → α) (cs : List Char) :
    (lineTexts cs).map (f ∘ withoutDelimiters) = (cs.splitOn '\n').map (f ∘ withoutDelimiters) := by
  rw [lineTexts, List.map_map]
  exact List.map_congr_left fun line _ => congrArg f (withoutDelimiters_trim line)

theorem map_trim_lineTexts (cs : List Char) : (lineTexts cs).map trim = lineTexts cs := by
  rw [lineTexts, List.map_map]
  exact List.map_congr_left fun line _ => trim_trim line

/-- The texts of the lines that a comment is read from. -/
theorem map_trim_contentLines (raw : List Char) :
    (contentLines raw).map trim = withoutEmptyEnds
      ((if ['/', '*'].isPrefixOf (trim (unixNewlines raw)) ||
          decorated ((lineTexts raw).map withoutDelimiters) then
        ((lineTexts raw).map withoutDelimiters).map withoutStar
      else (lineTexts raw).map withoutDelimiters).map trim) := by
  have hlines : ((unixNewlines raw).splitOn '\n').map withoutDelimiters =
      (lineTexts raw).map withoutDelimiters := by
    rw [← lineTexts_unixNewlines]
    exact (map_withoutDelimiters_lineTexts id (unixNewlines raw)).symm
  rw [contentLines, hlines, map_trim_withoutBlankEnds]

theorem exists_lineText_of_opening {raw : List Char} (h : ['/', '*'].isPrefixOf (trim raw)) :
    ∃ line ∈ lineTexts raw, ['/', '*'].isPrefixOf line := by
  induction raw with
  | nil => cases h
  | cons c raw ih =>
      by_cases hc : isBlank c
      · rw [trim_cons_blank hc] at h
        obtain ⟨line, hline, hprefix⟩ := ih h
        refine ⟨line, ?_, hprefix⟩
        by_cases hnewline : c = '\n'
        · subst hnewline
          rw [lineTexts, splitOn_cons_self]
          exact List.mem_cons_of_mem _ hline
        · rwa [lineTexts_cons_blank hc hnewline]
      · rw [trim_cons_solid (by simpa using hc), List.isPrefixOf_iff_prefix,
          List.cons_prefix_cons] at h
        obtain ⟨rfl, h⟩ := h
        obtain ⟨tail, rfl⟩ := h.trans (List.rdropWhile_prefix _ _)
        obtain ⟨line, lines, htail⟩ := List.exists_cons_of_ne_nil (List.splitOn_ne_nil '\n' tail)
        have hsplit : ('/' :: '*' :: tail).splitOn '\n' = ('/' :: '*' :: line) :: lines :=
          splitOn_cons_of_ne (by decide) (splitOn_cons_of_ne (by decide) htail)
        refine ⟨trim ('/' :: '*' :: line), ?_, ?_⟩
        · change _ ∈ (('/' :: '*' :: tail).splitOn '\n').map trim
          rw [hsplit]
          exact List.mem_cons_self
        · rw [trim_opening]
          rfl

/-- Outside a block comment lines that are not decorated only lose delimiters. -/
theorem map_trim_contentLines_undecorated {raw : List Char}
    (hopen : ∀ line ∈ lineTexts raw, ['/', '*'].isPrefixOf line = false)
    (hdecorated : decorated ((lineTexts raw).map withoutDelimiters) = false) :
    (contentLines raw).map trim =
      withoutEmptyEnds (((lineTexts raw).map withoutDelimiters).map trim) := by
  have hblock : ['/', '*'].isPrefixOf (trim (unixNewlines raw)) = false := by
    cases hblock : ['/', '*'].isPrefixOf (trim (unixNewlines raw)) with
    | false => rfl
    | true =>
        obtain ⟨line, hline, hprefix⟩ := exists_lineText_of_opening hblock
        rw [lineTexts_unixNewlines] at hline
        simp [hopen line hline] at hprefix
  rw [map_trim_contentLines, hblock, hdecorated]
  rfl

/-- Lines that show no delimiters and are not decorated are read as they are. -/
theorem map_trim_contentLines_plain {raw : List Char}
    (hopen : ∀ line ∈ lineTexts raw, opensComment line = false)
    (hend : ∀ line ∈ lineTexts raw, ¬ ['*', '/'] <:+ line)
    (hdecorated : decorated (lineTexts raw) = false) :
    (contentLines raw).map trim = withoutEmptyEnds (lineTexts raw) := by
  have htrim : ∀ line ∈ lineTexts raw, trim line = line := by
    intro line hline
    obtain ⟨text, -, rfl⟩ := List.mem_map.mp hline
    exact trim_trim text
  have hlines : ((lineTexts raw).map withoutDelimiters).map trim = lineTexts raw := by
    rw [List.map_map]
    refine map_eq_self fun line hline => ?_
    have hline' := htrim line hline
    rw [Function.comp_apply, trim_withoutDelimiters, hline']
    · rw [hline']
      exact hend line hline
    · rw [hline']
      exact hopen line hline
  have hdecorated' : decorated ((lineTexts raw).map withoutDelimiters) = false := by
    rw [← hdecorated]
    apply decorated_congr
    rw [hlines, map_trim_lineTexts]
  rw [map_trim_contentLines_undecorated _ hdecorated', hlines]
  exact fun line hline => (opensComment_eq_false (hopen line hline)).2

theorem opensComment_of_margin {line : List Char}
    (h : opensComment (trim (withoutMargin line)) = false) : opensComment (trim line) = false := by
  by_cases hstar : starred (line.dropWhile isMarginBlank)
  · obtain ⟨cs, hcs⟩ := starred_iff.mp hstar
    rw [← trim_dropWhile_isMarginBlank, hcs, trim_cons_solid (by decide)]
    rfl
  · rwa [withoutMargin_of_not_starred hstar, trim_dropWhile_isMarginBlank] at h

theorem withoutMargin_isInfix (line : List Char) : withoutMargin line <:+: line := by
  have hsuffix : line.dropWhile isMarginBlank <:+: line := (List.dropWhile_suffix _).isInfix
  by_cases hstar : starred (line.dropWhile isMarginBlank)
  · obtain ⟨cs, hcs⟩ := starred_iff.mp hstar
    rw [hcs] at hsuffix
    rw [withoutMargin_of_starred hcs]
    exact ((withoutLead_suffix [' '] cs).trans (List.suffix_cons _ _)).isInfix.trans hsuffix
  · rwa [withoutMargin_of_not_starred hstar]

/-- The lines of a block comment over several lines, without its delimiters. -/
theorem map_trim_withoutDelimiters_lines {first rest : List Char} (hfirst : '\n' ∉ first)
    (hend : ¬ ['*', '/'] <:+: first ++ '\n' :: rest)
    (hopen : ∀ line ∈ withoutOpening first :: rest.splitOn '\n', opensComment (trim line) = false) :
    (lineTexts (('/' :: '*' :: first) ++ '\n' :: (rest ++ ['*', '/']))).map (trim ∘ withoutDelimiters) =
      (withoutOpening first :: rest.splitOn '\n').map trim := by
  obtain ⟨lines, line, hrest, hlast⟩ := splitOn_append_right rest ['*', '/'] (by decide)
  obtain ⟨hopenFirst, hopenRest⟩ := List.forall_mem_cons.mp hopen
  have hmiddle : lines.map (trim ∘ withoutDelimiters) = lines.map trim := by
    refine List.map_congr_left fun x hx => ?_
    rw [Function.comp_apply, trim_withoutDelimiters]
    · intro hpart
      apply hend
      have hx : x ∈ rest.splitOn '\n' := by simp [hrest, hx]
      have hbody : rest <:+: first ++ '\n' :: rest := ⟨first ++ ['\n'], [], by simp⟩
      exact ((hpart.isInfix.trans (trim_isInfix x)).trans (infix_of_mem_splitOn hx)).trans hbody
    · exact hopenRest x (by simp [hrest, hx])
  have hendFirst : ¬ ['*', '/'] <:+: first := fun hpart =>
    hend (hpart.trans (List.prefix_append _ _).isInfix)
  have hfirstLine := trim_withoutDelimiters_first hendFirst hopenFirst
  have hlastLine := trim_withoutDelimiters_last (hopenRest line (by simp [hrest]))
  have hcomment : ('/' :: '*' :: first ++ '\n' :: (rest ++ ['*', '/'])).splitOn '\n' =
      ('/' :: '*' :: first) :: (lines ++ [line ++ ['*', '/']]) := by
    rw [List.splitOn_append_cons_self_of_not_mem (by simpa using hfirst), hlast]
  rw [map_withoutDelimiters_lineTexts, hcomment, hrest]
  simp only [List.map_cons, List.map_append, List.map_nil, hmiddle, Function.comp_apply, hfirstLine,
    hlastLine]

/-- The lines of a block comment without its delimiters. -/
theorem map_trim_withoutDelimiters_block {body : List Char} (hne : body ≠ [])
    (hend : ¬ ['*', '/'] <:+: body)
    (hopen : ∀ line ∈ (withoutOpening body).splitOn '\n', opensComment (trim line) = false) :
    (lineTexts ('/' :: '*' :: (body ++ ['*', '/']))).map (trim ∘ withoutDelimiters) =
      ((withoutOpening body).splitOn '\n').map trim := by
  by_cases hnewline : '\n' ∈ body
  · obtain ⟨first, rest, rfl, hfirst⟩ := List.eq_append_cons_of_mem hnewline
    have hopening : withoutOpening (first ++ '\n' :: rest) = withoutOpening first ++ '\n' :: rest :=
      withoutOpening_append fun _ _ h => absurd (List.cons.inj h).1 (by decide)
    have hfirst' : '\n' ∉ withoutOpening first := fun h =>
      hfirst ((withoutOpening_suffix first).subset h)
    rw [hopening, List.splitOn_append_cons_self_of_not_mem hfirst'] at hopen ⊢
    simpa using map_trim_withoutDelimiters_lines hfirst hend hopen
  · have hbody : '\n' ∉ withoutOpening body := fun h =>
      hnewline ((withoutOpening_suffix body).subset h)
    rw [List.splitOn_eq_singleton hbody] at hopen ⊢
    rw [map_withoutDelimiters_lineTexts, List.splitOn_eq_singleton (by simpa using hnewline)]
    rw [List.map_singleton, List.map_singleton, Function.comp_apply,
      trim_withoutDelimiters_only hne hend (hopen _ List.mem_cons_self)]

theorem opensBlock_unixNewlines (cs : List Char) :
    ['/', '*'].isPrefixOf (trim (unixNewlines ('/' :: '*' :: cs))) := by
  have h : unixNewlines ('/' :: '*' :: cs) = '/' :: '*' :: unixNewlines cs := by
    simp [unixNewlines]
  rw [h, trim_opening]
  rfl

/-- The lines that are read of a block comment with at most a margin. -/
theorem map_trim_contentLines_block {body : List Char} (hne : body ≠ [])
    (hend : ¬ ['*', '/'] <:+: body) (h : SingleMargin ((withoutOpening body).splitOn '\n')) :
    (contentLines ('/' :: '*' :: (body ++ ['*', '/']))).map trim =
      withoutEmptyEnds (((withoutOpening body).splitOn '\n').map (trim ∘ withoutMargin)) := by
  have hlines := map_trim_withoutDelimiters_block hne hend
    fun x hx => opensComment_of_margin (h.plain x hx)
  have hstar : ∀ lines : List (List Char), lines.map withoutStar = (lines.map trim).map withoutStar := by
    intro lines
    rw [List.map_map]
    exact List.map_congr_left fun line _ => (withoutStar_trim line).symm
  rw [map_trim_contentLines, opensBlock_unixNewlines, Bool.true_or, if_pos rfl, hstar,
    List.map_map (g := trim) (f := withoutDelimiters), hlines, ← hstar, List.map_map]
  exact congrArg withoutEmptyEnds (List.map_congr_left fun x hx => trim_withoutStar_eq (h.margins x hx))

/-- The lines that are read of the content that the scanner keeps of such a comment. -/
theorem map_trim_contentLines_content {body : List Char} (hend : ¬ ['*', '/'] <:+: body)
    (h : SingleMargin ((withoutOpening body).splitOn '\n')) :
    (contentLines (blockContent body)).map trim =
      withoutEmptyEnds (((withoutOpening body).splitOn '\n').map (trim ∘ withoutMargin)) := by
  have hwithin : ∀ x ∈ (withoutOpening body).splitOn '\n', withoutMargin x <:+: body := fun x hx =>
    ((withoutMargin_isInfix x).trans (infix_of_mem_splitOn hx)).trans
      (withoutOpening_suffix body).isInfix
  have hcontent : lineTexts
        (joinWith ['\n'] (((withoutOpening body).splitOn '\n').map withoutMargin)) =
      (((withoutOpening body).splitOn '\n').map withoutMargin).map trim := by
    apply lineTexts_joinWith (by simp)
    simp only [List.mem_map]
    rintro _ ⟨x, hx, rfl⟩ hmem
    exact not_mem_of_mem_splitOn hx ((withoutMargin_isInfix x).subset hmem)
  rw [blockContent_eq, ← List.map_map, ← hcontent]
  generalize joinWith ['\n'] (((withoutOpening body).splitOn '\n').map withoutMargin) = text at *
  have hkept : (lineTexts (trim text)).filter (· ≠ []) = (lineTexts text).filter (· ≠ []) := by
    rw [← filter_withoutEmptyEnds, withoutEmptyEnds_trim, filter_withoutEmptyEnds]
  -- a line of the trimmed text is empty or what a margin leaves
  have hline : ∀ line ∈ lineTexts (trim text), line = [] ∨
      ∃ x ∈ (withoutOpening body).splitOn '\n', trim (withoutMargin x) = line := by
    intro line hline
    by_cases hempty : line = []
    · exact .inl hempty
    · have hmem : line ∈ (lineTexts text).filter (· ≠ []) := by
        rw [← hkept]
        exact List.mem_filter.mpr ⟨hline, by simpa using hempty⟩
      rw [hcontent] at hmem
      simpa [hempty] using hmem
  rw [map_trim_contentLines_plain, withoutEmptyEnds_trim]
  · intro line hmem
    obtain rfl | ⟨x, hx, rfl⟩ := hline line hmem
    · rfl
    · exact h.plain x hx
  · intro line hmem hpart
    obtain rfl | ⟨x, hx, rfl⟩ := hline line hmem
    · simp at hpart
    · exact hend ((hpart.isInfix.trans (trim_isInfix _)).trans (hwithin x hx))
  · rw [← h.undecorated]
    apply decorated_congr
    rw [map_trim_lineTexts, hkept, hcontent]

/-- The scanner and the reader of comments take the same lines off a block comment with at most a margin. -/
theorem contentLines_blockContent {body : List Char} (hne : body ≠ [])
    (hend : ¬ ['*', '/'] <:+: body) (h : SingleMargin ((withoutOpening body).splitOn '\n')) :
    (contentLines (blockContent body)).map trim =
      (contentLines ('/' :: '*' :: (body ++ ['*', '/']))).map trim := by
  rw [map_trim_contentLines_content hend h, map_trim_contentLines_block hne hend h]

end OverloadDocs.Comment
