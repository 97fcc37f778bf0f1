import OverloadDocs.Proofs.CommentMargins
import OverloadDocs.Proofs.Words

/-!
The spellings of a comment. The same lines can be written with the fields of either dialect, and bare, in a
block comment or in line comments. All spellings are read alike: the decoration comes off without a trace, and
what a field says does not depend on how it is marked. Only the labels that warnings show are as written.
-/

namespace OverloadDocs.Comment

open Text Source.Scanner

/-- A line that has nothing of a decoration: it is trimmed, and neither end looks like a delimiter. -/
structure IsContent (line : List Char) : Prop where
  oneLine : '\n' ∉ line
  trimmed : trim line = line
  opening : line.head? ≠ some '*' ∧ line.head? ≠ some '/'
  ending : ¬ ['*', '/'] <:+ line

instance (line : List Char) : Decidable (IsContent line) :=
  decidable_of_iff ('\n' ∉ line ∧ trim line = line ∧
      (line.head? ≠ some '*' ∧ line.head? ≠ some '/') ∧ ¬ ['*', '/'] <:+ line)
    ⟨fun ⟨hone, htrim, hopen, hend⟩ => ⟨hone, htrim, hopen, hend⟩,
      fun h => ⟨h.oneLine, h.trimmed, h.opening, h.ending⟩⟩

/-- A text that is a line of content and marks no field in either dialect. -/
structure LineText where
  chars : List Char
  nonempty : chars ≠ []
  content : IsContent chars
  unmarked : chars.head? ≠ some ':' ∧ chars.head? ≠ some '@'

inductive FieldMark where
  | param (name : { name : String // isIdentifier name })
  | result
  | throws

/-- A line of a comment apart from its spelling. -/
inductive CommentLine where
  | blank
  | text (t : LineText)
  | field (mark : FieldMark) (t : Option LineText)

namespace FieldMark

def name : FieldMark → List Char
  | .param _ => "param".toList
  | .result => "return".toList
  | .throws => "throws".toList

/-- What stands between the name of the field and its text. -/
def args : FieldMark → List Char
  | .param name => ' ' :: name.val.toList
  | .result | .throws => []

def written (mark : FieldMark) : Dialect → List Char
  | .fieldList => ':' :: (mark.name ++ mark.args ++ [':'])
  | .braceTag => '@' :: (mark.name ++ mark.args)

def kind : FieldMark → FieldKind
  | .param _ => .param
  | .result => .result
  | .throws => .throws

def subject : FieldMark → String
  | .param name => name
  | .result | .throws => ""

end FieldMark

/-- The text of a field behind its marker. -/
def behind : Option LineText → List Char
  | none => []
  | some t => ' ' :: t.chars

def CommentLine.written (dialect : Dialect) : CommentLine → List Char
  | .blank => []
  | .text t => t.chars
  | .field mark t => mark.written dialect ++ behind t

inductive Decoration where
  | bare
  | block
  | lineComments

/-- The decorated lines. A block comment opens and closes on lines of its own. -/
def Decoration.written : Decoration → List (List Char) → List (List Char)
  | .bare, lines => lines
  | .block, lines => ['/', '*', '*'] :: (lines.map ([' ', '*', ' '] ++ ·) ++ [[' ', '*', '/']])
  | .lineComments, lines => lines.map (['/', '/', ' '] ++ ·)

/-- The comment that has the given lines in a dialect and with a decoration. -/
def spelled (dialect : Dialect) (decoration : Decoration) (lines : List CommentLine) : String :=
  String.ofList (joinWith ['\n'] (decoration.written (lines.map (·.written dialect))))

/-! ## Decorations -/

theorem trim_of_solid {cs : List Char} (h : Solid cs) : trim cs = cs := by
  have hfront : cs.dropWhile isBlank = cs := by
    rw [List.dropWhile_eq_self_iff]
    exact fun hl => Bool.eq_false_iff.mp (h _ (List.getElem_mem hl))
  rw [trim_eq_strip, strip, hfront, List.rdropWhile_eq_self_iff]
  exact fun hl => Bool.eq_false_iff.mp (h _ (List.getLast_mem hl))

/-- What is written before a text does not close a comment together with it. -/
theorem not_ending_append {cs : List Char} (hne : cs ≠ []) (hopen : cs.head? ≠ some '/')
    (hend : ¬ ['*', '/'] <:+ cs) (front : List Char) : ¬ ['*', '/'] <:+ front ++ cs := by
  intro h
  rcases List.suffix_or_suffix_of_suffix h (List.suffix_append front cs) with h | h
  · exact hend h
  · rcases List.suffix_cons_iff.mp h with rfl | h
    · exact hend (List.suffix_refl _)
    · rcases List.suffix_cons_iff.mp h with rfl | h
      · exact hopen rfl
      · exact hne (List.suffix_nil.mp h)

namespace IsContent

variable {line : List Char}

theorem nil : IsContent [] := ⟨by decide, rfl, by decide, by decide⟩

/-- Content stays content behind a beginning that is none of a delimiter. -/
theorem append {c : Char} (hc : isBlank c = false) (hopen : c ≠ '*' ∧ c ≠ '/') {front : List Char}
    (hfront : '\n' ∉ c :: front) (hne : line ≠ []) (h : IsContent line) :
    IsContent (c :: front ++ line) where
  oneLine := fun hmem => (List.mem_append.mp hmem).elim hfront h.oneLine
  trimmed := trim_append hc front hne h.trimmed
  opening := ⟨fun h => hopen.1 (Option.some.inj h), fun h => hopen.2 (Option.some.inj h)⟩
  ending := not_ending_append hne h.opening.2 h.ending _

theorem not_opensComment (h : IsContent line) : opensComment line = false := by
  by_contra hopen
  obtain ⟨c, rest, rfl, -⟩ := opensComment_iff.mp (Bool.not_eq_false _ ▸ hopen)
  exact h.opening.2 rfl

theorem not_starred (h : IsContent line) : ¬ starred line := by
  intro hstar
  obtain ⟨rest, rfl⟩ := starred_iff.mp hstar
  exact h.opening.1 rfl

/-- A beginning that is set off by a space does not close a comment together with content. -/
theorem not_ending_space (h : IsContent line) {front : List Char} (hfront : ¬ ['*', '/'] <:+ front) :
    ¬ ['*', '/'] <:+ front ++ (' ' :: line).rdropWhile isBlank := by
  by_cases hne : line = []
  · subst hne
    have hspace : [' '].rdropWhile isBlank = [] := rfl
    rwa [hspace, List.append_nil]
  · have hline := rdropWhile_append hne (rdropWhile_of_trimmed h.trimmed) [' ']
    rw [List.singleton_append] at hline
    rw [hline, List.append_cons]
    exact not_ending_append hne h.opening.2 h.ending _

theorem trim_space (h : IsContent line) : trim (' ' :: line) = line := by
  rw [trim_cons_blank (by decide), h.trimmed]

theorem trim_margin (h : IsContent line) :
    trim (withoutStar (withoutDelimiters ([' ', '*', ' '] ++ line))) = line := by
  have htrim : trim ([' ', '*', ' '] ++ line) = ['*'] ++ (' ' :: line).rdropWhile isBlank := by
    change trim (' ' :: '*' :: ' ' :: line) = _
    rw [trim_cons_blank (by decide), trim_cons_solid (by decide)]
    rfl
  have hdelimiters : trim (withoutDelimiters ([' ', '*', ' '] ++ line)) = trim ([' ', '*', ' '] ++ line) := by
    rw [trim_withoutDelimiters]
    · rw [htrim]
      exact h.not_ending_space (by decide)
    · rw [htrim]
      rfl
  have hmargin : withoutMargin ([' ', '*', ' '] ++ line) = line := rfl
  rw [← withoutStar_trim, hdelimiters, withoutStar_trim, trim_withoutStar_eq, hmargin, h.trimmed]
  exact fun _ => rfl

theorem trim_slashes (h : IsContent line) : trim (withoutDelimiters (['/', '/', ' '] ++ line)) = line := by
  have htrim : trim (['/', '/', ' '] ++ line) = ['/', '/'] ++ (' ' :: line).rdropWhile isBlank := by
    change trim ('/' :: '/' :: ' ' :: line) = _
    rw [trim_cons_solid (by decide), rdropWhile_cons_of_neg (by decide)]
    rfl
  have hrest : trim ((' ' :: line).rdropWhile isBlank) = trim (' ' :: line) :=
    strip_rdropWhile (fun _ h => h) _
  rw [withoutDelimiters_eq, htrim, withoutLead_eq_self (by rfl), withoutLead_eq_self (by rfl),
    afterOpening, withoutTail_eq_self (h.not_ending_space (by decide)), trim_dropEndWhile_blank]
  change trim ((' ' :: line).rdropWhile isBlank) = line
  rw [hrest, h.trim_space]

end IsContent

theorem decorated_eq_false {lines : List (List Char)} (h : ∀ line ∈ lines, ¬ starred (trim line)) :
    decorated lines = false := by
  have hkept : ∀ line ∈ (lines.map trim).filter (· ≠ []), starred line = false := by
    intro line hline
    obtain ⟨line, hmem, rfl⟩ := List.mem_map.mp (List.mem_filter.mp hline).1
    simpa using h line hmem
  rw [decorated]
  generalize (lines.map trim).filter (· ≠ []) = kept at *
  split
  · rfl
  · exact hkept _ List.mem_cons_self
  · rename_i first others hne
    obtain ⟨second, others, rfl⟩ := List.exists_cons_of_ne_nil hne
    rw [List.all_cons, hkept second (by simp), Bool.false_and]

theorem map_withoutDelimiters_joinWith {α : Type} (f : List Char → α) {lines : List (List Char)}
    (hne : lines ≠ []) (h : ∀ line ∈ lines, '\n' ∉ line) :
    (lineTexts (joinWith ['\n'] lines)).map (f ∘ withoutDelimiters) =
      lines.map (f ∘ withoutDelimiters) := by
  rw [map_withoutDelimiters_lineTexts, joinWith, List.splitOn_intercalate '\n' h hne]

namespace Decoration

variable {lines : List (List Char)}

theorem contentLines_bare (hne : lines ≠ []) (h : ∀ line ∈ lines, IsContent line) :
    (contentLines (joinWith ['\n'] lines)).map trim = withoutEmptyEnds lines := by
  have hlines : lineTexts (joinWith ['\n'] lines) = lines := by
    rw [lineTexts_joinWith hne fun line hline => (h line hline).oneLine]
    exact map_eq_self fun line hline => (h line hline).trimmed
  rw [map_trim_contentLines_plain, hlines] <;> rw [hlines]
  · exact fun line hline => (h line hline).not_opensComment
  · exact fun line hline => (h line hline).ending
  · refine decorated_eq_false fun line hline => ?_
    rw [(h line hline).trimmed]
    exact (h line hline).not_starred

theorem contentLines_lineComments (hne : lines ≠ []) (h : ∀ line ∈ lines, IsContent line) :
    (contentLines (joinWith ['\n'] (lines.map (['/', '/', ' '] ++ ·)))).map trim =
      withoutEmptyEnds lines := by
  have hne' : lines.map (['/', '/', ' '] ++ ·) ≠ [] := by simpa using hne
  have hone : ∀ line ∈ lines.map (['/', '/', ' '] ++ ·), '\n' ∉ line := by
    simp only [List.mem_map]
    rintro _ ⟨line, hline, rfl⟩
    simpa using (h line hline).oneLine
  have hlines : ((lineTexts (joinWith ['\n'] (lines.map (['/', '/', ' '] ++ ·)))).map
      withoutDelimiters).map trim = lines := by
    rw [List.map_map, map_withoutDelimiters_joinWith trim hne' hone, List.map_map]
    refine map_eq_self fun line hline => ?_
    rw [Function.comp_apply, Function.comp_apply, (h line hline).trim_slashes]
  rw [map_trim_contentLines_undecorated, hlines]
  · rw [lineTexts_joinWith hne' hone]
    simp only [List.mem_map]
    rintro _ ⟨_, ⟨line, -, rfl⟩, rfl⟩
    change ['/', '*'].isPrefixOf (trim ('/' :: '/' :: ' ' :: line)) = false
    rw [trim_cons_solid (by decide), rdropWhile_cons_of_neg (by decide)]
    rfl
  · refine decorated_eq_false fun line hline => ?_
    have hmem : trim line ∈ lines := by
      rw [← hlines]
      exact List.mem_map_of_mem hline
    exact (h _ hmem).not_starred

theorem contentLines_block (h : ∀ line ∈ lines, IsContent line) :
    (contentLines (joinWith ['\n'] (block.written lines))).map trim =
      withoutEmptyEnds lines := by
  have hne : block.written lines ≠ [] := List.cons_ne_nil _ _
  have hone : ∀ line ∈ block.written lines, '\n' ∉ line := by
    simp only [Decoration.written, List.mem_cons, List.mem_append, List.mem_map]
    rintro _ (rfl | ⟨line, hline, rfl⟩ | rfl | h)
    · decide
    · simpa using (h line hline).oneLine
    · decide
    · cases h
  have hopen : ['/', '*'].isPrefixOf
      (trim (unixNewlines (joinWith ['\n'] (block.written lines)))) := by
    rw [joinWith, Decoration.written, List.intercalate_cons_of_ne_nil (by simp)]
    exact opensBlock_unixNewlines _
  have hmargins : (lines.map ([' ', '*', ' '] ++ ·)).map ((trim ∘ withoutStar) ∘ withoutDelimiters) =
      lines := by
    rw [List.map_map]
    refine map_eq_self fun line hline => ?_
    rw [Function.comp_apply, Function.comp_apply, Function.comp_apply, (h line hline).trim_margin]
  have hlines : (((lineTexts (joinWith ['\n'] (block.written lines))).map withoutDelimiters).map
      withoutStar).map trim = [] :: (lines ++ [[]]) := by
    rw [List.map_map, List.map_map]
    rw [map_withoutDelimiters_joinWith (trim ∘ withoutStar) hne hone, Decoration.written, List.map_cons,
      List.map_append, hmargins]
    rfl
  rw [map_trim_contentLines, hopen, Bool.true_or, if_pos rfl, hlines]
  -- the lines of the delimiters are blank
  rw [withoutEmptyEnds, strip_cons rfl, strip_append_right _ (by simp)]
  rfl

/-- What is read of a decorated comment is its lines, whatever the decoration. -/
theorem contentLines_written (decoration : Decoration) (hne : lines ≠ [])
    (h : ∀ line ∈ lines, IsContent line) :
    (contentLines (joinWith ['\n'] (decoration.written lines))).map trim = withoutEmptyEnds lines := by
  cases decoration with
  | bare => exact contentLines_bare hne h
  | block => exact contentLines_block h
  | lineComments => exact contentLines_lineComments hne h

end Decoration

/-! ## Dialects -/

theorem stops_behind (t : Option LineText) : Token.Stops (behind t) := by
  cases t with
  | none => exact Token.Stops.nil
  | some t => exact Token.Stops.cons (by decide) _

theorem trim_behind (t : Option LineText) : trim (behind t) = (t.map (·.chars)).getD [] := by
  cases t with
  | none => rfl
  | some t => exact t.content.trim_space

theorem values_behind (t : Option LineText) :
    (if trim (behind t) = [] then [] else [trim (behind t)]) = (t.map (·.chars)).toList := by
  rw [trim_behind]
  cases t with
  | none => rfl
  | some t => exact if_neg t.nonempty

theorem splitFieldList_eq_none {cs : List Char} (h : cs.head? ≠ some ':') :
    splitFieldList cs = none := by
  rw [splitFieldList.eq_def]
  split
  · exact absurd rfl h
  · rfl

theorem splitBraceTag_eq_none {cs : List Char} (h : cs.head? ≠ some '@') :
    splitBraceTag cs = none := by
  rw [splitBraceTag.eq_def]
  split
  · exact absurd rfl h
  · rfl

namespace FieldMark

variable (mark : FieldMark)

theorem name_ne_nil : mark.name ≠ [] := by
  cases mark with
  | param _ | result | throws => exact List.cons_ne_nil _ _

theorem name_isIdentPart : mark.name.all isIdentPart := by
  cases mark with
  | param _ | result | throws => rfl

theorem ofName_name : FieldKind.ofName mark.name = mark.kind := by
  cases mark with
  | param _ | result | throws => rfl

theorem name_isWord (name : { name : String // isIdentifier name }) : IsWord name.val.toList := by
  refine ⟨?_, fun c hc => isBlank_of_isIdentPart (isIdentPart_of_isIdentifier name.property c hc)⟩
  intro hnil
  have hname := name.property
  rw [isIdentifier, hnil] at hname
  cases hname

theorem name_isContent (name : { name : String // isIdentifier name }) : IsContent name.val.toList := by
  have hpart : ∀ c, isIdentPart c = false → c ∉ name.val.toList := fun c hc hmem => by
    simp [isIdentPart_of_isIdentifier name.property c hmem] at hc
  exact {
    oneLine := hpart '\n' (by decide)
    trimmed := trim_of_solid (name_isWord name).2
    opening := ⟨fun h => hpart '*' (by decide) (List.mem_of_mem_head? h),
      fun h => hpart '/' (by decide) (List.mem_of_mem_head? h)⟩
    ending := fun h => hpart '*' (by decide) (h.subset List.mem_cons_self) }

theorem args_ne_colon : ∀ c ∈ mark.args, c ≠ ':' := by
  cases mark with
  | param name =>
      rintro _ (_ | ⟨_, hc⟩)
      · decide
      · rintro rfl
        exact absurd (isIdentPart_of_isIdentifier name.property _ hc) (by decide)
  | result => exact nofun
  | throws => exact nofun

theorem head_args : mark.args.head?.all isPlainBlank := by
  cases mark with
  | param _ | result | throws => rfl

theorem stops_args {rest : List Char} (hrest : Token.Stops rest) : Token.Stops (mark.args ++ rest) := by
  cases mark with
  | param name => exact Token.Stops.cons (by decide) _
  | result => exact hrest
  | throws => exact hrest

theorem getLast?_words_args : String.ofList ((words mark.args).getLast?.getD []) = mark.subject := by
  cases mark with
  | param name =>
      obtain ⟨hne, hsolid⟩ := name_isWord name
      rw [args, words_cons_blank (by decide), words_of_solid hsolid hne]
      exact String.ofList_toList
  | result => rfl
  | throws => rfl

theorem splitFieldList_written (t : Option LineText) :
    splitFieldList (mark.written .fieldList ++ behind t) = some (mark.name, mark.args, behind t) := by
  have hline : mark.written .fieldList ++ behind t =
      ':' :: (mark.name ++ (mark.args ++ ':' :: behind t)) := by
    simp [written]
  obtain ⟨htake, hdrop⟩ := Token.takeWhile_word mark.name_isIdentPart
    (mark.stops_args (Token.Stops.cons (c := ':') (by decide) (behind t)))
  have hargs : ∀ c ∈ mark.args, decide (c ≠ ':') = true := by simpa using mark.args_ne_colon
  rw [hline, splitFieldList, htake, hdrop, List.takeWhile_append_of_pos hargs,
    List.dropWhile_append_of_pos hargs]
  simp [mark.name_ne_nil, mark.head_args]

section

variable (name : { name : String // isIdentifier name }) (t : Option LineText)

theorem trim_name_behind : trim (name.val.toList ++ behind t) = name.val.toList ++ behind t := by
  cases t with
  | none =>
      rw [behind, List.append_nil]
      exact (name_isContent name).trimmed
  | some t =>
      obtain ⟨hne, hsolid⟩ := name_isWord name
      obtain ⟨c, cs, hname⟩ := List.exists_cons_of_ne_nil hne
      rw [hname] at hsolid ⊢
      rw [behind, List.append_cons]
      exact trim_append (hsolid c List.mem_cons_self) (cs ++ [' ']) t.nonempty t.content.trimmed

theorem takeWhile_name_behind :
    (name.val.toList ++ behind t).takeWhile (!isBlank ·) = name.val.toList := by
  rw [List.takeWhile_append_of_pos fun c hc => by simp [(name_isWord name).2 c hc]]
  cases t with
  | none | some t => exact List.append_nil _

end

/-- The first word behind the tag of a parameter is its name. -/
theorem splitBraceTag_written (t : Option LineText) :
    ∃ args text, splitBraceTag (mark.written .braceTag ++ behind t) = some (mark.name, args, text) ∧
      words args = words mark.args ∧ trim text = trim (behind t) := by
  have hline : mark.written .braceTag ++ behind t = '@' :: (mark.name ++ (mark.args ++ behind t)) := by
    simp [written]
  obtain ⟨htake, hdrop⟩ := Token.takeWhile_word mark.name_isIdentPart
    (mark.stops_args (stops_behind t))
  have hhead : (mark.args ++ behind t).head?.all isPlainBlank := by
    cases mark with
    | param name => rfl
    | result | throws => cases t <;> rfl
  rw [hline, splitBraceTag, htake, hdrop]
  dsimp only
  rw [if_pos ⟨mark.name_ne_nil, hhead⟩, ofName_name]
  cases mark with
  | param name =>
      have htext : trim (args (.param name) ++ behind t) = name.val.toList ++ behind t := by
        rw [args, List.cons_append, trim_cons_blank (by decide), trim_name_behind]
      have hkind : kind (.param name) = .param := rfl
      rw [if_pos hkind, htext, takeWhile_name_behind, List.drop_left]
      refine ⟨_, _, rfl, ?_, rfl⟩
      exact (words_cons_blank (by decide) _).symm
  | result | throws =>
      rw [if_neg (by decide)]
      exact ⟨_, _, rfl, rfl, trim_trim _⟩

/-- Both dialects say the same of a field, apart from its label. -/
theorem ofLine?_written (dialect : Dialect) (number : Nat) (t : Option LineText) :
    ∃ label, Field.ofLine? dialect number (mark.written dialect ++ behind t) =
      some ⟨mark.kind, label, mark.subject, number, (t.map (·.chars)).toList⟩ := by
  refine ⟨String.ofList (fieldLabel dialect (mark.written dialect ++ behind t)), ?_⟩
  cases dialect with
  | fieldList =>
      simp only [Field.ofLine?, splitFieldList_written, Option.map_some, ofName_name,
        getLast?_words_args, values_behind]
  | braceTag =>
      obtain ⟨args, text, hsplit, hargs, htext⟩ := mark.splitBraceTag_written t
      simp only [Field.ofLine?, hsplit, Option.map_some, ofName_name, hargs, htext,
        getLast?_words_args, values_behind]

theorem tag_isContent : IsContent (mark.name ++ mark.args) := by
  cases mark with
  | param name =>
      have hline : FieldMark.name (.param name) ++ args (.param name) =
          'p' :: ['a', 'r', 'a', 'm', ' '] ++ name.val.toList := rfl
      rw [hline]
      exact (name_isContent name).append (by decide) (by decide) (by decide) (name_isWord name).1
  | result | throws => exact ⟨by decide, rfl, by decide, by decide⟩

theorem written_isContent (dialect : Dialect) : IsContent (mark.written dialect) := by
  have htag := mark.tag_isContent
  cases dialect with
  | fieldList =>
      have hcolon : IsContent [':'] := ⟨by decide, rfl, by decide, by decide⟩
      exact hcolon.append (by decide) (by decide) (by simpa using htag.oneLine) (by simp)
  | braceTag =>
      have hne : mark.name ++ mark.args ≠ [] := fun h => mark.name_ne_nil (List.append_eq_nil_iff.mp h).1
      have hwritten : IsContent (['@'] ++ (mark.name ++ mark.args)) :=
        htag.append (by decide) (by decide) (by decide) hne
      exact hwritten

end FieldMark

namespace CommentLine

theorem written_isContent (dialect : Dialect) (line : CommentLine) :
    IsContent (line.written dialect) := by
  cases line with
  | blank => exact IsContent.nil
  | text t => exact t.content
  | field mark t =>
      have hmark := mark.written_isContent dialect
      cases t with
      | none =>
          rw [written, behind, List.append_nil]
          exact hmark
      | some t =>
          rw [written, behind, List.append_cons]
          have hone : '\n' ∉ mark.written dialect ++ [' '] := by simpa using hmark.oneLine
          cases dialect <;>
            exact t.content.append (by decide) (by decide) hone t.nonempty

/-- The field that a line opens, apart from its label. -/
def field? (label : String) (number : Nat) : CommentLine → Option Field
  | .blank | .text _ => none
  | .field mark t => some ⟨mark.kind, label, mark.subject, number, (t.map (·.chars)).toList⟩

theorem ofLine?_written (dialect : Dialect) (number : Nat) (line : CommentLine) :
    ∃ label, Field.ofLine? dialect number (line.written dialect) = line.field? label number := by
  cases line with
  | blank =>
      refine ⟨"", ?_⟩
      cases dialect <;> rfl
  | text t =>
      refine ⟨"", ?_⟩
      cases dialect with
      | fieldList =>
          simp only [Field.ofLine?, written, splitFieldList_eq_none t.unmarked.1]
          rfl
      | braceTag =>
          simp only [Field.ofLine?, written, splitBraceTag_eq_none t.unmarked.2]
          rfl
  | field mark t => exact mark.ofLine?_written dialect number t

def isBlank : CommentLine → Bool
  | .blank => true
  | .text _ | .field _ _ => false

theorem written_eq_nil (dialect : Dialect) :
    (fun line : CommentLine => line.written dialect == []) = CommentLine.isBlank := by
  funext line
  cases line with
  | blank => rfl
  | text t => exact beq_false_of_ne t.nonempty
  | field mark t => cases dialect <;> rfl

theorem head?_written_fieldList (line : CommentLine) : (line.written .fieldList).head? ≠ some '@' := by
  cases line with
  | blank => exact nofun
  | text t => exact t.unmarked.2
  | field mark t => exact fun h => absurd (Option.some.inj h) (by decide)

theorem ofLines_written {raw : List (List Char)} {dialect : Dialect} {lines : List CommentLine}
    (hlines : raw.map trim = lines.map (·.written dialect))
    (hfield : ∃ mark t, CommentLine.field mark t ∈ lines) : Dialect.ofLines raw = dialect := by
  rw [Dialect.ofLines_eq, hlines, List.any_map]
  cases dialect with
  | fieldList =>
      rw [if_neg]
      simpa using fun line _ => line.head?_written_fieldList
  | braceTag =>
      obtain ⟨mark, t, hmem⟩ := hfield
      rw [if_pos]
      exact List.any_eq_true.mpr ⟨_, hmem, rfl⟩

end CommentLine

/-! ## Records -/

def Field.unlabelled (f : Field) : Field := { f with label := "" }

def Warning.unlabelled (w : Warning) : Warning := { w with field := "" }

/-- Labels are only passed on to warnings. -/
theorem addFields_unlabelled (signature : Option Signature) (doc : Documentation) (fields : List Field) :
    addFields signature doc (fields.map Field.unlabelled) =
      ((addFields signature doc fields).1,
        (addFields signature doc fields).2.map Warning.unlabelled) := by
  induction fields generalizing doc with
  | nil => rfl
  | cons f fs ih =>
      have hfield : addField signature doc f.unlabelled = addField signature doc f := rfl
      rw [List.map_cons, addFields, addFields, hfield]
      cases addField signature doc f with
      | ok doc' => exact ih doc'
      | error kind =>
          dsimp only
          rw [ih doc]
          rfl

theorem ofLines_written_congr (dialect dialect' : Dialect) (number : Nat) (lines : List CommentLine) :
    (Sections.ofLines dialect number (lines.map (·.written dialect))).summary =
        (Sections.ofLines dialect' number (lines.map (·.written dialect'))).summary ∧
      (Sections.ofLines dialect number (lines.map (·.written dialect))).fields.map Field.unlabelled =
        (Sections.ofLines dialect' number (lines.map (·.written dialect'))).fields.map
          Field.unlabelled := by
  induction lines generalizing number with
  | nil => exact ⟨rfl, rfl⟩
  | cons line lines ih =>
      obtain ⟨hsummary, hfields⟩ := ih (number + 1)
      obtain ⟨label, hline⟩ := line.ofLine?_written dialect number
      obtain ⟨label', hline'⟩ := line.ofLine?_written dialect' number
      rw [List.map_cons, Sections.ofLines, hline, List.map_cons, Sections.ofLines, hline']
      cases line with
      | blank => exact ⟨congrArg ([] :: ·) hsummary, hfields⟩
      | text t => exact ⟨congrArg (t.chars :: ·) hsummary, hfields⟩
      | field mark t =>
          refine ⟨rfl, ?_⟩
          simp only [CommentLine.field?, List.map_cons, Field.unlabelled, hsummary, hfields]

/-- What is read of a comment is its lines without the blank ones at its ends. -/
theorem map_trim_contentLines_spelled (dialect : Dialect) (decoration : Decoration)
    {lines : List CommentLine} (hne : lines ≠ []) :
    (contentLines (spelled dialect decoration lines).toList).map trim =
      (strip CommentLine.isBlank lines).map (·.written dialect) := by
  have hcontent : ∀ line ∈ lines.map (·.written dialect), IsContent line := by
    simp only [List.mem_map]
    rintro _ ⟨line, -, rfl⟩
    exact line.written_isContent dialect
  rw [spelled, String.toList_ofList, decoration.contentLines_written (by simpa using hne) hcontent,
    withoutEmptyEnds, ← map_strip]
  exact congrArg (fun p => (strip p lines).map (·.written dialect)) (CommentLine.written_eq_nil dialect)

theorem normalize_spelled (signature : Option Signature) {dialect : Dialect} (decoration : Decoration)
    {lines : List CommentLine} (hfield : ∃ mark t, CommentLine.field mark t ∈ lines) {sections : Sections}
    (hsections : Sections.ofLines dialect 1
      ((strip CommentLine.isBlank lines).map (·.written dialect)) = sections) :
    normalize (spelled dialect decoration lines) signature =
      addFields signature { summary := String.ofList (joinParagraphs sections.summary) }
        sections.fields := by
  obtain ⟨mark, t, hmem⟩ := hfield
  have hlines := map_trim_contentLines_spelled dialect decoration (List.ne_nil_of_mem hmem)
  have hkept : CommentLine.field mark t ∈ (strip CommentLine.isBlank lines).filter (!·.isBlank) := by
    rw [filter_strip]
    exact List.mem_filter.mpr ⟨hmem, rfl⟩
  have hdialect := CommentLine.ofLines_written hlines ⟨mark, t, (List.mem_filter.mp hkept).1⟩
  rw [normalize, hdialect, hlines, hsections]

/-- A comment documents the same and causes the same warnings in all its spellings. -/
theorem normalize_spelled_congr (signature : Option Signature) {lines : List CommentLine}
    (hfield : ∃ mark t, CommentLine.field mark t ∈ lines) (dialect dialect' : Dialect)
    (decoration decoration' : Decoration) :
    (normalize (spelled dialect decoration lines) signature).1 =
        (normalize (spelled dialect' decoration' lines) signature).1 ∧
      (normalize (spelled dialect decoration lines) signature).2.map Warning.unlabelled =
        (normalize (spelled dialect' decoration' lines) signature).2.map Warning.unlabelled := by
  obtain ⟨hsummary, hfields⟩ :=
    ofLines_written_congr dialect dialect' 1 (strip CommentLine.isBlank lines)
  rw [normalize_spelled signature decoration hfield rfl,
    normalize_spelled signature decoration' hfield rfl, hsummary]
  -- both records are read from the same fields without their labels
  apply Prod.mk.inj
  rw [← addFields_unlabelled, hfields, addFields_unlabelled]

/-- A tagged block comment says what the bare field list says, and so does the warning about a field that
names no parameter. -/
theorem normalize_of_bulleted_throws :
    ∃ lines : List CommentLine, (∃ mark t, CommentLine.field mark t ∈ lines) ∧
      spelled .fieldList .bare lines =
        "Scales x.\n\n:param x: the value\n:param z: the scale\n:throws:\n- if x is negative\n- if z is 0" ∧
      spelled .braceTag .block lines =
        "/**\n * Scales x.\n * \n * @param x the value\n * @param z the scale\n * @throws\n" ++
          " * - if x is negative\n * - if z is 0\n */" ∧
      ∃ s, Signature.parse "real f(real x)" 0 = .ok s ∧
        (normalize (spelled .braceTag .block lines) (some s)).1 =
          { summary := "Scales x.", paramDocs := [(0, "the value")]
            failures := ["if x is negative", "if z is 0"] } ∧
        (normalize (spelled .braceTag .block lines) (some s)).2.map Warning.unlabelled =
          [⟨.unknownParameter, "", 4, "f(real)"⟩] := by
  obtain ⟨lines, hlines⟩ : ∃ lines : List CommentLine, lines =
      [.text ⟨"Scales x.".toList, by decide, by decide, by decide⟩, .blank,
        .field (.param ⟨"x", by decide⟩) (some ⟨"the value".toList, by decide, by decide, by decide⟩),
        .field (.param ⟨"z", by decide⟩) (some ⟨"the scale".toList, by decide, by decide, by decide⟩),
        .field .throws none,
        .text ⟨"- if x is negative".toList, by decide, by decide, by decide⟩,
        .text ⟨"- if z is 0".toList, by decide, by decide, by decide⟩] := ⟨_, rfl⟩
  have hfield : ∃ mark t, CommentLine.field mark t ∈ lines := ⟨.throws, none, by simp [hlines]⟩
  have hlist : spelled .fieldList .bare lines =
      "Scales x.\n\n:param x: the value\n:param z: the scale\n:throws:\n- if x is negative\n- if z is 0" := by
    rw [hlines]
    rfl
  have htags : spelled .braceTag .block lines =
      "/**\n * Scales x.\n * \n * @param x the value\n * @param z the scale\n * @throws\n" ++
        " * - if x is negative\n * - if z is 0\n */" := by
    rw [hlines]
    rfl
  obtain ⟨hdoc, hwarnings⟩ := normalize_spelled_congr
    (some ⟨"f", [⟨"x", .primitive "real"⟩], .primitive "real", 0, {}, ""⟩) hfield
    .braceTag .fieldList .block .bare
  refine ⟨lines, hfield, hlist, htags, _, ?_, hdoc.trans ?_, hwarnings.trans ?_⟩
  · decide +kernel
  · rw [hlist]
    decide +kernel
  · rw [hlist]
    decide +kernel

end OverloadDocs.Comment
