import Mathlib.Data.List.Forall2
import OverloadDocs.Proofs.Trimming
import OverloadDocs.Store.FullText

/-!
Queries as quoted terms. A text for the search is read as terms with one space between them: each is quoted, two
quotes inside stand for one, and a star may follow. The text that a query is turned into can be read in this way,
and in no other way than as the words of the query without the stars at their ends, whatever else stands in them.
-/

namespace OverloadDocs.FullText

open Text

/-! ## Reading -/

/-- What stands between the quotes of a term, and the text that it spells. -/
inductive Quotes : List Char → List Char → Prop
  | nil : Quotes [] []
  | plain {c : Char} {cs text : List Char} (hc : c ≠ '"') (h : Quotes cs text) : Quotes (c :: cs) (c :: text)
  | quote {cs text : List Char} (h : Quotes cs text) : Quotes ('"' :: '"' :: cs) ('"' :: text)

/-- A term is quoted, and a star may follow the quotes. -/
inductive Term.Spells : List Char → Term → Prop
  | exact {cs text : List Char} (h : Quotes cs text) : Spells ('"' :: (cs ++ ['"'])) ⟨text, false⟩
  | starred {cs text : List Char} (h : Quotes cs text) : Spells ('"' :: (cs ++ ['"', '*'])) ⟨text, true⟩

/-- Terms have one space between them. -/
inductive Reads : List Char → List Term → Prop
  | nil : Reads [] []
  | one {cs : List Char} {t : Term} (h : t.Spells cs) : Reads cs [t]
  | more {cs rest : List Char} {t u : Term} {ts : List Term} (h : t.Spells cs) (hrest : Reads rest (u :: ts)) :
      Reads (cs ++ ' ' :: rest) (t :: u :: ts)

/-- A word without the stars at its end is the text of a term, and the term is starred if there were any. -/
structure Term.IsOf (word : List Char) (t : Term) : Prop where
  stars : ∃ n, word = t.text ++ List.replicate n '*' ∧ (t.starred ↔ n ≠ 0)
  last : t.text.getLast? ≠ some '*'

/-! ## Spelling -/

def doubled (text : List Char) : List Char := text.flatMap fun c => if c = '"' then ['"', '"'] else [c]

theorem doubled_quote (text : List Char) : doubled ('"' :: text) = '"' :: '"' :: doubled text := rfl

theorem doubled_plain {c : Char} (hc : c ≠ '"') (text : List Char) : doubled (c :: text) = c :: doubled text := by
  simp [doubled, hc]

theorem quotes_iff {cs text : List Char} : Quotes cs text ↔ cs = doubled text := by
  constructor
  · intro h
    induction h with
    | nil => rfl
    | plain hc _ ih => rw [doubled_plain hc, ih]
    | quote _ ih => rw [doubled_quote, ih]
  · rintro rfl
    induction text with
    | nil => exact .nil
    | cons c text ih =>
      by_cases hc : c = '"'
      · rw [hc, doubled_quote]
        exact .quote ih
      · rw [doubled_plain hc]
        exact .plain hc ih

theorem spells_iff {cs : List Char} {t : Term} : t.Spells cs ↔ cs = t.render := by
  constructor
  · rintro (⟨h⟩ | ⟨h⟩)
    · rw [quotes_iff.mp h]
      rfl
    · rw [quotes_iff.mp h]
      rfl
  · rintro rfl
    obtain ⟨text, starred⟩ := t
    have htext : Quotes (doubled text) text := quotes_iff.mpr rfl
    cases starred with
    | false => exact .exact htext
    | true => exact .starred htext

theorem reads_iff {cs : List Char} {ts : List Term} : Reads cs ts ↔ cs = joinWith [' '] (ts.map Term.render) := by
  constructor
  · intro h
    induction h with
    | nil => rfl
    | one h => rw [spells_iff.mp h, List.map_singleton, joinWith, List.intercalate_singleton]
    | more h _ ih =>
      rw [spells_iff.mp h, ih]
      rfl
  · rintro rfl
    induction ts with
    | nil => exact .nil
    | cons t ts ih =>
      have ht : t.Spells t.render := spells_iff.mpr rfl
      cases ts with
      | nil =>
        rw [List.map_singleton, joinWith, List.intercalate_singleton]
        exact .one ht
      | cons u ts => exact .more ht ih

/-! ## Cutting -/

/-- Where a quoted text ends can be told from the text, since a quote inside it is never alone. -/
theorem doubled_append_inj {text text' rest rest' : List Char} (hrest : rest.head? ≠ some '"')
    (hrest' : rest'.head? ≠ some '"') (h : doubled text ++ '"' :: rest = doubled text' ++ '"' :: rest') :
    text = text' ∧ rest = rest' := by
  induction text generalizing text' with
  | nil =>
    cases text' with
    | nil => exact ⟨rfl, (List.cons.inj h).2⟩
    | cons c text' =>
      by_cases hc : c = '"'
      · rw [hc, doubled_quote] at h
        exact absurd (congrArg List.head? (List.cons.inj h).2) hrest
      · rw [doubled_plain hc] at h
        exact absurd (List.cons.inj h).1.symm hc
  | cons c text ih =>
    cases text' with
    | nil =>
      by_cases hc : c = '"'
      · rw [hc, doubled_quote] at h
        exact absurd (congrArg List.head? (List.cons.inj h).2).symm hrest'
      · rw [doubled_plain hc] at h
        exact absurd (List.cons.inj h).1 hc
    | cons d text' =>
      by_cases hc : c = '"' <;> by_cases hd : d = '"'
      · rw [hc, hd, doubled_quote, doubled_quote] at h
        obtain ⟨rfl, rfl⟩ := ih (List.cons.inj (List.cons.inj h).2).2
        exact ⟨by rw [hc, hd], rfl⟩
      · rw [hc, doubled_quote, doubled_plain hd] at h
        exact absurd (List.cons.inj h).1.symm hd
      · rw [hd, doubled_quote, doubled_plain hc] at h
        exact absurd (List.cons.inj h).1 hc
      · rw [doubled_plain hc, doubled_plain hd] at h
        obtain ⟨rfl, htail⟩ := List.cons.inj h
        obtain ⟨rfl, rfl⟩ := ih htail
        exact ⟨rfl, rfl⟩

/-- The mark behind the quotes. -/
def mark (starred : Bool) : List Char := if starred then ['*'] else []

theorem render_eq (t : Term) : t.render = '"' :: (doubled t.text ++ '"' :: mark t.starred) := rfl

/-- Nothing, or a space and more, which is all that can stand behind a term. -/
def Follows (rest : List Char) : Prop := rest.head?.all (· = ' ')

theorem head?_mark_append (starred : Bool) {rest : List Char} (h : Follows rest) :
    (mark starred ++ rest).head? ≠ some '"' := by
  cases starred with
  | true => exact fun heq => absurd (Option.some.inj heq) (by decide)
  | false =>
    intro heq
    rw [mark, if_neg Bool.false_ne_true, List.nil_append] at heq
    rw [Follows, heq] at h
    exact absurd h (by decide)

theorem mark_append_inj {starred starred' : Bool} {rest rest' : List Char} (hrest : Follows rest)
    (hrest' : Follows rest') (h : mark starred ++ rest = mark starred' ++ rest') :
    starred = starred' ∧ rest = rest' := by
  have hstar : ∀ more : List Char, ¬ Follows ('*' :: more) := fun _ => Bool.false_ne_true
  cases starred <;> cases starred'
  · exact ⟨rfl, h⟩
  · exact absurd ((show rest = '*' :: rest' from h) ▸ hrest) (hstar rest')
  · exact absurd ((show '*' :: rest = rest' from h) ▸ hrest') (hstar rest)
  · exact ⟨rfl, (List.cons.inj h).2⟩

theorem render_append_inj {t t' : Term} {rest rest' : List Char} (hrest : Follows rest) (hrest' : Follows rest')
    (h : t.render ++ rest = t'.render ++ rest') : t = t' ∧ rest = rest' := by
  simp only [render_eq, List.cons_append, List.append_assoc] at h
  obtain ⟨htext, hmarks⟩ := doubled_append_inj (head?_mark_append _ hrest) (head?_mark_append _ hrest')
    (List.cons.inj h).2
  obtain ⟨hstarred, hrests⟩ := mark_append_inj hrest hrest' hmarks
  obtain ⟨text, starred⟩ := t
  obtain ⟨text', starred'⟩ := t'
  exact ⟨congrArg₂ Term.mk htext hstarred, hrests⟩

/-- What follows the first of some terms. -/
def behindFirst (ts : List Term) : List Char := ts.flatMap fun t => ' ' :: t.render

theorem joinWith_render_cons (t : Term) (ts : List Term) :
    joinWith [' '] ((t :: ts).map Term.render) = t.render ++ behindFirst ts := by
  induction ts generalizing t with
  | nil =>
    rw [List.map_singleton, joinWith, List.intercalate_singleton, behindFirst, List.flatMap_nil, List.append_nil]
  | cons u ts ih =>
    have hrest : joinWith [' '] ((t :: u :: ts).map Term.render) =
        t.render ++ ' ' :: joinWith [' '] ((u :: ts).map Term.render) := rfl
    rw [hrest, ih u]
    rfl

theorem follows_behindFirst (ts : List Term) : Follows (behindFirst ts) := by
  cases ts <;> rfl

theorem behindFirst_injective : Function.Injective behindFirst := by
  intro ts
  induction ts with
  | nil =>
    intro us h
    cases us with
    | nil => rfl
    | cons u us => cases h
  | cons t ts ih =>
    intro us h
    cases us with
    | nil => cases h
    | cons u us =>
      obtain ⟨rfl, hrest⟩ := render_append_inj (follows_behindFirst ts) (follows_behindFirst us) (List.cons.inj h).2
      rw [ih hrest]

/-- Terms can be told from their text. -/
theorem joinWith_render_injective : Function.Injective fun ts : List Term => joinWith [' '] (ts.map Term.render) := by
  intro ts us h
  refine behindFirst_injective ?_
  cases ts with
  | nil =>
    cases us with
    | nil => rfl
    | cons u us => exact absurd ((joinWith_render_cons u us).symm.trans h.symm) (List.cons_ne_nil _ _)
  | cons t ts =>
    cases us with
    | nil => exact absurd ((joinWith_render_cons t ts).symm.trans h) (List.cons_ne_nil _ _)
    | cons u us =>
      have hcut : t.render ++ behindFirst ts = u.render ++ behindFirst us :=
        (joinWith_render_cons t ts).symm.trans (h.trans (joinWith_render_cons u us))
      exact congrArg (' ' :: ·) hcut

/-! ## Words -/

theorem ofWord?_eq_none {word : List Char} : Term.ofWord? word = none ↔ ∀ c ∈ word, c = '*' := by
  have hstars : dropEndWhile (· == '*') word = [] ↔ ∀ c ∈ word, c = '*' := by
    rw [dropEndWhile, List.reverse_eq_nil_iff, List.dropWhile_eq_nil_iff]
    simp
  rw [Term.ofWord?, ← hstars]
  split
  · rename_i h
    exact iff_of_true rfl h
  · rename_i h
    exact iff_of_false nofun h

/-- The term of a word, which has no text if there are stars only. -/
def termOf (word : List Char) : Term := ⟨word.rdropWhile (· == '*'), word.getLast? == some '*'⟩

theorem ofWord?_eq (word : List Char) :
    Term.ofWord? word = if word.any (· ≠ '*') then some (termOf word) else none := by
  by_cases hstars : ∀ c ∈ word, c = '*'
  · rw [ofWord?_eq_none.mpr hstars, if_neg (by simpa using hstars)]
  · have hsome : Term.ofWord? word ≠ none := mt ofWord?_eq_none.mp hstars
    rw [if_pos (by simpa using hstars)]
    rw [Term.ofWord?] at hsome ⊢
    split at hsome
    · exact absurd rfl hsome
    · rename_i htext
      rw [if_neg htext]
      rfl

theorem isOf_iff {word : List Char} {t : Term} : t.IsOf word ↔ termOf word = t := by
  constructor
  · rintro ⟨⟨n, hword, hstarred⟩, hlast⟩
    have htext : word.rdropWhile (· == '*') = t.text := by
      rw [hword, rdropWhile_append_of_pos fun c hc => beq_iff_eq.mpr (List.eq_of_mem_replicate hc)]
      refine List.rdropWhile_eq_self_iff.mpr fun hne hstar => hlast ?_
      rw [List.getLast?_eq_some_getLast hne, beq_iff_eq.mp hstar]
    have hmark : (word.getLast? == some '*') = t.starred := by
      rw [Bool.eq_iff_iff, beq_iff_eq, hstarred, hword]
      cases n with
      | zero => exact iff_of_false (by rwa [List.replicate_zero, List.append_nil]) (not_not_intro rfl)
      | succ n =>
        rw [List.replicate_succ', ← List.append_assoc, List.getLast?_concat]
        exact iff_of_true rfl (Nat.succ_ne_zero n)
    exact congrArg₂ Term.mk htext hmark
  · rintro rfl
    obtain ⟨back, hword, hback⟩ := exists_rdropWhile (· == '*') word
    have hstars : back = List.replicate back.length '*' :=
      List.eq_replicate_iff.mpr ⟨rfl, fun c hc => beq_iff_eq.mp (hback c hc)⟩
    have hlast : (word.rdropWhile (· == '*')).getLast? ≠ some '*' := by
      intro hlast
      obtain ⟨hne, hstar⟩ := List.mem_getLast?_eq_getLast hlast
      exact List.rdropWhile_last_not _ _ hne (beq_iff_eq.mpr hstar.symm)
    refine ⟨⟨back.length, by rw [← hstars]; exact hword, ?_⟩, hlast⟩
    rw [termOf, beq_iff_eq]
    rcases List.eq_nil_or_concat' back with rfl | ⟨front, c, rfl⟩
    · rw [List.append_nil] at hword
      exact iff_of_false (fun heq => hlast (hword ▸ heq)) (not_not_intro rfl)
    · have hc := hback c (List.mem_append_right _ List.mem_cons_self)
      rw [hword, ← List.append_assoc, List.getLast?_concat, beq_iff_eq.mp hc]
      exact iff_of_true rfl (by simp)

/-- The terms of a query are those of its words that do not consist of stars. -/
theorem terms_eq_iff {query : String} {ts : List Term} :
    terms query = ts ↔
      List.Forall₂ Term.IsOf ((words query.toList).filter fun word => word.any (· ≠ '*')) ts := by
  have hmap : terms query = ((words query.toList).filter fun word => word.any (· ≠ '*')).map termOf := by
    rw [terms, ← List.filterMap_eq_map, List.filterMap_filter]
    exact congrArg (List.filterMap · _) (funext ofWord?_eq)
  have hof : Term.IsOf = fun word t => termOf word = t := funext₂ fun _ _ => propext isOf_iff
  rw [hmap, hof, ← List.forall₂_map_left_iff, List.forall₂_eq_eq_eq]

/-- The text that a query is turned into is read in one way: as the words of the query, each without the stars at its
end and starred if there were any, except that words of stars only are left out. -/
theorem reads_renderQuery (query : String) :
    ∃ ts, List.Forall₂ Term.IsOf ((words query.toList).filter fun word => word.any (· ≠ '*')) ts ∧
      ∀ us, Reads (renderQuery query).toList us ↔ us = ts := by
  refine ⟨terms query, terms_eq_iff.mp rfl, fun us => ?_⟩
  rw [reads_iff, renderQuery, String.toList_ofList]
  constructor
  · exact fun h => (joinWith_render_injective h).symm
  · rintro rfl
    rfl

/-- Operators, quotes and stars inside a word are text; only the stars at its end are not. -/
example : renderQuery "NOT say\"* ** a*b" = "\"NOT\" \"say\"\"\"* \"a*b\"" := by decide +kernel

end OverloadDocs.FullText
