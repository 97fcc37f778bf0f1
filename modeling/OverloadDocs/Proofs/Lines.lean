import OverloadDocs.Proofs.Shapes
import OverloadDocs.Proofs.Sites

/-!
The lines of a scan and of the declarations it finds. The line counter is right but for the line feeds behind
a backslash in string literals, which it leaves out. A declaration has the line of its first character, and as
its last line that of the character which ends it: the line of its last parenthesis and the line feeds after
that.
-/

namespace OverloadDocs.Source

open Text Token

/-! ## Escaped line feeds -/

theorem Literal.escapedFeeds_eq_zero {cs : List Char} (h : ¬ ['\\', '\n'] <:+: cs) :
    Literal.escapedFeeds cs = 0 := by
  fun_induction Literal.escapedFeeds cs with
  | case1 => rfl
  | case2 c cs ih =>
    have hc : c ≠ '\n' := by
      rintro rfl
      exact h (List.prefix_append ['\\', '\n'] cs).isInfix
    have hcs : ¬ ['\\', '\n'] <:+: cs := fun hin =>
      h ((hin.trans (List.suffix_cons c cs).isInfix).trans (List.suffix_cons '\\' (c :: cs)).isInfix)
    simp [ih hcs, newlines, hc]
  | case3 => rfl
  | case4 c cs _ _ ih => exact ih fun hin => h (hin.trans (List.suffix_cons c cs).isInfix)

/-- In a source without a line feed behind a backslash the line counter leaves out none. -/
theorem Position.escaped_eq_zero {source : String} (hsource : ¬ ['\\', '\n'] <:+: source.toList)
    {p : Position} (h : (front source).Leads p) : p.escaped = 0 := by
  induction h with
  | refl => rfl
  | @tail q r hleads hturn ih =>
    obtain ⟨hrest, rfl⟩ := hturn
    obtain ⟨before, hbefore, -⟩ := line_of_leads hleads
    have hno : ¬ ['\\', '\n'] <:+: q.rest := fun hin =>
      hsource (hbefore ▸ hin.trans (List.suffix_append before q.rest).isInfix)
    have hahead : escapedAhead q.rest = 0 := by
      unfold escapedAhead
      split
      · rename_i cs hcs
        exact Literal.escapedFeeds_eq_zero fun hin =>
          hno (hcs ▸ hin.trans (List.suffix_cons '"' cs).isInfix)
      · rfl
    rw [next, ih, hahead]

/-! ## Ends of folded texts -/

theorem head?_foldBlanks {c : Char} (hc : isBlank c = false) (cs : List Char) :
    (foldBlanks (c :: cs)).head? = some c := by
  rw [foldBlanks, head?_joinWith fun w hw => (isWord_of_mem_words hw).1, flatten_words,
    List.filter_cons_of_pos (by simp [hc]), List.head?_cons]

/-- A text ends with the last character of its folded form, and then only with blanks. -/
theorem exists_last_of_foldBlanks {text : List Char} {c : Char}
    (h : (foldBlanks text).getLast? = some c) :
    ∃ front blanks, text = front ++ c :: blanks ∧ isBlank c = false ∧ ∀ b ∈ blanks, isBlank b := by
  rw [foldBlanks, getLast?_joinWith fun w hw => (isWord_of_mem_words hw).1, flatten_words] at h
  obtain ⟨earlier, hlast⟩ := List.getLast?_eq_some_iff.mp h
  obtain ⟨front, back, rfl, -, hback⟩ := List.filter_eq_append_iff.mp hlast
  obtain ⟨skipped, blanks, rfl, -, hc, hblanks⟩ := List.filter_eq_cons_iff.mp hback
  refine ⟨front ++ skipped, blanks, by rw [List.append_assoc], by simpa using hc, fun b hb => ?_⟩
  simpa using List.filter_eq_nil_iff.mp hblanks b hb

/-- What looks like a declaration ends with a parenthesis. -/
theorem getLast?_of_looksLikeDeclaration {cs : List Char} (h : looksLikeDeclaration cs) :
    cs.getLast? = some ')' := by
  rw [looksLikeDeclaration, Bool.and_eq_true] at h
  obtain ⟨front, list, rfl, -, hlast⟩ := opensList_nil_iff.mp h.1
  simp [List.getLast?_append, List.getLast?_cons, hlast]

/-! ## The last parenthesis -/

theorem Reads.suffix {cs text rest : List Char} (h : Reads cs text rest) : rest <:+ cs := by
  induction h with
  | done => exact List.suffix_rfl
  | space _ _ ih => exact ih.trans (List.suffix_cons _ _)
  | @blockComment cs _ _ _ ih =>
    exact ih.trans (((blockBody_feeds cs).suffix.trans (List.suffix_cons '*' cs)).trans
      (List.suffix_cons '/' _))
  | @lineComment cs _ _ _ ih =>
    exact ih.trans (((lineBody_feeds cs).suffix.trans (List.suffix_cons '/' cs)).trans
      (List.suffix_cons '/' _))
  | @literal cs _ _ _ ih =>
    exact ih.trans ((Literal.read_feeds cs).suffix.trans (List.suffix_cons '"' cs))
  | code _ _ ih => exact ih.trans (List.suffix_cons _ _)

/-- A string literal that something follows ends with its quote. -/
theorem Literal.getLast?_read {cs : List Char} (h : (Literal.read cs).rest ≠ []) :
    (Literal.read cs).text.getLast? = some '"' := by
  fun_induction Literal.read cs with
  | case1 => exact absurd rfl h
  | case2 c cs l ih => simp [List.getLast?_cons, ih h, l]
  | case3 => rfl
  | case4 c cs _ _ l ih => simp [List.getLast?_cons, ih h, l]

/-- A statement that ends with a character and then only with blanks is read up to that character and from
there on, if it is not the quote of a literal. -/
theorem Reads.split_last {c : Char} (hc : isBlank c = false) (hquote : c ≠ '"')
    {cs text rest : List Char} (h : Reads cs text rest) (hrest : rest ≠ [])
    {front blanks : List Char} (htext : text = front ++ c :: blanks) (hblanks : ∀ b ∈ blanks, isBlank b) :
    ∃ middle, Reads cs front (c :: middle) ∧ Reads middle blanks rest := by
  induction h generalizing front with
  | done => simp at htext
  | space hspace h ih =>
    cases front with
    | nil =>
      obtain ⟨rfl, -⟩ := List.cons.inj htext
      cases hc
    | cons d front =>
      obtain ⟨rfl, htext'⟩ := List.cons.inj htext
      obtain ⟨middle, hfront, hback⟩ := ih hrest htext'
      exact ⟨middle, .space hspace hfront, hback⟩
  | blockComment h ih =>
    cases front with
    | nil =>
      obtain ⟨rfl, -⟩ := List.cons.inj htext
      cases hc
    | cons d front =>
      obtain ⟨rfl, htext'⟩ := List.cons.inj htext
      obtain ⟨middle, hfront, hback⟩ := ih hrest htext'
      exact ⟨middle, .blockComment hfront, hback⟩
  | lineComment h ih =>
    obtain ⟨middle, hfront, hback⟩ := ih hrest htext
    exact ⟨middle, .lineComment hfront, hback⟩
  | @literal cs text rest h ih =>
    rw [← List.cons_append] at htext
    have hafter : ∀ front', front = '"' :: ((Literal.read cs).text ++ front') →
        text = front' ++ c :: blanks →
        ∃ middle, Reads ('"' :: cs) front (c :: middle) ∧ Reads middle blanks rest := by
      rintro front' rfl htext'
      obtain ⟨middle, hfront, hback⟩ := ih hrest htext'
      exact ⟨middle, .literal hfront, hback⟩
    rcases List.append_eq_append_iff.mp htext with ⟨front', hfront, htext'⟩ | ⟨back, hliteral, hback⟩
    · exact hafter front' hfront htext'
    by_cases hnil : back = []
    · rw [hnil, List.append_nil] at hliteral
      rw [hnil, List.nil_append] at hback
      exact hafter [] (by rw [List.append_nil, hliteral]) hback.symm
    · -- the character would stand in the literal, and so would the closing quote, among the blanks
      have hopen : (Literal.read cs).rest ≠ [] := fun hend =>
        hrest (List.suffix_nil.mp (hend ▸ h.suffix))
      have hlast : back.getLast? = some '"' := by
        have hend : ('"' :: (Literal.read cs).text).getLast? = some '"' := by
          rw [List.getLast?_cons, Literal.getLast?_read hopen, Option.getD_some]
        rwa [hliteral, List.getLast?_append, List.getLast?_eq_some_getLast hnil, Option.some_or,
          ← List.getLast?_eq_some_getLast hnil] at hend
      have hmem : '"' ∈ c :: blanks := by
        rw [hback]
        exact List.mem_append_left _ (List.mem_of_getLast? hlast)
      rcases List.mem_cons.mp hmem with hquote' | hblank
      · exact absurd hquote'.symm hquote
      · exact absurd (hblanks _ hblank) (by decide)
  | @code d cs text rest hcode h ih =>
    cases front with
    | nil =>
      obtain ⟨rfl, rfl⟩ := List.cons.inj htext
      exact ⟨cs, .done _, h⟩
    | cons d front =>
      obtain ⟨rfl, htext'⟩ := List.cons.inj htext
      obtain ⟨middle, hfront, hback⟩ := ih hrest htext'
      exact ⟨middle, .code hcode hfront, hback⟩

/-! ## Lines of declarations -/

/-- Wherever the scan of a source comes to, its line counter is one more than the line feeds before that
place, but for those behind a backslash in string literals, and a source that has no line feed behind a
backslash has none of them. In the same way the line of a declaration is that of its first character. -/
theorem line_counts (source : String) :
    (∀ p, (Position.front source).Leads p →
      ∃ before, source.toList = before ++ p.rest ∧ p.scanner.line + p.escaped = 1 + newlines before) ∧
    (¬ ['\\', '\n'] <:+: source.toList →
      ∀ p, (Position.front source).Leads p → p.escaped = 0) ∧
    ∀ d ∈ declarations source, ∃ text first last before c rest,
      (Position.front source).Leads first ∧ d.Stands text first last ∧
      source.toList = before ++ first.rest ∧ d.line + first.escaped = 1 + newlines before ∧
      first.rest = c :: rest ∧ (isBlank c = false → d.text.toList.head? = some c) := by
  refine ⟨fun p hp => Position.line_of_leads hp,
    fun hsource p hp => Position.escaped_eq_zero hsource hp, fun d hd => ?_⟩
  obtain ⟨text, first, last, hvisit, hstands⟩ := exists_stands hd
  obtain ⟨before, hsource, hline⟩ := Position.line_of_leads hvisit
  obtain ⟨c, rest, hfront, -, hhead⟩ := hstands.head
  refine ⟨text, first, last, before, c, rest, hvisit, hstands, hsource, ?_, hfront, fun hc => ?_⟩
  · rw [hstands.line, hline]
  · obtain ⟨more, rfl⟩ := List.head?_eq_some_iff.mp hhead
    rw [hstands.text_eq, String.toList_ofList, head?_foldBlanks hc]

/-- A declaration below a string literal with a line feed behind a backslash. -/
theorem line_behind_escaped_feed :
    ∃ before, ∃ d ∈ declarations "real g() \x7b print(\"a\\\nb\"); \x7d\nreal f(real x);",
      "real g() \x7b print(\"a\\\nb\"); \x7d\nreal f(real x);".toList =
        before ++ (d.text ++ ";").toList ∧
      d.text = "real f(real x)" ∧ d.line = 2 ∧ 1 + newlines before = 3 := by
  refine ⟨"real g() \x7b print(\"a\\\nb\"); \x7d\n".toList, ⟨"real f(real x)", "", 2, 2, true⟩, ?_⟩
  decide +kernel

/-- A statement is read up to its last parenthesis, and from there to the rest over a gap that adds only
blanks to it. -/
def ClosesBefore (cs text gap rest : List Char) : Prop :=
  ∃ front blanks, text = front ++ ')' :: blanks ∧ (∀ b ∈ blanks, isBlank b) ∧
    Reads cs front (')' :: (gap ++ rest)) ∧ Reads (gap ++ rest) blanks rest

theorem Declaration.Stands.exists_gap {d : Declaration} {text : List Char} {first last : Position}
    (h : d.Stands text first last) : ∃ gap, ClosesBefore first.rest text gap last.rest := by
  obtain ⟨front, blanks, htext, -, hblanks⟩ :=
    exists_last_of_foldBlanks (getLast?_of_looksLikeDeclaration h.looks)
  have hrest : last.rest ≠ [] := by
    intro hnil
    have hend := h.ends
    rw [hnil] at hend
    cases hend
  obtain ⟨middle, hfront, hback⟩ := h.reads.split_last (by decide) (by decide) hrest htext hblanks
  obtain ⟨gap, rfl⟩ := hback.suffix
  exact ⟨gap, front, blanks, htext, hblanks, hfront, hback⟩

/-- In a source without backslashes the last line of a declaration is the line of its last parenthesis and as
many more as there are line feeds between that and the character which ends the declaration. -/
theorem endLine_eq {source : String} (hsource : '\\' ∉ source.toList) {d : Declaration}
    (hd : d ∈ declarations source) :
    ∃ text first last before gap, (Position.front source).Leads first ∧ d.Stands text first last ∧
      source.toList = before ++ ')' :: (gap ++ last.rest) ∧
      ClosesBefore first.rest text gap last.rest ∧
      d.endLine = 1 + newlines before + newlines gap ∧
      (d.endLine = 1 + newlines before ↔ '\n' ∉ gap) := by
  obtain ⟨text, first, last, hvisit, hstands⟩ := exists_stands hd
  obtain ⟨gap, hcloses⟩ := hstands.exists_gap
  obtain ⟨read, hread, -⟩ := Position.line_of_leads hvisit
  obtain ⟨front, blanks, -, -, hfront, -⟩ := id hcloses
  obtain ⟨head, hhead⟩ := hfront.suffix
  have hplace : source.toList = (read ++ head) ++ ')' :: (gap ++ last.rest) := by
    rw [hread, ← hhead, List.append_assoc]
  have hunescaped : ¬ ['\\', '\n'] <:+: source.toList := fun hin =>
    hsource (hin.subset List.mem_cons_self)
  have hlast := hvisit.trans hstands.leads
  obtain ⟨before, hbefore, hline⟩ := Position.line_of_leads hlast
  have hsame : before = (read ++ head) ++ ')' :: gap := by
    refine List.append_cancel_right (?_ : before ++ last.rest = _ ++ last.rest)
    rw [← hbefore, hplace, List.append_assoc (read ++ head), List.cons_append]
  have hfeeds : newlines before = newlines (read ++ head) + newlines gap := by
    rw [hsame, newlines_append, newlines_cons, newlines_of_not_isSpace (by decide), Nat.zero_add]
  have hend : d.endLine = 1 + newlines (read ++ head) + newlines gap := by
    have hescaped := Position.escaped_eq_zero hunescaped hlast
    rw [hstands.endLine]
    omega
  refine ⟨text, first, last, read ++ head, gap, hvisit, hstands, hplace, hcloses, hend, ?_⟩
  rw [hend, Nat.add_eq_left, newlines, List.count_eq_zero]

/-- A declaration on two lines, with a comment between its list and its brace. -/
theorem endLine_of_comment_behind_list :
    '\\' ∉ "real f(\n  real x) /* one\ntwo */\n\x7b\x7d".toList ∧
      ⟨"real f( real x)", "", 1, 4, false⟩ ∈
        declarations "real f(\n  real x) /* one\ntwo */\n\x7b\x7d" ∧
      ∃ before gap, ∃ last : Position,
        "real f(\n  real x) /* one\ntwo */\n\x7b\x7d".toList = before ++ ')' :: (gap ++ last.rest) ∧
        4 = 1 + newlines before + newlines gap ∧ (4 = 1 + newlines before ↔ '\n' ∉ gap) := by
  have hsource : '\\' ∉ "real f(\n  real x) /* one\ntwo */\n\x7b\x7d".toList := by decide +kernel
  have hd : ⟨"real f( real x)", "", 1, 4, false⟩ ∈
      declarations "real f(\n  real x) /* one\ntwo */\n\x7b\x7d" := by decide +kernel
  obtain ⟨text, first, last, before, gap, -, -, hplace, -, hline, hiff⟩ := endLine_eq hsource hd
  exact ⟨hsource, hd, before, gap, last, hplace, hline, hiff⟩

/-- A declaration with its brace on a line of its own. -/
theorem endLine_of_brace_below :
    ∃ gap, declarations "real f(real x)\n\x7b\x7d" = [⟨"real f(real x)", "", 1, 2, false⟩] ∧
      "real f(real x)\n\x7b\x7d".toList = "real f(real x".toList ++ ')' :: (gap ++ ['\x7b', '\x7d']) ∧
      1 + newlines "real f(real x".toList = 1 := by
  refine ⟨['\n'], ?_⟩
  decide +kernel

end OverloadDocs.Source
