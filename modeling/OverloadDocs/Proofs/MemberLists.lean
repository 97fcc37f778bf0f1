import OverloadDocs.Proofs.ErrorPositions
import OverloadDocs.Proofs.Recognition
import OverloadDocs.Proofs.References
import OverloadDocs.Proofs.Trimming

/-!
Queries and member lists as they are written. A query can be written with any white space between its tokens and
with names behind its parameter types, and it is read back from every such text. The entries of a member list are
cut off at semicolons and trimmed before they are read. Neither gets in the way of the tokens, since no query has a
semicolon and all blanks in its text are white space of the reader.
-/

namespace OverloadDocs

open Text Grammar

/-! ## Layouts -/

/-- The character of a lexeme that is punctuation in queries. -/
def Lexeme.mark? : Lexeme → Option Char
  | .openBracket => some '['
  | .closeBracket => some ']'
  | .openParen => some '('
  | .closeParen => some ')'
  | .comma => some ','
  | .ident _ | .semicolon | .illegal _ => none

namespace Token

/-- A text in which lexemes stand one after the other. White space may stand anywhere between them and at both ends,
and has to stand between two words only. -/
inductive Layout : List Lexeme → List Char → Prop
  | nil : Layout [] []
  | space {ls : List Lexeme} {c : Char} {cs : List Char} (hc : isSpace c) (h : Layout ls cs) : Layout ls (c :: cs)
  | word {ls : List Lexeme} {name : String} {cs : List Char} (hname : isIdentifier name) (hstops : Stops cs)
      (h : Layout ls cs) : Layout (.ident name :: ls) (name.toList ++ cs)
  | mark {ls : List Lexeme} {l : Lexeme} {c : Char} {cs : List Char} (hmark : l.mark? = some c) (h : Layout ls cs) :
      Layout (l :: ls) (c :: cs)

theorem symbols_of_mark {l : Lexeme} {c : Char} (h : l.mark? = some c) :
    symbols c = [l] ∧ ¬ isSpace c ∧ ¬ isIdentStart c := by
  cases l <;> cases h <;> decide

namespace Layout

variable {ls : List Lexeme} {cs : List Char}

theorem lexemesOf_eq (h : Layout ls cs) : lexemesOf cs = ls := by
  induction h with
  | nil => exact lexemesOf_nil
  | space hc _ ih => rw [lexemesOf_space hc, ih]
  | word hname hstops _ ih => rw [lexemesOf_word hname hstops, ih]
  | mark hmark _ ih =>
      obtain ⟨hsymbols, hspace, hstart⟩ := symbols_of_mark hmark
      rw [lexemesOf_symbol hspace hstart, hsymbols, ih, List.singleton_append]

theorem legal (h : Layout ls cs) : ∀ l ∈ ls, l.legal := by
  induction h with
  | nil => exact nofun
  | space _ _ ih => exact ih
  | word _ _ _ ih => exact List.forall_mem_cons.mpr ⟨rfl, ih⟩
  | @mark _ l _ _ hmark _ ih =>
      refine List.forall_mem_cons.mpr ⟨?_, ih⟩
      cases l <;> first | rfl | cases hmark

theorem inLanguage (h : Layout ls cs) : ∀ c ∈ cs, InLanguage c :=
  inLanguage_of_legal (h.lexemesOf_eq ▸ h.legal)

end Layout

/-- A text of the language lays out its lexemes. -/
theorem layout_lexemesOf {cs : List Char} (h : ∀ l ∈ lexemesOf cs, l.legal) : Layout (lexemesOf cs) cs := by
  induction cs using tokenInduction with
  | nil =>
      rw [lexemesOf_nil]
      exact .nil
  | space c cs hc ih =>
      rw [lexemesOf_space hc] at h ⊢
      exact .space hc (ih h)
  | word name rest hname hrest ih =>
      rw [lexemesOf_word hname hrest] at h ⊢
      exact .word hname hrest (ih fun l hl => h l (List.mem_cons_of_mem _ hl))
  | symbol c cs hspace hstart ih =>
      rw [lexemesOf_symbol hspace hstart] at h ⊢
      have hrest := ih fun l hl => h l (List.mem_append_right _ hl)
      obtain ⟨l, hl, hmem⟩ := symbols_of_legal fun l hl => h l (List.mem_append_left _ hl)
      simp only [List.mem_cons, Prod.mk.injEq, List.not_mem_nil, or_false] at hmem
      rw [hl]
      rcases hmem with ⟨rfl, rfl⟩ | ⟨rfl, rfl⟩ | ⟨rfl, rfl⟩ | ⟨rfl, rfl⟩ | ⟨rfl, rfl⟩
      all_goals exact .mark rfl hrest

theorem lexemesOf_append_blanks (cs : List Char) {back : List Char} (h : ∀ c ∈ back, isSpace c) :
    lexemesOf (cs ++ back) = lexemesOf cs := by
  cases back with
  | nil => rw [List.append_nil]
  | cons c back =>
      have hblanks : lexemesOf ((c :: back) ++ []) = [] := (lexemesOf_blanks_append h []).trans lexemesOf_nil
      rw [List.append_nil] at hblanks
      rw [lexemesOf_append cs (Stops.of_isSpace (List.forall_mem_cons.mp h).1 back), hblanks, List.append_nil]

/-- Trimming takes no token off a text whose blanks all separate tokens. -/
theorem lexemesOf_trim {cs : List Char} (h : ∀ c ∈ cs, isBlank c → isSpace c) :
    lexemesOf (trim cs) = lexemesOf cs := by
  obtain ⟨front, back, hcs, hfront, hback⟩ := exists_strip isBlank cs
  have hspace : ∀ c ∈ front ++ (strip isBlank cs ++ back), isBlank c → isSpace c := hcs ▸ h
  have hfront' : ∀ c ∈ front, isSpace c := fun c hc => hspace c (List.mem_append_left _ hc) (hfront c hc)
  have hback' : ∀ c ∈ back, isSpace c := fun c hc =>
    hspace c (List.mem_append_right _ (List.mem_append_right _ hc)) (hback c hc)
  conv_rhs => rw [hcs, lexemesOf_blanks_append hfront', lexemesOf_append_blanks _ hback']
  rfl

end Token

open Token

/-! ## Queries -/

namespace Query

/-- A query that can be written: its name is an identifier, and its types, if it has any, are valid ones. -/
structure Askable (q : Query) : Prop where
  name : isIdentifier q.name
  types : ∀ types ∈ q.types?, ∀ t ∈ types, t.Valid

/-- The lexemes that ask a query: its name, and the list of its types if it is qualified. A type may have a parameter
name behind it. -/
def Spells (q : Query) (ls : List Lexeme) : Prop :=
  match q.types? with
  | none => ls = [.ident q.name]
  | some types => ∃ params : List Parameter, params.map (·.type) = types ∧
      (∀ p ∈ params, p.name = "" ∨ Signature.IsName p.name) ∧ ls = .ident q.name :: listLexemes params

/-- A text that asks a query, however it is laid out. -/
def WrittenAs (q : Query) (text : String) : Prop := ∃ ls, q.Spells ls ∧ Layout ls text.toList

variable {q : Query} {ls : List Lexeme} {text : String}

theorem parse_of_name {name : String} (h : Token.lexemes text = [.ident name]) :
    Query.parse text = .ok ⟨name, none⟩ := by
  obtain ⟨offset, ts, hscan, hts⟩ := map_lexeme_eq_cons h
  obtain rfl := List.map_eq_nil_iff.mp hts
  exact parseWith_eq_ok.mpr (wholeQuery_eq_ok.mpr ⟨name, offset, [], hscan, .inl ⟨rfl, rfl⟩⟩)

theorem Askable.parse_of_spells (h : q.Askable) (hls : q.Spells ls) (htext : Token.lexemes text = ls) :
    Query.parse text = .ok q := by
  obtain ⟨name, types?⟩ := q
  cases types? with
  | none => exact parse_of_name (htext.trans hls)
  | some types =>
      obtain ⟨params, rfl, hnames, rfl⟩ := hls
      have hparams : ParamsWellFormed params := fun p hp =>
        ⟨h.types _ rfl p.type (List.mem_map_of_mem hp), hnames p hp⟩
      exact parse_of_lexemes hparams htext

theorem Askable.spells_render (h : q.Askable) : q.Spells (Token.lexemes q.render) := by
  obtain ⟨name, types?⟩ := q
  cases types? with
  | none =>
      have hword := lexemesOf_word h.name Stops.nil
      rw [List.append_nil, lexemesOf_nil] at hword
      exact hword
  | some types =>
      exact ⟨types.map .unnamed, map_type_unnamed types, List.forall_mem_map.mpr fun _ _ => .inl rfl,
        lexemes_identityKey h.name (h.types types rfl)⟩

theorem Askable.legal (h : q.Askable) (hls : q.Spells ls) : ∀ l ∈ ls, l.legal := by
  obtain ⟨name, types?⟩ := q
  cases types? with
  | none =>
      obtain rfl := hls
      exact List.forall_mem_singleton.mpr rfl
  | some types =>
      obtain ⟨params, rfl, hnames, rfl⟩ := hls
      have hmembers : ∀ member ∈ params.map (·.lexemes), Lexeme.IsMember member :=
        List.forall_mem_map.mpr fun p hp =>
          Parameter.isMember_lexemes (h.types _ rfl p.type (List.mem_map_of_mem hp)) (hnames p hp)
      exact List.forall_mem_cons.mpr ⟨rfl, List.forall_mem_cons.mpr ⟨rfl, Lexeme.legal_members hmembers⟩⟩

theorem Askable.writtenAs_of_lexemes (h : q.Askable) (hls : q.Spells (Token.lexemes text)) : q.WrittenAs text :=
  ⟨_, hls, layout_lexemesOf (h.legal hls)⟩

theorem Askable.writtenAs_render (h : q.Askable) : q.WrittenAs q.render := h.writtenAs_of_lexemes h.spells_render

theorem Askable.parse_of_writtenAs (h : q.Askable) (htext : q.WrittenAs text) : Query.parse text = .ok q := by
  obtain ⟨ls, hls, hlayout⟩ := htext
  exact h.parse_of_spells hls hlayout.lexemesOf_eq

end Query

/-! ## Member lists -/

/-- An entry of a member list: blanks alone, or a query that is written in some way, with blanks around it. -/
def Query.WrittenAsEntry (text : String) : Option Query → Prop
  | none => ∀ c ∈ text.toList, isBlank c
  | some q => q.Askable ∧ ∃ front back word, text.toList = front ++ (word.toList ++ back) ∧
      (∀ c ∈ front, isBlank c) ∧ (∀ c ∈ back, isBlank c) ∧ q.WrittenAs word

namespace Query

theorem trim_of_blank {cs : List Char} (h : ∀ c ∈ cs, isBlank c) : trim cs = [] := by
  have hstrip := strip_append_left h []
  rw [List.append_nil] at hstrip
  exact hstrip

theorem semicolon_notMem {entry : Option Query} {text : String} (h : WrittenAsEntry text entry) :
    ';' ∉ text.toList := by
  have hblank : ∀ {cs : List Char}, (∀ c ∈ cs, isBlank c) → ';' ∉ cs := by
    intro cs hcs hmem
    cases hcs _ hmem
  cases entry with
  | none => exact hblank h
  | some q =>
      obtain ⟨-, front, back, word, htext, hfront, hback, ls, -, hlayout⟩ := h
      have hword : ';' ∉ word.toList := fun hmem => absurd (hlayout.inLanguage _ hmem) (by decide)
      rw [htext, List.mem_append, List.mem_append, not_or, not_or]
      exact ⟨hblank hfront, hword, hblank hback⟩

/-- An entry that is trimmed asks its query. -/
theorem parse_trim {q : Query} {text : String} (h : WrittenAsEntry text (some q)) :
    trim text.toList ≠ [] ∧ Query.parse (String.ofList (trim text.toList)) = .ok q := by
  obtain ⟨hq, front, back, word, htext, hfront, hback, ls, hls, hlayout⟩ := h
  have htrim : trim text.toList = trim word.toList := by
    rw [htext, trim_eq_strip, strip_append_left hfront, strip_append_right _ hback]
    rfl
  have hlexemes : lexemesOf (trim word.toList) = ls := by
    rw [lexemesOf_trim fun c hc => (hlayout.inLanguage c hc).isSpace_of_isBlank, hlayout.lexemesOf_eq]
  rw [htrim]
  constructor
  · intro hempty
    rw [hempty, lexemesOf_nil] at hlexemes
    subst hlexemes
    obtain ⟨name, types?⟩ := q
    cases types? with
    | none => cases hls
    | some types =>
        obtain ⟨_, _, _, hcons⟩ := hls
        cases hcons
  · refine hq.parse_of_spells hls ?_
    rw [Token.lexemes_eq, String.toList_ofList, hlexemes]

theorem mapM_parse_trim {entries : List (Option Query × String)} (h : ∀ e ∈ entries, WrittenAsEntry e.2 e.1) :
    (((entries.map (·.2.toList)).map trim).filter (· ≠ [])).mapM (fun entry => Query.parse (String.ofList entry)) =
      .ok (entries.filterMap Prod.fst) := by
  induction entries with
  | nil => rfl
  | cons e entries ih =>
      obtain ⟨hhead, htail⟩ := List.forall_mem_cons.mp h
      obtain ⟨entry, text⟩ := e
      rw [List.map_cons, List.map_cons]
      cases entry with
      | none =>
          rw [trim_of_blank hhead, List.filter_cons_of_neg (by simp), List.filterMap_cons_none rfl]
          exact ih htail
      | some q =>
          obtain ⟨hne, hparse⟩ := parse_trim hhead
          have hqueries : ((some q, text) :: entries).filterMap Prod.fst = q :: entries.filterMap Prod.fst := rfl
          rw [List.filter_cons_of_pos (by simpa using hne), hqueries, List.mapM_cons, hparse, ih htail]
          rfl

/-- Queries are read back as they were asked. The text of a query that can be asked is one way to write it; from every
text that writes a query, whatever names its parameters are given and whatever white space stands between its tokens,
this query is read; and from a member list are read, one after the other, the queries that its entries write, without
those that are blank. -/
theorem parse_written :
    (∀ q : Query, q.Askable → Query.parse q.render = .ok q ∧ q.WrittenAs q.render) ∧
      (∀ (q : Query) (text : String), q.Askable → q.WrittenAs text → Query.parse text = .ok q) ∧
      ∀ entries : List (Option Query × String), (∀ e ∈ entries, WrittenAsEntry e.2 e.1) →
        Query.parseMembers (";".intercalate (entries.map Prod.snd)) = .ok (entries.filterMap Prod.fst) := by
  refine ⟨fun q hq => ⟨hq.parse_of_writtenAs hq.writtenAs_render, hq.writtenAs_render⟩,
    fun q text hq htext => hq.parse_of_writtenAs htext, fun entries hentries => ?_⟩
  cases entries with
  | nil =>
      have hempty : ([].splitOn ';').map trim = [[]] := by
        rw [List.splitOn_nil]
        rfl
      rw [List.map_nil, String.intercalate_nil, Query.parseMembers, String.toList_empty, hempty]
      rfl
  | cons e entries =>
      have htext : (";".intercalate ((e :: entries).map Prod.snd)).toList =
          [';'].intercalate ((e :: entries).map (·.2.toList)) := by
        rw [String.toList_intercalate, List.map_map]
        rfl
      have hplain : ∀ part ∈ (e :: entries).map (·.2.toList), ';' ∉ part :=
        List.forall_mem_map.mpr fun e he => semicolon_notMem (hentries e he)
      rw [Query.parseMembers, htext, List.splitOn_intercalate ';' hplain (by simp)]
      exact mapM_parse_trim hentries

/-- A query that is called like a keyword, with nested types and with names for its parameters, and a member list of
it, of a bare name, of a query without parameters and of blank entries. -/
theorem parse_written_keyword :
    let pairs : Query := ⟨"array", some [.array 2 (.tuple [.primitive "int", .vector]), .primitive "real"]⟩
    let text := "array(array[,] tuple(int, vector) xs, real y)"
    Query.parse pairs.render = .ok pairs ∧ Query.parse text = .ok pairs ∧
      Query.parseMembers (";".intercalate ["\t" ++ text ++ " ", " ", "f", "", "\ng()\x0c"]) =
        .ok [pairs, ⟨"f", none⟩, ⟨"g", some []⟩] := by
  intro pairs text
  obtain ⟨hrendered, hwritten, hmembers⟩ := parse_written
  have hpairs : pairs.Askable := ⟨by decide, by decide⟩
  have hf : Askable ⟨"f", none⟩ := ⟨by decide, by decide⟩
  have hg : Askable ⟨"g", some []⟩ := ⟨by decide, by decide⟩
  have htext : pairs.WrittenAs text := by
    let params : List Parameter :=
      [⟨"xs", .array 2 (.tuple [.primitive "int", .vector])⟩, ⟨"y", .primitive "real"⟩]
    have hparams : ParamsWellFormed params :=
      List.forall_mem_cons.mpr ⟨by decide, List.forall_mem_singleton.mpr (by decide)⟩
    have hlisted : text = listText "array" params := by decide +kernel
    exact hpairs.writtenAs_of_lexemes ⟨params, rfl, fun p hp => (hparams p hp).2,
      hlisted ▸ lexemes_listText hpairs.name hparams⟩
  have hblank : ∀ c, isBlank c → ∀ d ∈ [c], isBlank d := fun _ hc => List.forall_mem_singleton.mpr hc
  have hspace : WrittenAsEntry " " none := by simpa [WrittenAsEntry] using hblank ' ' rfl
  have hempty : WrittenAsEntry "" none := by simp [WrittenAsEntry]
  have hpairs' : WrittenAsEntry ("\t" ++ text ++ " ") (some pairs) :=
    ⟨hpairs, ['\t'], [' '], text, by simp, hblank _ rfl, hblank _ rfl, htext⟩
  have hf' : WrittenAsEntry "f" (some ⟨"f", none⟩) := ⟨hf, [], [], "f", by simp, nofun, nofun, hf.writtenAs_render⟩
  have hg' : WrittenAsEntry "\ng()\x0c" (some ⟨"g", some []⟩) :=
    ⟨hg, ['\n'], ['\x0c'], "g()", by decide, hblank _ rfl, hblank _ rfl, hg.writtenAs_render⟩
  refine ⟨(hrendered pairs hpairs).1, hwritten pairs text hpairs htext,
    hmembers [(some pairs, "\t" ++ text ++ " "), (none, " "), (some ⟨"f", none⟩, "f"), (none, ""),
      (some ⟨"g", some []⟩, "\ng()\x0c")] ?_⟩
  simp only [List.forall_mem_cons]
  exact ⟨hpairs', hspace, hf', hempty, hg', nofun⟩

end Query

end OverloadDocs
